import Framecast.Registry.Create

/-!
# Writing and reading properties

A plain value is encoded in place. A text is interned and a raw buffer becomes a
resource, and the instance holds a reference on it. References are checked
before anything changes; new targets are retained before old ones are released,
so writing the same reference again never lets its target go. A raw buffer can
be set once in the life of an instance.
-/

namespace Framecast

namespace Registry

/-- The failure that a schema refuses something. -/
def liftSchema {α : Type} : Except SchemaError α → RegistryM α
  | .ok a => pure a
  | .error cause => throw (.schema cause)

/-- The references that a value names. -/
def targetsOf : Value → List ResourceId
  | .ref id => id.toList.filter (· != 0)
  | .refs slots => (slots.filterMap id).filter (· != 0)
  | _ => []

/-- Checks that a reference leads to a live resource of the expected type. -/
def checkTarget (expected : String) (id : ResourceId) : RegistryM Unit := do
  let target ← find id
  if target.type != expected then throw (.typeMismatch id expected target.type)

/-- Checks every reference that a value names, if the property declares a target. -/
def checkTargets (prop : Property) (value : Value) : RegistryM Unit :=
  match prop.target? with
  | none => pure ()
  | some expected => (targetsOf value).forM (checkTarget expected)

/-- The failure that a resource is no instance of a schema. -/
def notInstance (resource : Resource) : ResourceError :=
  .typeMismatch resource.id "schema instance" resource.type

/-- The schema and the bytes of a live instance. -/
def fieldsOf (id : ResourceId) : RegistryM (Schema × Bytes) := do
  let resource ← find id
  match resource.storage with
  | .fields schema bytes => return (schema, bytes)
  | .payload _ => throw (notInstance resource)

/-- Replaces the bytes of a property of a live instance. -/
def storeBytes (r : Registry) (id : ResourceId) (prop : Property) (part : Bytes) : Registry :=
  r.modifyResource id fun resource =>
    match resource.storage with
    | .fields schema bytes =>
      { resource with storage := .fields schema (prop.splice bytes part) }
    | .payload _ => resource

/-- Changes the bytes of a property of a live instance. -/
def updateSlice (id : ResourceId) (prop : Property) (f : Bytes → Bytes) : RegistryM Unit := do
  let (_, bytes) ← fieldsOf id
  modify (·.storeBytes id prop (f (prop.slice bytes)))

/-- The words of a collection of `count` slots that holds `targets`, zero where it holds none. -/
def padded (count : Nat) (targets : List ResourceId) : List UInt32 :=
  (List.range count).map fun i => targets[i]?.getD 0

/-- Stores references in a property that owns them. -/
def replaceRefs (id : ResourceId) (prop : Property) (targets : List ResourceId) :
    RegistryM Unit := do
  let (_, bytes) ← fieldsOf id
  let previous := prop.words (prop.slice bytes)
  (targets.filter (· != 0)).forM fun target => discard (retain target)
  updateSlice id prop (·.setWords (padded prop.count targets))
  modify fun r => (previous.filter (· != 0)).foldl release r

/-- The largest length of a raw buffer that fits a word. -/
def maxBufferLength : Nat := 0xFFFFFFFF

/-- Stores a raw buffer: its length, whether it can change, and its number. -/
def writeBuffer (id : ResourceId) (prop : Property) (buffer : RawBuffer) : RegistryM Unit := do
  let (_, bytes) ← fieldsOf id
  if (prop.slice bytes).word 2 != 0 then throw (.bufferAlreadySet id prop.name)
  let length := (← get).supply.pool.length buffer
  if maxBufferLength < length then throw (.bufferTooLarge id prop.name length)
  let target ← createBuffer buffer
  discard (retain target)
  updateSlice id prop
    (·.setWords [UInt32.ofNat length, if buffer.isShared then 1 else 0, target])

/-- Writes a value to a property of a live instance. -/
def writeProp (id : ResourceId) (prop : Property) (value : Value) : RegistryM Unit := do
  liftSchema (prop.validate value)
  checkTargets prop value
  match value with
  | .text s =>
    let target ← createString s
    replaceRefs id prop [target]
  | .buffer b => writeBuffer id prop b
  | .ref target =>
    if prop.backRef then updateSlice id prop (·.setWord 0 (target.getD 0))
    else replaceRefs id prop [target.getD 0]
  | .refs slots => replaceRefs id prop (slots.map (·.getD 0))
  | plain =>
    let (_, bytes) ← fieldsOf id
    let part ← liftSchema (prop.encodePlain plain (prop.slice bytes))
    modify (·.storeBytes id prop part)

/-- The property of a live instance under a name. -/
def propOf (id : ResourceId) (name : String) : RegistryM Property := do
  let (schema, _) ← fieldsOf id
  match schema.layout.prop? name with
  | some prop => return prop
  | none => throw (.unknownProp schema.name name)

/-- Writes a property on behalf of the host. -/
def setProp (id : ResourceId) (name : String) (value : Value) : RegistryM Unit := do
  let prop ← propOf id name
  if !prop.isMutable then throw (.immutableProp name)
  writeProp id prop value

/-- Writes a property on behalf of a script. -/
def setPropFromScript (id : ResourceId) (name : String) (value : Value) : RegistryM Unit := do
  let prop ← propOf id name
  if !prop.script then throw (.notScriptWritable name)
  writeProp id prop value

/-- A stored reference, zero being none. -/
def idAt (word : UInt32) : Option ResourceId := if word = 0 then none else some word

/-- The value that a property's own bytes stand for, with texts and buffers looked up. -/
def valueOf (r : Registry) (prop : Property) (bytes : Bytes) : Value :=
  match prop.plainValue? bytes with
  | some value => value
  | none =>
    match prop.kind with
    | .string => .text ((r.string? (bytes.word 0)).getD "")
    | .arrayBuffer => .buffer ((r.buffer? (bytes.word 2)).getD .placeholder)
    | .refArray => .refs (((prop.words bytes).map idAt).takeWhile Option.isSome)
    | .refMap => .refs ((prop.words bytes).map idAt)
    | _ => .ref (idAt (bytes.word 0))

/-- The current value of a property. -/
def getProp (r : Registry) (id : ResourceId) (name : String) : Except ResourceError Value :=
  match r.resource? id with
  | none => .error (.notFound id)
  | some resource =>
    match resource.storage with
    | .payload _ => .error (.unknownProp resource.type name)
    | .fields schema bytes =>
      match schema.layout.prop? name with
      | none => .error (.unknownProp schema.name name)
      | some prop => .ok (r.valueOf prop (prop.slice bytes))

end Registry

end Framecast
