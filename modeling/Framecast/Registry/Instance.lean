import Framecast.Registry.Write

/-!
# New instances

An instance is created from a schema and a list of values. All values are checked
before anything is created. Plain values are encoded into the default bytes; the
other ones, and the default texts of properties that were given none, are written
once the instance has its number, while no link knows of it. If one of these
writes fails, the instance is removed again without its hook.
-/

namespace Framecast

namespace Registry

/-- Enters the schema of a type, or checks that it is the one known. -/
def registerSchema (schema : Schema) : RegistryM Unit := do
  let r ← get
  match r.schemas[schema.name]? with
  | some known => if !known.agrees schema then throw (.definitionConflict schema.name)
  | none => set { r with schemas := r.schemas.insert schema.name schema }

/-- Finds the property that a value is meant for and checks the value. -/
def checkSupplied (schema : Schema) (given : String × Value) : RegistryM (Property × Value) := do
  match schema.layout.prop? given.1 with
  | none => throw (.unknownProp schema.name given.1)
  | some prop =>
    liftSchema (prop.validate given.2)
    checkTargets prop given.2
    return (prop, given.2)

/-- Whether a property was given a value. -/
def isSupplied (supplied : List (Property × Value)) (prop : Property) : Bool :=
  supplied.any (·.1.name == prop.name)

/-- Checks that nothing is missing that must be supplied. -/
def checkRequired (schema : Schema) (supplied : List (Property × Value)) : RegistryM Unit :=
  match schema.layout.props.find? (fun p => p.required && !isSupplied supplied p) with
  | some missing => throw (.missingRequired schema.name missing.name)
  | none => pure ()

/-- Encodes one plain value into the bytes of a new instance. -/
def encodeSupplied (storage : Bytes) (given : Property × Value) : RegistryM Bytes := do
  let part ← liftSchema (given.1.encodePlain given.2 (given.1.slice storage))
  return given.1.splice storage part

/-- The default of a property that is written like a supplied value. -/
def deferredDefault (supplied : List (Property × Value)) (prop : Property) :
    Option (Property × Value) :=
  if isSupplied supplied prop || prop.kind.isPlain then none
  else prop.default?.map fun value => (prop, value)

/-- The writes that wait until a new instance has its number. -/
def deferred (layout : Layout) (supplied : List (Property × Value)) : List (Property × Value) :=
  let given := supplied.filter fun s => !s.1.kind.isPlain
  given ++ layout.props.filterMap (deferredDefault given)

/-- Writes values one after another. -/
def writeEach (id : ResourceId) (values : List (Property × Value)) : RegistryM Unit :=
  values.forM fun given => writeProp id given.1 given.2

/-- Writes the values of a new instance; after a failure it is removed again. -/
def writeAll (id : ResourceId) (values : List (Property × Value)) : RegistryM Unit := fun r =>
  match (writeEach id values).run r with
  | .ok a after => .ok a after
  | .error e after => .error e (after.destroy id)

/-- What a creation comes to once its values were checked. -/
inductive Draft where
  /-- The instance is there already. -/
  | cached (id : ResourceId)
  /-- An instance is to be entered with some bytes, and some values are to be written to it. -/
  | fresh (bytes : Bytes) (values : List (Property × Value))

/-- Checks the values of a new instance and encodes the plain ones. -/
def draft (schema : Schema) (props : List (String × Value)) (options : Options) :
    RegistryM Draft := do
  registerSchema schema
  let supplied ← props.mapM (checkSupplied schema)
  checkRequired schema supplied
  match (← get).cached? schema.name options.cacheKey? with
  | some id => return .cached id
  | none =>
    let plain := supplied.filter fun s => s.1.kind.isPlain
    let bytes ← plain.foldlM encodeSupplied schema.layout.defaultBytes
    return .fresh bytes (deferred schema.layout supplied)

/-- Enters an instance under the next number, without its hook. -/
def enterInstance (r : Registry) (schema : Schema) (bytes : Bytes) (options : Options) :
    ResourceId × Registry :=
  r.insert schema.name (.fields schema bytes) { options with hook? := none }

/-- Writes the values of a new instance, gives it its hook and sends it to every link. -/
def fillInstance (id : ResourceId) (values : List (Property × Value)) (options : Options) :
    RegistryM ResourceId := do
  writeAll id values
  modify (·.modifyResource id fun resource => { resource with hook? := options.hook? })
  bind id (← get).allLinks
  return id

/-- Creates an instance of a schema and sends it to every link. -/
def createInstance (schema : Schema) (props : List (String × Value)) (options : Options) :
    RegistryM ResourceId := do
  match ← draft schema props options with
  | .cached id => return id
  | .fresh bytes values =>
    let (id, r) := (← get).enterInstance schema bytes options
    set r
    fillInstance id values options

end Registry

end Framecast
