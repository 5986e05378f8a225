import Framecast.Proofs.Guarded.Bytes
import Framecast.Proofs.Run.Actions

/-!
# Operations with every access guarded

The operations of a producer look links, buffers, parts of bytes and words up by
position. Here are the same operations with a guard at each such place: if a position
is out of range, or a buffer does not belong to the link that it is written through,
the operation stops with a fault of its own, which no operation answers. What looks
nothing up by position is taken over as it is.
-/

namespace Framecast

/-- Why a guarded operation stops. -/
inductive Fault where
  /-- As the operation itself fails. -/
  | failure (cause : ResourceError)
  /-- A part or a word is not inside the bytes. -/
  | outOfBytes
  /-- There is no link at a position. -/
  | noLink (position : Nat)
  /-- A buffer was not allocated on the link that it is written through. -/
  | foreignBuffer (position buffer : Nat)

/-- A guarded operation on a registry. -/
abbrev GuardedM := EStateM Fault Registry

namespace Guarded

/-- An operation that looks nothing up by position. -/
def plainly {α : Type} (m : RegistryM α) : GuardedM α := fun r =>
  match m.run r with
  | .ok a after => .ok a after
  | .error e after => .error (.failure e) after

/-- What was looked up in bytes. -/
def inside {α : Type} (found? : Option α) : GuardedM α :=
  match found? with
  | some a => pure a
  | none => throw .outOfBytes

/-- There has to be a link at a position. -/
def demandLink (position : Nat) : GuardedM Unit := do
  if (← get).links.length ≤ position then throw (.noLink position)

/-- A buffer has to be one of the link at a position. -/
def demandBuffer (position buffer : Nat) : GuardedM Unit := do
  if ((← get).framesAt position).buffers.size ≤ buffer then throw (.foreignBuffer position buffer)

/-- Binds a live resource to links that there have to be. -/
def bind (id : ResourceId) (positions : List Nat) : GuardedM Unit := do
  let _ ← plainly (Registry.find id)
  positions.forM demandLink
  plainly (Registry.bind id positions)

/-- Enters a new resource and binds it. -/
def spawn (type : String) (storage : Storage) (options : Options) (positions : List Nat) :
    GuardedM ResourceId := do
  let (id, r) := (← get).insert type storage options
  set r
  bind id positions
  return id

/-- Creates an opaque resource. -/
def createOpaque (thread : Thread) (type : String) (payload : Payload) (options : Options) :
    GuardedM ResourceId := do
  let r ← get
  match r.linkTo? thread with
  | none => throw (.failure (.invalidThread thread))
  | some position =>
    if !r.loaderTypes.contains type then throw (.failure (.unregisteredType type))
    match r.cached? type options.cacheKey? with
    | some id => return id
    | none => spawn type (.payload payload) options [position]

/-- Interns a text. -/
def createString (text : String) : GuardedM ResourceId := do
  if text.isEmpty then return 0
  let r ← get
  let key : CacheKey := .text text
  match r.cached? stringType (some key) with
  | some id => return id
  | none => spawn stringType (.payload (.text text)) { cacheKey? := some key } r.allLinks

/-- Creates a resource for a raw buffer. -/
def createBuffer (buffer : RawBuffer) : GuardedM ResourceId := do
  spawn arrayBufferType (.payload (.buffer buffer)) {} (← get).allLinks

/-- Removes a live resource. Each link that it was sent over has to be there. -/
def remove (resource : Resource) : GuardedM Unit := do
  resource.bindings.forM fun b => demandLink b.link
  modify (·.remove resource)

/-- Works off a worklist in at most `n` rounds. What is released is read within bounds. -/
def cascade : Nat → List ResourceId → GuardedM Unit
  | 0, _ => pure ()
  | n + 1, worklist => do
    let r ← get
    match r.nextLive worklist with
    | [] => pure ()
    | id :: rest =>
      match r.resource? id with
      | none => pure ()
      | some resource =>
        remove resource
        let held ← inside resource.storage.heldRefs?
        let dropped := held.foldl Registry.dropHeld (← get, rest)
        set dropped.1
        cascade n dropped.2

/-- Removes a resource and everything that only it kept alive. -/
def destroy (id : ResourceId) : GuardedM Unit := do
  cascade (← get).size [id]

/-- Drops a reference on a resource and disposes of it once nothing holds it. -/
def dispose (id : ResourceId) : GuardedM Bool := do
  let resource ← plainly (Registry.find id)
  modify (·.modifyResource id Resource.released)
  if 0 < resource.released.refCount then return false
  destroy id
  return true

/-- Drops a reference that an instance held; the resource may be gone already. -/
def release (id : ResourceId) : GuardedM Unit := fun r =>
  match (dispose id).run r with
  | .ok _ after => .ok () after
  | .error (.failure _) after => .ok () after
  | .error fault after => .error fault after

/-- Changes the bytes of a property of a live instance, within bounds. -/
def updateSlice (id : ResourceId) (prop : Property) (f : Bytes → Option Bytes) :
    GuardedM Unit := do
  let (_, bytes) ← plainly (Registry.fieldsOf id)
  let part ← inside (prop.slice? bytes)
  let part ← inside (f part)
  modify (·.storeBytes id prop part)

/-- Stores references in a property that owns them. -/
def replaceRefs (id : ResourceId) (prop : Property) (targets : List ResourceId) :
    GuardedM Unit := do
  let (_, bytes) ← plainly (Registry.fieldsOf id)
  let part ← inside (prop.slice? bytes)
  let previous ← inside (prop.words? part)
  plainly ((targets.filter (· != 0)).forM fun target => discard (Registry.retain target))
  updateSlice id prop (·.setWords? (Registry.padded prop.count targets))
  (previous.filter (· != 0)).forM release

/-- Stores a raw buffer. -/
def writeBuffer (id : ResourceId) (prop : Property) (buffer : RawBuffer) : GuardedM Unit := do
  let (_, bytes) ← plainly (Registry.fieldsOf id)
  let part ← inside (prop.slice? bytes)
  let stored ← inside (part.word? 2)
  if stored != 0 then throw (.failure (.bufferAlreadySet id prop.name))
  let length := (← get).supply.pool.length buffer
  if Registry.maxBufferLength < length then throw (.failure (.bufferTooLarge id prop.name length))
  let target ← createBuffer buffer
  plainly (discard (Registry.retain target))
  updateSlice id prop
    (·.setWords? [UInt32.ofNat length, if buffer.isShared then 1 else 0, target])

/-- Encodes a plain value in place. -/
def writePlain (id : ResourceId) (prop : Property) (value : Value) : GuardedM Unit := do
  let (_, bytes) ← plainly (Registry.fieldsOf id)
  let part ← inside (prop.slice? bytes)
  let encoded ← inside (prop.encodePlain? value part)
  let part ← plainly (Registry.liftSchema encoded)
  modify (·.storeBytes id prop part)

/-- Writes a value to a property of a live instance. -/
def writeProp (id : ResourceId) (prop : Property) (value : Value) : GuardedM Unit := do
  plainly (Registry.liftSchema (prop.validate value))
  plainly (Registry.checkTargets prop value)
  match value with
  | .text s =>
    let target ← createString s
    replaceRefs id prop [target]
  | .buffer b => writeBuffer id prop b
  | .ref target =>
    if prop.backRef then updateSlice id prop (·.setWord? 0 (target.getD 0))
    else replaceRefs id prop [target.getD 0]
  | .refs slots => replaceRefs id prop (slots.map (·.getD 0))
  | plain => writePlain id prop plain

/-- Writes a property on behalf of the host. -/
def setProp (id : ResourceId) (name : String) (value : Value) : GuardedM Unit := do
  let prop ← plainly (Registry.propOf id name)
  if !prop.isMutable then throw (.failure (.immutableProp name))
  writeProp id prop value

/-- Writes a property on behalf of a script. -/
def setPropFromScript (id : ResourceId) (name : String) (value : Value) : GuardedM Unit := do
  let prop ← plainly (Registry.propOf id name)
  if !prop.script then throw (.failure (.notScriptWritable name))
  writeProp id prop value

/-- Encodes one plain value into the bytes of a new instance, within bounds. -/
def encodeSupplied (storage : Bytes) (given : Property × Value) : GuardedM Bytes := do
  let part ← inside (given.1.slice? storage)
  let encoded ← inside (given.1.encodePlain? given.2 part)
  let part ← plainly (Registry.liftSchema encoded)
  return given.1.splice storage part

/-- Checks the values of a new instance and encodes the plain ones, within bounds. -/
def draft (schema : Schema) (props : List (String × Value)) (options : Options) :
    GuardedM Registry.Draft := do
  plainly (Registry.registerSchema schema)
  let supplied ← plainly (props.mapM (Registry.checkSupplied schema))
  plainly (Registry.checkRequired schema supplied)
  match (← get).cached? schema.name options.cacheKey? with
  | some id => return .cached id
  | none =>
    let plain := supplied.filter fun s => s.1.kind.isPlain
    let blank ← inside schema.layout.defaultBytes?
    let bytes ← plain.foldlM encodeSupplied blank
    return .fresh bytes (Registry.deferred schema.layout supplied)

/-- Writes values one after another. -/
def writeEach (id : ResourceId) (values : List (Property × Value)) : GuardedM Unit :=
  values.forM fun given => writeProp id given.1 given.2

/-- Writes the values of a new instance; after a failure it is removed again. -/
def writeAll (id : ResourceId) (values : List (Property × Value)) : GuardedM Unit := fun r =>
  match (writeEach id values).run r with
  | .ok a after => .ok a after
  | .error (.failure e) after =>
    match (destroy id).run after with
    | .ok _ destroyed => .error (.failure e) destroyed
    | .error fault destroyed => .error fault destroyed
  | .error fault after => .error fault after

/-- Writes the values of a new instance, gives it its hook and sends it to every link. -/
def fillInstance (id : ResourceId) (values : List (Property × Value)) (options : Options) :
    GuardedM ResourceId := do
  writeAll id values
  modify (·.modifyResource id fun resource => { resource with hook? := options.hook? })
  bind id (← get).allLinks
  return id

/-- Creates an instance of a schema and sends it to every link. -/
def createInstance (schema : Schema) (props : List (String × Value)) (options : Options) :
    GuardedM ResourceId := do
  match ← draft schema props options with
  | .cached id => return id
  | .fresh bytes values =>
    let (id, r) := (← get).enterInstance schema bytes options
    set r
    fillInstance id values options

/-- Copies a snapshot into a buffer of a link. The link has to be there and to own the buffer. -/
def copyTo (position buffer : Nat) (bytes : Bytes) : GuardedM Nat := do
  demandLink position
  demandBuffer position buffer
  plainly (Registry.copyTo position buffer bytes)

/-- Writes the final bytes of a retired buffer once more. -/
def refreshRetired (b : RetiredBuffer) : GuardedM RetiredBuffer := do
  let slot ← copyTo b.link b.buffer b.bytes
  return { b with written := b.written.insert slot }

/-- Retires the buffers that were set aside since the last flush. -/
def retireDisposed : GuardedM Unit := do
  let waiting := (← get).disposed
  modify fun r => { r with disposed := #[] }
  waiting.toList.forM fun b => do
    let b ← refreshRetired b
    modify fun r => { r with retired := r.retired.push b }

/-- Takes answers in, retires buffers and sends every queued intent. -/
def flush : GuardedM Unit := do
  modify Registry.processAcks
  retireDisposed
  let (links, failure?) := Registry.flushLinks (← get).links
  modify fun r => { r with links }
  match failure? with
  | some e => throw (.failure e)
  | none => pure ()

/-- Copies the working bytes of one resource into its buffers on every link. -/
def commitResource (resource : Resource) : GuardedM Unit :=
  match resource.storage with
  | .payload _ => pure ()
  | .fields _ bytes =>
    resource.bindings.forM fun b =>
      match b.data? with
      | some buffer => discard (copyTo b.link buffer bytes)
      | none => pure ()

/-- Writes the retired buffers once more and lets go of those that are done. -/
def commitRetired : GuardedM Unit := do
  let written ← (← get).retired.toList.mapM refreshRetired
  modify fun r => { r with retired := (written.filter fun b => !b.written.isFull).toArray }

/-- Publishes the current bytes of every instance, one frame per link. -/
def commit : GuardedM Unit := do
  (← get).live.forM commitResource
  commitRetired
  modify fun r => { r with links := r.links.map Registry.publishLink }

end Guarded

namespace Broadcast

/-- Runs a guarded operation of the producer. Only a fault of its own is none of its answers. -/
def onGuarded {α : Type} (b : Broadcast) (g : GuardedM α) (answer : α → Answer) :
    Except Fault (Answer × Broadcast) :=
  match g.run b.registry with
  | .ok a registry => .ok (answer a, { b with registry })
  | .error (.failure e) registry => .ok (.failed e, { b with registry })
  | .error fault _ => .error fault

/-- Does one action with every access of the producer guarded. -/
def guardedStep (b : Broadcast) : Action → Except Fault (Answer × Broadcast)
  | .createOpaque thread type payload options =>
    b.onGuarded (Guarded.createOpaque thread type payload options) .created
  | .createInstance schema props options =>
    b.onGuarded (Guarded.createInstance schema props options) .created
  | .createString text => b.onGuarded (Guarded.createString text) .created
  | .createBuffer buffer => b.onGuarded (Guarded.createBuffer buffer) .created
  | .dispose id => b.onGuarded (Guarded.dispose id) .disposed
  | .setProp id name value => b.onGuarded (Guarded.setProp id name value) fun _ => .done
  | .setPropFromScript id name value =>
    b.onGuarded (Guarded.setPropFromScript id name value) fun _ => .done
  | .commit => b.onGuarded Guarded.commit fun _ => .done
  | .flush => b.onGuarded Guarded.flush fun _ => .done
  | action => .ok (b.step action)

end Broadcast

/-- A snapshot for a link that there is not runs into a guard. -/
example : (match (Guarded.copyTo 0 0 []).run (.create ⟨.game, 4⟩ ⟨0, .initial⟩) with
    | .error (.noLink position) _ => some position
    | _ => none) = some 0 := by rfl

end Framecast
