import Framecast.Replica.Loader
import Framecast.Ring.TickGate
import Framecast.View

/-!
# Replicas

A consumer follows the producer at the far end of a link. It knows the envelopes
that have reached it, parks records until their tick, and holds the resources
whose creation has taken effect. What it reads of their bytes is the frame it
picked up last.
-/

namespace Framecast

/-- A resource whose creation has taken effect on a consumer. -/
structure LocalResource where
  /-- Its number. -/
  id : ResourceId
  /-- Its type tag. -/
  type : String
  /-- Its name. -/
  name : String
  /-- What it consists of. -/
  cargo : Cargo
  /-- The number of its status buffer. -/
  status : Nat
  /-- What a loader made of it. -/
  made? : Option Product
  /-- Why it could not be loaded. -/
  error? : Option String
  deriving DecidableEq, Repr, Inhabited

namespace LocalResource

/-- The resource that an envelope announces, not loaded yet. -/
def ofEnvelope (e : Envelope) : LocalResource :=
  ⟨e.id, e.type, e.name, e.cargo, e.status, none, none⟩

/-- The schema of an instance. -/
def schema? (r : LocalResource) : Option Schema :=
  match r.cargo with
  | .fields schema _ => some schema
  | .payload _ => none

/-- The payload of any other resource. -/
def payload? (r : LocalResource) : Option Payload :=
  match r.cargo with
  | .fields _ _ => none
  | .payload p => some p

/-- Whether the resource is of use without a loader: an instance, a text or a raw buffer. -/
def isBuiltIn (r : LocalResource) : Bool :=
  r.schema?.isSome || r.type == stringType || r.type == arrayBufferType

end LocalResource

/-- Where a resource stands on a consumer. -/
inductive LoadStatus where
  /-- Its envelope has arrived and its creation has not taken effect. -/
  | pending
  /-- It is loaded. -/
  | loaded
  /-- It could not be loaded. -/
  | failed (reason : String)
  /-- The producer has disposed of it, and the disposal has not taken effect here. -/
  | disposed
  deriving DecidableEq, Repr, Inhabited

/-- The consumer's end of a link. -/
structure Replica where
  /-- The thread it runs on. -/
  thread : Thread
  /-- The records that wait for their tick. -/
  gate : TickGate
  /-- The loader of each type. -/
  loaders : Std.TreeMap String Loader
  /-- The envelopes whose creation has not taken effect. -/
  pending : Std.TreeMap ResourceId Envelope
  /-- The resources whose creation has taken effect. -/
  resources : Std.TreeMap ResourceId LocalResource
  /-- What the host is to be told, oldest first. -/
  journal : Array Notice

/-- A consumer with the wire it is on. -/
structure Connection where
  /-- The consumer. -/
  replica : Replica
  /-- What it shares with its producer. -/
  wire : Wire

/-- An operation of a consumer. A failure keeps what was changed before it. -/
abbrev ConnectionM := EStateM ResourceError Connection

namespace Replica

/-- A replica that has seen nothing yet. -/
def create (thread : Thread) : Replica :=
  { thread, gate := .empty, loaders := ∅, pending := ∅, resources := ∅, journal := #[] }

/-- Installs the loader of a type, in place of an earlier one. -/
def registerLoader (r : Replica) (type : String) (loader : Loader) : Replica :=
  { r with loaders := r.loaders.insert type loader }

/-- The resource of a number, once its creation has taken effect. -/
def resource? (r : Replica) (id : ResourceId) : Option LocalResource := r.resources[id]?

/-- The resources of a type, by ascending number. -/
def idsOfType (r : Replica) (type : String) : List ResourceId :=
  (r.resources.values.filter (·.type == type)).map LocalResource.id

/-- The number of resources whose creation has taken effect. -/
def size (r : Replica) : Nat := r.resources.size

/-- Tells the host something. -/
def note (r : Replica) (notice : Notice) : Replica := { r with journal := r.journal.push notice }

/-- The number that a loader made of a resource. -/
def number? (r : Replica) (id : ResourceId) : Option Nat :=
  (r.resource? id).bind fun res => res.made?.bind Product.number?

/-- Adds one to the number that a loader made of a resource, and gives the new number. -/
def bump (r : Replica) (id : ResourceId) : Option (Nat × Replica) :=
  (r.resource? id).bind fun res =>
    (res.made?.bind Product.number?).map fun n =>
      (n + 1, { r with
        resources := r.resources.insert id { res with made? := some (.number (n + 1)) } })

end Replica

namespace Connection

/-- Changes the replica. -/
def mapReplica (c : Connection) (f : Replica → Replica) : Connection :=
  { c with replica := f c.replica }

/-- The bytes of an instance, in the frame picked up last. -/
def bytesOf? (c : Connection) (resource : LocalResource) : Option Bytes :=
  match resource.cargo with
  | .fields _ buffer => some (c.wire.frames.read buffer)
  | .payload _ => none

/-- Where a resource stands, if it has arrived at all. -/
def loadStatus? (c : Connection) (id : ResourceId) : Option LoadStatus :=
  if c.replica.pending.contains id then some .pending
  else
    (c.replica.resource? id).map fun res =>
      if c.wire.readsDisposed res.status then .disposed
      else
        match res.error? with
        | some reason => .failed reason
        | none => .loaded

/-- Whether the producer has disposed of a resource, as far as the frame picked up last tells. An
unknown number counts as disposed of. -/
def isDisposed (c : Connection) (id : ResourceId) : Bool :=
  match c.replica.resource? id, c.replica.pending[id]? with
  | some res, _ => c.wire.readsDisposed res.status
  | none, some e => c.wire.readsDisposed e.status
  | none, none => true

/-- What the consumer sees. The type of a resource that could not be loaded is withheld. -/
def view (c : Connection) : View where
  type? id := (c.replica.resource? id).bind fun res =>
    if res.error?.isNone then some res.type else none
  bytes? id := (c.replica.resource? id).bind c.bytesOf?
  payload? id := (c.replica.resource? id).bind LocalResource.payload?

end Connection

end Framecast
