import Framecast.Resource
import Framecast.Ring.RecordRing
import Framecast.Snapshot.FrameLink

/-!
# The wire between a producer and a consumer

Everything that the two ends of a link share is on its wire: the snapshot
buffers with their flag byte, the ring of records, the envelopes that travel
ahead of creation records, and the answers that travel back. The producer's end
delivers; the consumer's end picks up.
-/

namespace Framecast

/-- What an envelope carries. -/
inductive Cargo where
  /-- Something to load. -/
  | payload (p : Payload)
  /-- The schema of an instance and the number of the buffer of its bytes. -/
  | fields (schema : Schema) (buffer : Nat)
  deriving DecidableEq, Repr, Inhabited

/-- What a consumer needs to know of a resource before its creation record arrives. -/
structure Envelope where
  /-- The type tag. -/
  type : String
  /-- The resource. -/
  id : ResourceId
  /-- Its name. -/
  name : String
  /-- What it consists of. -/
  cargo : Cargo
  /-- The number of its status buffer. -/
  status : Nat
  deriving DecidableEq, Repr, Inhabited

/-- A consumer's answer to a creation: nothing, or why it could not load the resource. -/
structure Ack where
  /-- The consumer's thread. -/
  thread : Thread
  /-- The resource. -/
  id : ResourceId
  /-- Why loading failed, if it did. -/
  failure? : Option String
  deriving DecidableEq, Repr, Inhabited

/-- The bit of a status byte that marks a resource as disposed of. -/
def disposedBit : UInt8 := 0x01

/-- What the two ends of a link share. -/
structure Wire where
  /-- The snapshot buffers. -/
  frames : Snapshot.FrameLink
  /-- The ring of records. -/
  ring : RecordRing
  /-- The envelopes that were sent and not yet received, oldest first. -/
  envelopes : Array Envelope
  /-- The answers that were sent and not yet processed, oldest first. -/
  acks : Array Ack
  /-- Whether the consumer is still there to receive envelopes. -/
  receiving : Bool

/-- What is put on a wire in one step. -/
inductive Delivery where
  /-- An envelope, ahead of its record. -/
  | envelope (e : Envelope)
  /-- A record. -/
  | record (r : Record)
  deriving DecidableEq, Repr

namespace Wire

/-- A wire with an empty ring. -/
def create (ringCapacity : Nat) : Except TransportError Wire :=
  (RecordRing.create ringCapacity).map fun ring => ⟨.initial, ring, #[], #[], true⟩

/-- Puts one thing on the wire that leads to `thread`. An envelope needs a consumer, and a record
needs room in the ring. -/
def deliver (wire : Wire) (thread : Thread) : Delivery → Except ResourceError Wire
  | .envelope e =>
    if wire.receiving then .ok { wire with envelopes := wire.envelopes.push e }
    else .error (.disconnected thread)
  | .record r =>
    match wire.ring.push r with
    | .ok ring => .ok { wire with ring }
    | .error cause => .error (.transport cause)

/-- Puts things on the wire in order, up to the first that fails. -/
def deliverAll (wire : Wire) (thread : Thread) : List Delivery → Wire × Option ResourceError
  | [] => (wire, none)
  | d :: rest =>
    match wire.deliver thread d with
    | .ok after => after.deliverAll thread rest
    | .error e => (wire, some e)

/-- Whether a status buffer, as the consumer reads it, marks its resource as disposed of. -/
def readsDisposed (wire : Wire) (status : Nat) : Bool :=
  (wire.frames.read status).head?.any fun b => b &&& disposedBit != 0

/-- The wire without its consumer: envelopes under way are lost, answers are not. -/
def hangUp (wire : Wire) : Wire := { wire with envelopes := #[], receiving := false }

end Wire

end Framecast
