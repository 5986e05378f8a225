import Framecast.Ring.RecordRing

/-!
# The tick gate

A record stamped with a tick must not take effect before its consumer reaches
that tick. The gate parks records that arrive early, in order, and releases a
record once its tick is reached and nothing older is still parked: as soon as
one record waits, all later ones wait behind it, even if their own tick is past.
-/

namespace Framecast

/-- The records that have arrived and still wait for their tick, oldest first. -/
structure TickGate where
  /-- The waiting records. -/
  parked : List Record
  deriving DecidableEq, Repr, Inhabited

namespace TickGate

/-- A gate before which nothing waits. -/
def empty : TickGate := ⟨[]⟩

/-- Whether a record may take effect at `tick`. -/
def due (tick : Tick) (record : Record) : Bool := record.tick ≤ tick

/-- Releases the parked records that are due, up to the first that is not. -/
def release (gate : TickGate) (tick : Tick) : List Record × TickGate :=
  (gate.parked.takeWhile (due tick), ⟨gate.parked.dropWhile (due tick)⟩)

/-- Lets arriving records through up to the first that is early, and parks the others. Behind a
record that waits already, all of them wait. -/
def receive (gate : TickGate) (tick : Tick) (arrived : List Record) : List Record × TickGate :=
  if gate.parked.isEmpty then
    (arrived.takeWhile (due tick), ⟨arrived.dropWhile (due tick)⟩)
  else ([], ⟨gate.parked ++ arrived⟩)

/-- What a drain gives. -/
structure Drained where
  /-- The released records, in the order in which they were pushed. -/
  due : List Record
  /-- The first words of ring cells that held no record. -/
  skipped : List UInt32
  /-- The gate afterwards. -/
  gate : TickGate
  /-- The ring afterwards, with nothing queued. -/
  ring : RecordRing

/-- Releases everything due at `tick`: parked records first, then what arrives from the ring. -/
def drain (gate : TickGate) (ring : RecordRing) (tick : Tick) : Drained :=
  let arrived := ring.popAll
  let (released, waiting) := gate.release tick
  let (through, waiting) := waiting.receive tick arrived.found
  ⟨released ++ through, arrived.skipped, waiting, arrived.ring⟩

end TickGate

end Framecast
