import Std.Data.TreeMap
import Framecast.TransportError
import Framecast.Ring.Record

/-!
# The record ring

A ring carries encoded records from one producer to one consumer. Two counters
of 32 bits say how many records were ever pushed and popped; they wrap around,
and their difference is the number of records queued. The capacity is a power of
two, so that the cells under the counters stay in step when a counter wraps.
-/

namespace Framecast

/-- A ring of record cells between a push counter and a pop counter. -/
structure RecordRing where
  /-- The number of cells, a power of two. -/
  capacity : UInt32
  /-- How many records were pushed, modulo `2 ^ 32`. -/
  head : UInt32
  /-- How many records were popped, modulo `2 ^ 32`. -/
  tail : UInt32
  /-- The bytes of the cells that were ever written, by cell number. -/
  cells : Std.TreeMap UInt32 Bytes

namespace RecordRing

/-- The largest capacity a ring can have. -/
def maxCapacity : Nat := 1 <<< 31

/-- The least power of two that is not below `n`. -/
def roundedCapacity (n : Nat) : Nat := if n ≤ 1 then 1 else 1 <<< ((n - 1).log2 + 1)

/-- An empty ring for at least `requested` records. -/
def create (requested : Nat) : Except TransportError RecordRing :=
  if requested = 0 || maxCapacity < requested then .error (.invalidCapacity requested 1)
  else .ok ⟨UInt32.ofNat (roundedCapacity requested), 0, 0, ∅⟩

/-- The number of records queued. -/
def length (ring : RecordRing) : Nat := (ring.head - ring.tail).toNat

/-- Whether no record is queued. -/
def isEmpty (ring : RecordRing) : Bool := ring.length == 0

/-- How many more records the ring can take. -/
def free (ring : RecordRing) : Nat := ring.capacity.toNat - ring.length

/-- The bytes of the cell under counter value `position`; a fresh cell is zeroed. -/
def cell (ring : RecordRing) (position : UInt32) : Bytes :=
  ring.cells[position % ring.capacity]?.getD (Bytes.zeros Record.size)

/-- Appends a record, unless the ring is full. -/
def push (ring : RecordRing) (record : Record) : Except TransportError RecordRing :=
  if ring.capacity ≤ ring.head - ring.tail then .error (.ringFull ring.capacity.toNat)
  else .ok { ring with
    cells := ring.cells.insert (ring.head % ring.capacity) record.encode
    head := ring.head + 1 }

/-- What taking records off a ring gives. -/
structure Popped (α : Type) where
  /-- What was found. -/
  found : α
  /-- The first words of the cells that held no record and were passed over. -/
  skipped : List UInt32
  /-- The ring afterwards. -/
  ring : RecordRing

/-- Takes the oldest record off the ring, passing over at most `n` cells. -/
def popWithin : Nat → RecordRing → Popped (Option Record)
  | 0, ring => ⟨none, [], ring⟩
  | n + 1, ring =>
    if ring.tail = ring.head then ⟨none, [], ring⟩
    else
      let after := { ring with tail := ring.tail + 1 }
      match Record.decode (ring.cell ring.tail) with
      | .ok record => ⟨some record, [], after⟩
      | .error raw =>
        let later := popWithin n after
        { later with skipped := raw :: later.skipped }

/-- Takes the oldest record off the ring. -/
def pop (ring : RecordRing) : Popped (Option Record) := popWithin ring.length ring

/-- Takes at most `n` records off the ring, oldest first. -/
def popAllWithin : Nat → RecordRing → Popped (List Record)
  | 0, ring => ⟨[], [], ring⟩
  | n + 1, ring =>
    let one := ring.pop
    match one.found with
    | none => ⟨[], one.skipped, one.ring⟩
    | some record =>
      let rest := popAllWithin n one.ring
      ⟨record :: rest.found, one.skipped ++ rest.skipped, rest.ring⟩

/-- Takes every record off the ring, oldest first. -/
def popAll (ring : RecordRing) : Popped (List Record) := popAllWithin ring.length ring

end RecordRing

end Framecast
