import Framecast.Word
import Framecast.Snapshot.Flags

/-!
# Three slots of one snapshot

A triple buffer keeps three runs of bytes of one length. Which of them is read
and which is written is not its own affair: the flag byte of its link says so.
-/

namespace Framecast.Snapshot

/-- Three equally long slots. -/
structure TripleBuffer where
  /-- Slot 0. -/
  first : Bytes
  /-- Slot 1. -/
  second : Bytes
  /-- Slot 2. -/
  third : Bytes
  deriving DecidableEq, Repr, Inhabited

namespace TripleBuffer

/-- A buffer with the same bytes in every slot, so that each role starts from one snapshot. -/
def ofContents (bytes : Bytes) : TripleBuffer := ⟨bytes, bytes, bytes⟩

/-- The length of each slot. -/
def length (b : TripleBuffer) : Nat := b.first.length

/-- The bytes of slot `i`; there are no slots past 2. -/
def slot (b : TripleBuffer) : Nat → Bytes
  | 0 => b.first
  | 1 => b.second
  | 2 => b.third
  | _ => []

/-- The buffer with slot `i` overwritten. -/
def setSlot (b : TripleBuffer) (i : Nat) (bytes : Bytes) : TripleBuffer :=
  match i with
  | 0 => { b with first := bytes }
  | 1 => { b with second := bytes }
  | 2 => { b with third := bytes }
  | _ => b

/-- Every slot of a new buffer holds its contents. -/
theorem slot_ofContents (bytes : Bytes) {i : Nat} (h : i < 3) :
    (ofContents bytes).slot i = bytes := by
  match i, h with
  | 0, _ => rfl
  | 1, _ => rfl
  | 2, _ => rfl

/-- An overwritten slot holds what was written. -/
theorem slot_setSlot_self (b : TripleBuffer) (bytes : Bytes) {i : Nat} (h : i < 3) :
    (b.setSlot i bytes).slot i = bytes := by
  match i, h with
  | 0, _ => rfl
  | 1, _ => rfl
  | 2, _ => rfl

/-- Overwriting one slot leaves the others alone. -/
theorem slot_setSlot_of_ne (b : TripleBuffer) (bytes : Bytes) {i j : Nat} (h : i ≠ j) :
    (b.setSlot i bytes).slot j = b.slot j := by
  match i, j, h with
  | 0, 0, h | 1, 1, h | 2, 2, h => exact absurd rfl h
  | 0, 1, _ | 0, 2, _ | 1, 0, _ | 1, 2, _ | 2, 0, _ | 2, 1, _ => rfl
  | 0, _ + 3, _ | 1, _ + 3, _ | 2, _ + 3, _ => rfl
  | _ + 3, _, _ => rfl

end TripleBuffer

end Framecast.Snapshot
