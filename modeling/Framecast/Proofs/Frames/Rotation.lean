import Mathlib.Data.Fintype.Basic
import Framecast.Snapshot.FrameLink

/-!
# How the slots of a link rotate

The three roles of a link belong to three different slots at all times. A
publication hands the write slot over to be picked up next, and a pickup hands it
on to the reader, so what is written reaches the reader in two steps, and the
reader's slot comes back to the writer in two.
-/

namespace Framecast.Snapshot

namespace Flags

/-- Every byte publishes and picks up by exchanging two roles. -/
theorem swaps_ofFin : ∀ n : Fin 256,
    let f : Flags := ⟨UInt8.ofFin n⟩
    (f.swapWriteTemp.readSlot = f.readSlot ∧ f.swapWriteTemp.tempSlot = f.writeSlot ∧
        f.swapWriteTemp.writeSlot = f.tempSlot ∧ f.swapWriteTemp.changed = true) ∧
      f.swapReadTemp.readSlot = f.tempSlot ∧ f.swapReadTemp.tempSlot = f.readSlot ∧
        f.swapReadTemp.writeSlot = f.writeSlot ∧ f.swapReadTemp.changed = false := by
  decide +kernel

@[simp] theorem readSlot_publish (f : Flags) : f.publish.readSlot = f.readSlot :=
  (swaps_ofFin f.byte.toFin).1.1

@[simp] theorem tempSlot_publish (f : Flags) : f.publish.tempSlot = f.writeSlot :=
  (swaps_ofFin f.byte.toFin).1.2.1

@[simp] theorem writeSlot_publish (f : Flags) : f.publish.writeSlot = f.tempSlot :=
  (swaps_ofFin f.byte.toFin).1.2.2.1

@[simp] theorem changed_publish (f : Flags) : f.publish.changed = true :=
  (swaps_ofFin f.byte.toFin).1.2.2.2

/-- A pickup takes over the parked slot, if something was published. -/
theorem readSlot_pickUp (f : Flags) :
    f.pickUp.2.readSlot = if f.changed then f.tempSlot else f.readSlot := by
  unfold pickUp
  split
  · exact (swaps_ofFin f.byte.toFin).2.1
  · rfl

/-- A pickup parks the reader's slot, if something was published. -/
theorem tempSlot_pickUp (f : Flags) :
    f.pickUp.2.tempSlot = if f.changed then f.readSlot else f.tempSlot := by
  unfold pickUp
  split
  · exact (swaps_ofFin f.byte.toFin).2.2.1
  · rfl

/-- A pickup leaves the writer its slot. -/
@[simp] theorem writeSlot_pickUp (f : Flags) : f.pickUp.2.writeSlot = f.writeSlot := by
  unfold pickUp
  split
  · exact (swaps_ofFin f.byte.toFin).2.2.2.1
  · rfl

/-- After a pickup there is nothing to pick up. -/
@[simp] theorem changed_pickUp (f : Flags) : f.pickUp.2.changed = false := by
  unfold pickUp
  split
  · exact (swaps_ofFin f.byte.toFin).2.2.2.2
  · rename_i h
    simpa using h

/-- The three roles belong to three different slots. -/
structure IsRotation (f : Flags) : Prop where
  /-- The reader owns one of three slots. -/
  read : f.readSlot < 3
  /-- One of three slots is parked. -/
  temp : f.tempSlot < 3
  /-- The writer owns one of three slots. -/
  write : f.writeSlot < 3
  /-- The parked slot is not the reader's. -/
  temp_ne_read : f.tempSlot ≠ f.readSlot
  /-- The writer's slot is not the reader's. -/
  write_ne_read : f.writeSlot ≠ f.readSlot
  /-- The writer's slot is not the parked one. -/
  write_ne_temp : f.writeSlot ≠ f.tempSlot

theorem isRotation_initial : initial.IsRotation := by
  constructor <;> decide

/-- A publication keeps the roles apart. -/
theorem IsRotation.publish {f : Flags} (h : f.IsRotation) : f.publish.IsRotation := by
  constructor
  · simpa using h.read
  · simpa using h.write
  · simpa using h.temp
  · simpa using h.write_ne_read
  · simpa using h.temp_ne_read
  · simpa using h.write_ne_temp.symm

/-- A pickup keeps the roles apart. -/
theorem IsRotation.pickUp {f : Flags} (h : f.IsRotation) : f.pickUp.2.IsRotation := by
  constructor <;> simp only [readSlot_pickUp, tempSlot_pickUp, writeSlot_pickUp]
  · split
    · exact h.temp
    · exact h.read
  · split
    · exact h.read
    · exact h.temp
  · exact h.write
  · split
    · exact h.temp_ne_read.symm
    · exact h.temp_ne_read
  · split
    · exact h.write_ne_temp
    · exact h.write_ne_read
  · split
    · exact h.write_ne_read
    · exact h.write_ne_temp

end Flags

namespace FrameLink

variable {link : FrameLink} {bytes : Bytes} {i j s : Nat}

/-- What slot `s` of buffer `i` holds. -/
def slot (link : FrameLink) (i s : Nat) : Bytes := (link.buffers[i]?.map (·.slot s)).getD []

/-- The length of the slots of buffer `i`. -/
def length (link : FrameLink) (i : Nat) : Nat := (link.buffers[i]?.map TripleBuffer.length).getD 0

theorem read_eq_slot (link : FrameLink) (i : Nat) : link.read i = link.slot i link.flags.readSlot :=
  rfl

/-- A new buffer holds its contents in each of its slots, and the others are as before. -/
theorem slot_allocate (link : FrameLink) (bytes : Bytes) (i : Nat) (hs : s < 3) :
    (link.allocate bytes).2.slot i s = if i = link.buffers.size then bytes else link.slot i s := by
  unfold allocate slot
  rw [Array.getElem?_push]
  split
  · exact TripleBuffer.slot_ofContents bytes hs
  · rfl

/-- Slots of a new buffer are as long as its contents. -/
theorem length_allocate (link : FrameLink) (bytes : Bytes) (i : Nat) :
    (link.allocate bytes).2.length i =
      if i = link.buffers.size then bytes.length else link.length i := by
  unfold allocate length
  rw [Array.getElem?_push]
  split <;> rfl

/-- Copying overwrites the write slot of one buffer. -/
theorem slot_put (link : FrameLink) (i : Nat) (bytes : Bytes) (j s : Nat)
    (hw : link.flags.writeSlot < 3) :
    (link.put i bytes).slot j s =
      if j = i ∧ s = link.flags.writeSlot ∧ i < link.buffers.size then bytes
      else link.slot j s := by
  unfold put slot
  rw [Array.getElem?_modify]
  by_cases hj : i = j
  · subst hj
    by_cases hi : i < link.buffers.size
    · rw [Array.getElem?_eq_getElem hi]
      by_cases hs : s = link.flags.writeSlot
      · subst hs
        simp [hi, TripleBuffer.slot_setSlot_self _ bytes hw]
      · simp [hs, TripleBuffer.slot_setSlot_of_ne _ bytes (Ne.symm hs)]
    · simp [hi]
  · simp [hj, Ne.symm hj]

/-- Copying a snapshot of the right length leaves all lengths as they are. -/
theorem length_put (h : bytes.length = link.length i) (j : Nat) :
    (link.put i bytes).length j = link.length j := by
  unfold put length at *
  rw [Array.getElem?_modify]
  by_cases hj : i = j
  · subst hj
    cases hb : link.buffers[i]? with
    | none => simp
    | some b =>
      rw [hb] at h
      simp only [if_true, Option.map_some, Option.getD_some] at h ⊢
      unfold TripleBuffer.setSlot
      split <;> first | rfl | exact h
  · simp [hj]

/-- A link that may have got more buffers and differs in nothing else. -/
structure Extends (link link' : FrameLink) : Prop where
  /-- The roles of the slots are the same. -/
  flags : link'.flags = link.flags
  /-- No buffer is gone. -/
  size : link.buffers.size ≤ link'.buffers.size
  /-- The buffers that there were hold what they held. -/
  kept : ∀ i < link.buffers.size, link'.buffers[i]? = link.buffers[i]?

namespace Extends

variable {link' link'' : FrameLink}

protected theorem refl (link : FrameLink) : link.Extends link :=
  ⟨rfl, Nat.le_refl _, fun _ _ => rfl⟩

protected theorem trans (h : link.Extends link') (h' : link'.Extends link'') :
    link.Extends link'' :=
  ⟨h'.flags.trans h.flags, h.size.trans h'.size,
    fun i hi => (h'.kept i (Nat.lt_of_lt_of_le hi h.size)).trans (h.kept i hi)⟩

theorem slot (h : link.Extends link') (hi : i < link.buffers.size) (s : Nat) :
    link'.slot i s = link.slot i s := by
  unfold FrameLink.slot
  rw [h.kept i hi]

theorem length (h : link.Extends link') (hi : i < link.buffers.size) :
    link'.length i = link.length i := by
  unfold FrameLink.length
  rw [h.kept i hi]

/-- An allocation adds a buffer. -/
protected theorem allocate (link : FrameLink) (bytes : Bytes) :
    link.Extends (link.allocate bytes).2 := by
  unfold FrameLink.allocate
  refine ⟨rfl, by simp, fun i hi => ?_⟩
  rw [Array.getElem?_push, if_neg (Nat.ne_of_lt hi)]

end Extends

/-- A link in which the three roles belong to three different slots. -/
def IsRotation (link : FrameLink) : Prop := link.flags.IsRotation

end FrameLink

end Framecast.Snapshot
