import Mathlib.Data.Nat.ModEq
import Mathlib.Tactic.SplitIfs
import Framecast.Ring.TickGate

/-!
# The ring is a queue

A ring holds a list of records, oldest first: its counters are as far apart as the
list is long, and the cells between them spell its records. The counters wrap
around, but the capacity is a power of two, so cells stay in step with them, and
since no more records are held than there are cells, no cell is used twice.
Pushing appends to the list, and popping gives the list back.

Through a tick gate the records of a queue keep their order, and what a drain
releases is the longest run of due records at the front of all that wait.
-/

namespace Framecast

namespace RecordRing

/-- The ring holds some records, oldest first. -/
structure Holds (ring : RecordRing) (queue : List Record) : Prop where
  /-- The capacity is a power of two that a counter can hold. -/
  capacity : ∃ k < 32, ring.capacity.toNat = 2 ^ k
  /-- No more records are held than there are cells. -/
  fits : queue.length ≤ ring.capacity.toNat
  /-- The counters are as far apart as there are records. -/
  counters : ring.head = ring.tail + UInt32.ofNat queue.length
  /-- The cells between the counters spell the records. -/
  cells : ∀ i record, queue[i]? = some record →
    ring.cell (ring.tail + UInt32.ofNat i) = record.encode

variable {ring : RecordRing} {queue : List Record}

/-- A capacity that is a power of two divides the range of a counter. -/
theorem Holds.mod_capacity (h : ring.Holds queue) (n : Nat) :
    n % 2 ^ 32 % ring.capacity.toNat = n % ring.capacity.toNat := by
  obtain ⟨k, hk, hcap⟩ := h.capacity
  rw [hcap]
  exact Nat.mod_mod_of_dvd n (Nat.pow_dvd_pow 2 (by omega))

/-- The capacity is not zero and a counter can hold it. -/
theorem Holds.capacity_pos (h : ring.Holds queue) :
    0 < ring.capacity.toNat ∧ ring.capacity.toNat ≤ 2 ^ 31 := by
  obtain ⟨k, hk, hcap⟩ := h.capacity
  rw [hcap]
  exact ⟨Nat.two_pow_pos k, Nat.pow_le_pow_right (by omega) (by omega)⟩

/-- The length of a ring is the number of records it holds. -/
theorem Holds.length (h : ring.Holds queue) : ring.length = queue.length := by
  have hfits := h.fits
  have hcap := h.capacity_pos
  unfold RecordRing.length
  rw [h.counters, UInt32.toNat_sub, UInt32.toNat_add, UInt32.toNat_ofNat']
  have := ring.tail.toNat_lt
  omega

/-- A ring has room for as many more records as its capacity exceeds what it holds. -/
theorem Holds.free (h : ring.Holds queue) :
    ring.free = ring.capacity.toNat - queue.length := by
  unfold RecordRing.free
  rw [h.length]

/-- Positions that are less than the capacity apart lie in different cells. -/
theorem Holds.cell_ne (h : ring.Holds queue) (position : UInt32) {i j : Nat} (hij : i < j)
    (hj : j < ring.capacity.toNat) :
    (position + UInt32.ofNat i) % ring.capacity ≠ (position + UInt32.ofNat j) % ring.capacity := by
  intro heq
  have hcap := h.capacity_pos
  have heq := congrArg UInt32.toNat heq
  rw [UInt32.toNat_mod, UInt32.toNat_mod, UInt32.toNat_add, UInt32.toNat_add,
    UInt32.toNat_ofNat', UInt32.toNat_ofNat', Nat.mod_eq_of_lt (by omega : i < 2 ^ 32),
    Nat.mod_eq_of_lt (by omega : j < 2 ^ 32), h.mod_capacity, h.mod_capacity] at heq
  have hmod : i ≡ j [MOD ring.capacity.toNat] := Nat.ModEq.add_left_cancel' _ heq
  have := Nat.mod_eq_of_lt (by omega : i < ring.capacity.toNat)
  have := Nat.mod_eq_of_lt hj
  unfold Nat.ModEq at hmod
  omega

/-- A new ring holds nothing. -/
theorem holds_create {requested : Nat} (h : create requested = .ok ring) : ring.Holds [] := by
  unfold create at h
  split at h
  · cases h
  rename_i hrequested
  cases h
  rw [Bool.or_eq_true, decide_eq_true_eq, decide_eq_true_eq, not_or] at hrequested
  have hmax : requested ≤ 2 ^ 31 := Nat.le_of_not_lt hrequested.2
  refine ⟨?_, Nat.zero_le _, rfl, by simp⟩
  unfold roundedCapacity
  split
  · exact ⟨0, by omega, rfl⟩
  · rename_i hone
    have hlog : (requested - 1).log2 < 31 := by
      rw [Nat.log2_lt (by omega)]
      omega
    refine ⟨(requested - 1).log2 + 1, by omega, ?_⟩
    rw [UInt32.toNat_ofNat', Nat.one_shiftLeft]
    apply Nat.mod_eq_of_lt
    exact Nat.pow_lt_pow_right (by omega) (by omega)

/-- A record is pushed behind the others, if there is room. -/
theorem Holds.push (h : ring.Holds queue) (hroom : queue.length < ring.capacity.toNat)
    (record : Record) :
    ∃ after, ring.push record = .ok after ∧ after.Holds (queue ++ [record]) ∧
      after.capacity = ring.capacity := by
  have hcap := h.capacity_pos
  have hlength := h.length
  unfold RecordRing.length at hlength
  have hnotfull : ¬ring.capacity ≤ ring.head - ring.tail := by
    rw [UInt32.le_iff_toNat_le, hlength]
    omega
  refine ⟨_, if_neg hnotfull, ⟨h.capacity, ?_, ?_, ?_⟩, rfl⟩
  · rw [List.length_append, List.length_singleton]
    exact hroom
  · show ring.head + 1 = _
    rw [h.counters, List.length_append, List.length_singleton, UInt32.ofNat_add, UInt32.add_assoc]
    rfl
  · intro i r hr
    show (Std.TreeMap.insert _ _ _)[_]?.getD _ = _
    rw [Std.TreeMap.getElem?_insert]
    simp only [Std.LawfulEqOrd.compare_eq_iff_eq]
    rw [h.counters]
    rcases Nat.lt_trichotomy i queue.length with hlt | heq | hgt
    · rw [List.getElem?_append_left hlt] at hr
      rw [if_neg (Ne.symm (h.cell_ne ring.tail hlt hroom))]
      exact h.cells i r hr
    · subst heq
      rw [List.getElem?_append_right (Nat.le_refl _)] at hr
      simp only [Nat.sub_self, List.getElem?_cons_zero, Option.some.injEq] at hr
      rw [if_pos rfl, hr]
      rfl
    · rw [List.getElem?_eq_none (by simp; omega)] at hr
      cases hr

/-- The oldest record is popped. -/
theorem Holds.pop {record : Record} (h : ring.Holds (record :: queue)) :
    ∃ after, ring.pop = ⟨some record, [], after⟩ ∧ after.Holds queue := by
  have hcap := h.capacity_pos
  have hfits := h.fits
  rw [List.length_cons] at hfits
  have hcell := h.cells 0 record rfl
  rw [show UInt32.ofNat 0 = 0 from rfl, UInt32.add_zero] at hcell
  have hne : ¬ring.tail = ring.head := by
    intro heq
    have hlength := h.length
    unfold RecordRing.length at hlength
    rw [heq, UInt32.sub_self, List.length_cons] at hlength
    simp at hlength
  refine ⟨{ ring with tail := ring.tail + 1 }, ?_, ⟨h.capacity, by simp; omega, ?_, ?_⟩⟩
  · unfold RecordRing.pop
    rw [h.length, List.length_cons]
    unfold popWithin
    rw [if_neg hne, hcell, Record.decode_encode]
  · show ring.head = ring.tail + 1 + _
    rw [h.counters, List.length_cons, UInt32.ofNat_add, UInt32.add_assoc]
    rw [UInt32.add_comm (UInt32.ofNat queue.length)]
    rfl
  · intro i r hr
    have hcell := h.cells (i + 1) r hr
    rw [UInt32.ofNat_add, UInt32.add_comm (UInt32.ofNat i), ← UInt32.add_assoc] at hcell
    exact hcell

/-- Popping from an empty ring gives nothing. -/
theorem Holds.popAllWithin (h : ring.Holds queue) :
    ∃ after, ring.popAllWithin queue.length = ⟨queue, [], after⟩ ∧ after.Holds [] := by
  induction queue generalizing ring with
  | nil => exact ⟨ring, rfl, h⟩
  | cons record rest ih =>
    obtain ⟨one, hpop, hone⟩ := h.pop
    obtain ⟨after, hrest, hafter⟩ := ih hone
    refine ⟨after, ?_, hafter⟩
    rw [List.length_cons]
    unfold RecordRing.popAllWithin
    simp only [hpop, hrest, List.append_nil]

/-- All records are popped, oldest first, and no cell is passed over. -/
theorem Holds.popAll (h : ring.Holds queue) :
    ∃ after, ring.popAll = ⟨queue, [], after⟩ ∧ after.Holds [] := by
  unfold RecordRing.popAll
  rw [h.length]
  exact h.popAllWithin

/-- A ring keeps its capacity when a record is popped. -/
@[simp] theorem capacity_pop (ring : RecordRing) : ring.pop.ring.capacity = ring.capacity := by
  have hwithin (n : Nat) (ring : RecordRing) :
      (popWithin n ring).ring.capacity = ring.capacity := by
    induction n generalizing ring with
    | zero => rfl
    | succ n ih =>
      unfold popWithin
      split
      · rfl
      · dsimp only
        split
        · rfl
        · exact ih _
  exact hwithin _ ring

/-- A ring keeps its capacity when all records are popped. -/
@[simp] theorem capacity_popAll (ring : RecordRing) : ring.popAll.ring.capacity = ring.capacity := by
  have hwithin (n : Nat) (ring : RecordRing) :
      (RecordRing.popAllWithin n ring).ring.capacity = ring.capacity := by
    induction n generalizing ring with
    | zero => rfl
    | succ n ih =>
      unfold RecordRing.popAllWithin
      dsimp only
      split
      · exact ring.capacity_pop
      · exact (ih _).trans ring.capacity_pop
  exact hwithin _ ring

end RecordRing

namespace TickGate

/-- A drain releases the longest run of due records at the front of all that wait, parked or
queued, and parks the others in their order. -/
theorem drain_eq {gate : TickGate} {ring : RecordRing} {queue : List Record}
    (h : ring.Holds queue) (tick : Tick) :
    ∃ after, after.Holds [] ∧
      gate.drain ring tick =
        ⟨(gate.parked ++ queue).takeWhile (due tick), [],
          ⟨(gate.parked ++ queue).dropWhile (due tick)⟩, after⟩ := by
  obtain ⟨after, hpop, hafter⟩ := h.popAll
  refine ⟨after, hafter, ?_⟩
  unfold drain release receive
  rw [hpop]
  dsimp only
  rw [List.takeWhile_append, List.dropWhile_append]
  have hsplit := List.takeWhile_append_dropWhile (p := due tick) (l := gate.parked)
  cases hrest : gate.parked.dropWhile (due tick) with
  | nil =>
    rw [hrest, List.append_nil] at hsplit
    simp [hsplit]
  | cons first rest =>
    have hlength := congrArg List.length hsplit
    rw [hrest, List.length_append, List.length_cons] at hlength
    have hne : ¬(gate.parked.takeWhile (due tick)).length = gate.parked.length := by omega
    simp [hne]

end TickGate

end Framecast
