import Mathlib.Order.Bounds.Basic
import Framecast.Proofs.Ring.Queue

/-!
# A ring is a bounded queue

Seen from outside, a ring cannot be told from a list of records that takes new ones
behind and gives old ones away in front, as long as there is room. How often the
counters wrap around does not matter: pushes and pops are answered alike, step by
step, however many there are. The room is the least power of two that is not below
what was asked for.
-/

namespace Framecast

/-- What can be asked of a queue. -/
inductive QueueAction where
  /-- A record is to be appended. -/
  | push (record : Record)
  /-- The oldest record is to be taken off. -/
  | pop
  deriving DecidableEq, Repr

/-- What a queue answers. -/
inductive QueueAnswer where
  /-- The record was appended. -/
  | pushed
  /-- The record was not appended. -/
  | refused (cause : TransportError)
  /-- This record was taken off, after cells that begin with `skipped` and hold no record. -/
  | popped (found : Option Record) (skipped : List UInt32)
  deriving DecidableEq, Repr

namespace RecordRing

/-- Does one action. A refused push leaves the ring as it is. -/
def act (ring : RecordRing) : QueueAction → QueueAnswer × RecordRing
  | .push record =>
    match ring.push record with
    | .ok after => (.pushed, after)
    | .error cause => (.refused cause, ring)
  | .pop => (.popped ring.pop.found ring.pop.skipped, ring.pop.ring)

/-- The answers to some actions, each with the number of records queued thereafter. -/
def answers (ring : RecordRing) : List QueueAction → List (QueueAnswer × Nat)
  | [] => []
  | action :: rest =>
    ((ring.act action).1, (ring.act action).2.length) :: (ring.act action).2.answers rest

end RecordRing

/-- A list of records with room for a certain number of them. -/
structure BoundedQueue where
  /-- How many records there is room for. -/
  capacity : Nat
  /-- The records, oldest first. -/
  records : List Record

namespace BoundedQueue

/-- Does one action. A record is refused exactly if there is no room for it, and then nothing
changes; what is taken off is the oldest record, and no cell is ever skipped. -/
def act (queue : BoundedQueue) : QueueAction → QueueAnswer × BoundedQueue
  | .push record =>
    if queue.records.length = queue.capacity then (.refused (.ringFull queue.capacity), queue)
    else (.pushed, { queue with records := queue.records ++ [record] })
  | .pop => (.popped queue.records.head? [], { queue with records := queue.records.tail })

/-- The answers to some actions, each with the number of records queued thereafter. -/
def answers (queue : BoundedQueue) : List QueueAction → List (QueueAnswer × Nat)
  | [] => []
  | action :: rest =>
    ((queue.act action).1, (queue.act action).2.records.length) ::
      (queue.act action).2.answers rest

end BoundedQueue

namespace RecordRing

/-- The rounded capacity is the least power of two that is not below the request. -/
theorem isLeast_roundedCapacity (requested : Nat) :
    IsLeast {n | requested ≤ n ∧ ∃ k, n = 2 ^ k} (roundedCapacity requested) := by
  unfold roundedCapacity
  split
  · rename_i hone
    refine ⟨⟨hone, 0, rfl⟩, ?_⟩
    rintro n ⟨-, k, rfl⟩
    exact Nat.two_pow_pos k
  · rename_i hone
    have hne : requested - 1 ≠ 0 := by omega
    rw [Nat.one_shiftLeft]
    have hlog : requested - 1 < 2 ^ ((requested - 1).log2 + 1) := Nat.lt_log2_self
    refine ⟨⟨by omega, _, rfl⟩, ?_⟩
    rintro n ⟨hn, k, rfl⟩
    have hk : (requested - 1).log2 < k := (Nat.log2_lt hne).mpr (by omega)
    exact Nat.pow_le_pow_right (by omega) hk

/-- A request that no ring can meet is turned down. -/
theorem create_of_out_of_range {requested : Nat} (h : requested = 0 ∨ 2 ^ 31 < requested) :
    create requested = .error (.invalidCapacity requested 1) := by
  unfold create
  rw [if_pos]
  rw [Bool.or_eq_true, decide_eq_true_eq, decide_eq_true_eq]
  exact h

/-- A request within range gives an empty ring of the rounded capacity. -/
theorem create_of_in_range {requested : Nat} (hpos : 0 < requested) (hmax : requested ≤ 2 ^ 31) :
    ∃ ring, create requested = .ok ring ∧ ring.Holds [] ∧
      ring.capacity.toNat = roundedCapacity requested := by
  have hok : create requested = .ok ⟨UInt32.ofNat (roundedCapacity requested), 0, 0, ∅⟩ := by
    unfold create
    rw [if_neg]
    rw [Bool.or_eq_true, decide_eq_true_eq, decide_eq_true_eq]
    unfold maxCapacity
    omega
  refine ⟨_, hok, holds_create hok, ?_⟩
  have hle : roundedCapacity requested ≤ 2 ^ 31 :=
    (isLeast_roundedCapacity requested).2 ⟨hmax, 31, rfl⟩
  rw [UInt32.toNat_ofNat']
  exact Nat.mod_eq_of_lt (by omega)

variable {ring : RecordRing} {queue : List Record}

/-- A full ring refuses every record. -/
theorem Holds.push_full (h : ring.Holds queue) (hfull : queue.length = ring.capacity.toNat)
    (record : Record) : ring.push record = .error (.ringFull ring.capacity.toNat) := by
  have hlength := h.length
  unfold RecordRing.length at hlength
  unfold RecordRing.push
  rw [if_pos]
  rw [UInt32.le_iff_toNat_le, hlength, hfull]

theorem Holds.pop_nil (h : ring.Holds []) : ring.pop = ⟨none, [], ring⟩ := by
  unfold RecordRing.pop
  rw [h.length]
  rfl

/-- The ring holds the records of a queue and has as much room. -/
structure Shows (ring : RecordRing) (queue : BoundedQueue) : Prop where
  /-- The records are those of the queue. -/
  holds : ring.Holds queue.records
  /-- The room is that of the queue. -/
  capacity : ring.capacity.toNat = queue.capacity

/-- A ring answers an action like the queue that it shows, and goes on showing that queue. -/
theorem Shows.act {queue : BoundedQueue} (h : ring.Shows queue) (action : QueueAction) :
    (ring.act action).1 = (queue.act action).1 ∧
      (ring.act action).2.Shows (queue.act action).2 := by
  obtain ⟨hholds, hcapacity⟩ := h
  cases action with
  | push record =>
    unfold RecordRing.act BoundedQueue.act
    dsimp only
    by_cases hfull : queue.records.length = queue.capacity
    · rw [hholds.push_full (hfull.trans hcapacity.symm) record, if_pos hfull, hcapacity]
      exact ⟨rfl, hholds, hcapacity⟩
    · have hroom : queue.records.length < ring.capacity.toNat :=
        Nat.lt_of_le_of_ne hholds.fits (hcapacity ▸ hfull)
      obtain ⟨after, hpush, hafter, hkept⟩ := hholds.push hroom record
      rw [hpush, if_neg hfull]
      exact ⟨rfl, hafter, hkept ▸ hcapacity⟩
  | pop =>
    have hkept := ring.capacity_pop
    unfold RecordRing.act BoundedQueue.act
    dsimp only
    cases hrecords : queue.records with
    | nil =>
      rw [hrecords] at hholds
      rw [hholds.pop_nil]
      exact ⟨rfl, hholds, hcapacity⟩
    | cons record rest =>
      rw [hrecords] at hholds
      obtain ⟨after, hpop, hafter⟩ := hholds.pop
      rw [hpop] at hkept ⊢
      exact ⟨rfl, hafter, hkept ▸ hcapacity⟩

/-- A ring answers any sequence of actions like the queue that it shows. -/
theorem Shows.answers {queue : BoundedQueue} (h : ring.Shows queue)
    (actions : List QueueAction) : ring.answers actions = queue.answers actions := by
  induction actions generalizing ring queue with
  | nil => rfl
  | cons action rest ih =>
    obtain ⟨hanswer, hnext⟩ := h.act action
    unfold RecordRing.answers BoundedQueue.answers
    rw [hanswer, hnext.holds.length, ih hnext]

/-- **A ring is a bounded queue.** A ring is made for every request from 1 to `2 ^ 31` and for no
other. Its capacity is the least power of two that is not below the request, and whatever is
pushed and popped, however often, it answers like the list of the records pushed and not yet
popped: a push is refused exactly if the list is as long as the capacity, a pop gives the oldest
record as it was pushed and passes over no cell, and the length is that of the list. -/
theorem isBoundedQueue (requested : Nat) :
    (requested = 0 ∨ 2 ^ 31 < requested →
      create requested = .error (.invalidCapacity requested 1)) ∧
    (0 < requested → requested ≤ 2 ^ 31 →
      ∃ ring capacity, create requested = .ok ring ∧
        IsLeast {n | requested ≤ n ∧ ∃ k, n = 2 ^ k} capacity ∧
        ring.capacity.toNat = capacity ∧ ring.length = 0 ∧
        ∀ actions, ring.answers actions = (BoundedQueue.mk capacity []).answers actions) := by
  refine ⟨create_of_out_of_range, fun hpos hmax => ?_⟩
  obtain ⟨ring, hcreate, hholds, hcapacity⟩ := create_of_in_range hpos hmax
  refine ⟨ring, roundedCapacity requested, hcreate, isLeast_roundedCapacity requested, hcapacity,
    hholds.length, fun actions => ?_⟩
  exact Shows.answers ⟨hholds, hcapacity⟩ actions

namespace Samples

/-- A record that asks for resource `n` to be created at tick `n`. -/
def numbered (n : Nat) : Record := ⟨.create, UInt32.ofNat n, UInt32.ofNat n⟩

/-- A ring made for three records takes four and refuses a fifth, until one is popped. -/
theorem isBoundedQueue_three :
    ∃ ring, create 3 = .ok ring ∧
      ring.answers [.push (numbered 0), .push (numbered 1), .push (numbered 2),
        .push (numbered 3), .push (numbered 4), .pop, .push (numbered 5), .pop] =
      [(.pushed, 1), (.pushed, 2), (.pushed, 3), (.pushed, 4), (.refused (.ringFull 4), 4),
        (.popped (some (numbered 0)) [], 3), (.pushed, 4),
        (.popped (some (numbered 1)) [], 3)] := by
  obtain ⟨ring, capacity, hcreate, hleast, -, -, hanswers⟩ :=
    (isBoundedQueue 3).2 (by decide) (by decide)
  have hcapacity : capacity = 4 :=
    hleast.unique (isLeast_roundedCapacity 3)
  refine ⟨ring, hcreate, ?_⟩
  rw [hanswers, hcapacity]
  decide

end Samples

end RecordRing

end Framecast
