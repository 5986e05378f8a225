import Mathlib.Data.List.TakeWhile
import Framecast.Proofs.Ring.Bounded

/-!
# What passes through a tick gate

Records are pushed into a ring and drained through a gate, in any order and at any
ticks, and some pushes are refused because the ring is full. Nothing is lost, doubled
or reordered on the way: what the drains gave, then what is parked, then what is
queued is what was accepted. A drain gives as much as it may: the longest run of due
records at the front of those that were not given yet, and all that are due if the
ticks of the accepted records never went back.
-/

namespace Framecast

/-- A ring with the gate through which it is drained. -/
structure GatedRing where
  /-- The records on their way. -/
  ring : RecordRing
  /-- The records that wait for their tick. -/
  gate : TickGate

/-- What can be asked of a gated ring. -/
inductive GateAction where
  /-- A record is to be appended. -/
  | enqueue (record : Record)
  /-- What is due at `tick` is to be given. -/
  | drain (tick : Tick)
  deriving DecidableEq, Repr

/-- What comes of an action. -/
inductive GateEvent where
  /-- The record was appended. -/
  | accepted (record : Record)
  /-- The record was not appended. -/
  | refused (record : Record) (cause : TransportError)
  /-- These records were given, and cells that begin with `skipped` held none. -/
  | drained (tick : Tick) (due : List Record) (skipped : List UInt32)
  deriving DecidableEq, Repr

namespace GateEvent

/-- The records that an event appends. -/
def taken : GateEvent → List Record
  | accepted record => [record]
  | _ => []

/-- The records that an event gives. -/
def given : GateEvent → List Record
  | drained _ due _ => due
  | _ => []

end GateEvent

/-- The records that were appended in some events, in their order. -/
def accepted (events : List GateEvent) : List Record := events.flatMap GateEvent.taken

/-- The records that were given in some events, in their order. -/
def returned (events : List GateEvent) : List Record := events.flatMap GateEvent.given

theorem accepted_cons (event : GateEvent) (events : List GateEvent) :
    accepted (event :: events) = event.taken ++ accepted events := List.flatMap_cons

theorem returned_cons (event : GateEvent) (events : List GateEvent) :
    returned (event :: events) = event.given ++ returned events := List.flatMap_cons

/-- The records that were appended and not given yet: what remains of the first once as many are
left out as were given. -/
def outstanding (events : List GateEvent) : List Record :=
  (accepted events).drop (returned events).length

namespace GatedRing

/-- An empty ring for at least `requested` records behind an empty gate. -/
def create (requested : Nat) : Except TransportError GatedRing := do
  return ⟨← RecordRing.create requested, .empty⟩

/-- Does one action. A refused record leaves ring and gate as they are. -/
def act (gated : GatedRing) : GateAction → GateEvent × GatedRing
  | .enqueue record =>
    match gated.ring.push record with
    | .ok after => (.accepted record, { gated with ring := after })
    | .error cause => (.refused record cause, gated)
  | .drain tick =>
    let drained := gated.gate.drain gated.ring tick
    (.drained tick drained.due drained.skipped, ⟨drained.ring, drained.gate⟩)

/-- The events that some actions lead to, and the ring and gate thereafter. -/
def run (gated : GatedRing) : List GateAction → List GateEvent × GatedRing
  | [] => ([], gated)
  | action :: rest =>
    let next := (gated.act action).2.run rest
    ((gated.act action).1 :: next.1, next.2)

/-- Behind the gate and in the ring, these records wait, oldest first. -/
def Awaits (gated : GatedRing) (waiting : List Record) : Prop :=
  ∃ queued, gated.ring.Holds queued ∧ waiting = gated.gate.parked ++ queued

variable {gated : GatedRing} {waiting : List Record}

/-- A drain gives the longest run of due records at the front of those that wait; the others go
on waiting, all of them behind the gate. -/
theorem Awaits.drain (h : gated.Awaits waiting) (tick : Tick) :
    let drained := gated.gate.drain gated.ring tick
    drained.due = waiting.takeWhile (TickGate.due tick) ∧ drained.skipped = [] ∧
      drained.gate.parked = waiting.dropWhile (TickGate.due tick) ∧ drained.ring.Holds [] := by
  obtain ⟨queued, hholds, rfl⟩ := h
  obtain ⟨after, hafter, hdrain⟩ := gated.gate.drain_eq hholds tick
  rw [hdrain]
  exact ⟨rfl, rfl, rfl, hafter⟩

/-- An action takes what it gives off the front of the records that wait, and puts what it
appends behind them. -/
theorem Awaits.act (h : gated.Awaits waiting) (action : GateAction) :
    ∃ later, (gated.act action).2.Awaits later ∧
      (gated.act action).1.given ++ later = waiting ++ (gated.act action).1.taken := by
  cases action with
  | enqueue record =>
    obtain ⟨queued, hholds, rfl⟩ := h
    unfold GatedRing.act
    dsimp only
    cases hpush : gated.ring.push record with
    | error cause => exact ⟨_, ⟨queued, hholds, rfl⟩, (List.append_nil _).symm⟩
    | ok after =>
      have hroom : queued.length < gated.ring.capacity.toNat := by
        refine Nat.lt_of_le_of_ne hholds.fits fun hfull => ?_
        rw [hholds.push_full hfull record] at hpush
        cases hpush
      obtain ⟨pushed, hpushed, hafter, -⟩ := hholds.push hroom record
      obtain rfl : after = pushed := Except.ok.inj (hpush.symm.trans hpushed)
      exact ⟨gated.gate.parked ++ (queued ++ [record]), ⟨_, hafter, rfl⟩,
        (List.append_assoc gated.gate.parked queued [record]).symm⟩
  | drain tick =>
    obtain ⟨hdue, -, hparked, hafter⟩ := h.drain tick
    refine ⟨waiting.dropWhile (TickGate.due tick), ⟨[], hafter, ?_⟩, ?_⟩
    · rw [List.append_nil]
      exact hparked.symm
    · show (gated.gate.drain gated.ring tick).due ++ _ = waiting ++ []
      rw [hdue, List.takeWhile_append_dropWhile, List.append_nil]

/-- Some actions take what they give off the front of the records that wait, and put what they
append behind them. -/
theorem Awaits.run (h : gated.Awaits waiting) (actions : List GateAction) :
    ∃ later, (gated.run actions).2.Awaits later ∧
      returned (gated.run actions).1 ++ later = waiting ++ accepted (gated.run actions).1 := by
  induction actions generalizing gated waiting with
  | nil => exact ⟨waiting, h, (List.append_nil _).symm⟩
  | cons action rest ih =>
    obtain ⟨next, hnext, hstep⟩ := h.act action
    obtain ⟨later, hlater, hrest⟩ := ih hnext
    refine ⟨later, hlater, ?_⟩
    show returned ((gated.act action).1 :: ((gated.act action).2.run rest).1) ++ later =
      waiting ++ accepted ((gated.act action).1 :: ((gated.act action).2.run rest).1)
    rw [returned_cons, accepted_cons, List.append_assoc, hrest, ← List.append_assoc, hstep,
      List.append_assoc]

/-- A record is refused only because the ring is full, and the ring keeps its capacity. -/
theorem act_refused {action : GateAction} :
    (gated.act action).2.ring.capacity = gated.ring.capacity ∧
      ∀ record cause, (gated.act action).1 = .refused record cause →
        cause = .ringFull gated.ring.capacity.toNat := by
  cases action with
  | enqueue record =>
    unfold GatedRing.act RecordRing.push
    dsimp only
    by_cases hfull : gated.ring.capacity ≤ gated.ring.head - gated.ring.tail
    · rw [if_pos hfull]
      refine ⟨rfl, ?_⟩
      rintro _ _ ⟨⟩
      rfl
    · rw [if_neg hfull]
      exact ⟨rfl, nofun⟩
  | drain tick => exact ⟨gated.ring.capacity_popAll, nofun⟩

/-- Records are refused only because the ring is full. -/
theorem run_refused {actions : List GateAction} {record : Record} {cause : TransportError}
    (h : .refused record cause ∈ (gated.run actions).1) :
    cause = .ringFull gated.ring.capacity.toNat := by
  induction actions generalizing gated with
  | nil => cases h
  | cons action rest ih =>
    obtain ⟨hcapacity, hrefused⟩ := @act_refused gated action
    rcases List.mem_cons.mp h with heq | hrest
    · exact hrefused record cause heq.symm
    · rw [← hcapacity]
      exact ih hrest

end GatedRing

namespace TickGate

/-- The due records at the front of a list are the longest of its prefixes in which every record
is due. -/
theorem isPrefix_takeWhile_due {records due : List Record} {tick : Tick} (hfront : due <+: records)
    (hdue : ∀ r ∈ due, r.tick ≤ tick) : due <+: records.takeWhile (TickGate.due tick) := by
  obtain ⟨rest, rfl⟩ := hfront
  have hall : ∀ r ∈ due, TickGate.due tick r := fun r hr => decide_eq_true (hdue r hr)
  rw [List.takeWhile_append_of_pos hall]
  exact List.prefix_append _ _

/-- Where ticks never go back, the due records are all at the front. -/
theorem takeWhile_due_of_pairwise {records : List Record}
    (h : records.Pairwise (·.tick ≤ ·.tick)) (tick : Tick) :
    records.takeWhile (due tick) = records.filter (due tick) := by
  induction h with
  | nil => rfl
  | @cons record rest hfirst _ ih =>
    cases hdue : due tick record with
    | true => rw [List.takeWhile_cons_of_pos hdue, List.filter_cons_of_pos hdue, ih]
    | false =>
      have hnone : rest.filter (due tick) = [] := by
        refine List.filter_eq_nil_iff.mpr fun r hr hlater => ?_
        have hle : record.tick ≤ tick :=
          UInt32.le_trans (hfirst r hr) (of_decide_eq_true hlater)
        exact absurd (decide_eq_true hle) (by rw [← due, hdue]; decide)
      rw [List.takeWhile_cons_of_neg (by simp [hdue]), List.filter_cons_of_neg (by simp [hdue]),
        hnone]

end TickGate

namespace GatedRing

/-- **Drains partition what was enqueued, and none of them could give more.** Whatever was
enqueued and drained before, and whichever of it was refused by a full ring: what the drains gave,
what is parked and what is queued add up, in this order, to what was accepted. A further drain
gives a prefix of the outstanding records in which all are due; no such prefix is longer. It
leaves the ring empty and passes over no cell. If the ticks of what was accepted never went back,
it gives every outstanding record that is due. -/
theorem passes_through (requested : Nat) (hpos : 0 < requested) (hmax : requested ≤ 2 ^ 31) :
    ∃ gated, GatedRing.create requested = .ok gated ∧ ∀ actions,
      let events := (gated.run actions).1
      let last := (gated.run actions).2
      returned events ++ last.gate.parked ++ last.ring.popAll.found = accepted events ∧
      (∀ record cause, .refused record cause ∈ events →
        cause = .ringFull gated.ring.capacity.toNat) ∧
      ∀ tick,
        let drained := last.gate.drain last.ring tick
        drained.skipped = [] ∧ drained.ring.length = 0 ∧
        drained.due <+: outstanding events ∧ (∀ r ∈ drained.due, r.tick ≤ tick) ∧
        (∀ due, due <+: outstanding events → (∀ r ∈ due, r.tick ≤ tick) → due <+: drained.due) ∧
        ((accepted events).Pairwise (·.tick ≤ ·.tick) →
          drained.due = (outstanding events).filter (·.tick ≤ tick)) := by
  obtain ⟨ring, hcreate, hholds, -⟩ := RecordRing.create_of_in_range hpos hmax
  refine ⟨⟨ring, .empty⟩, by unfold GatedRing.create; rw [hcreate]; rfl, fun actions => ?_⟩
  intro events last
  have hstart : GatedRing.Awaits ⟨ring, .empty⟩ [] := ⟨[], hholds, rfl⟩
  obtain ⟨waiting, hwaiting, hall⟩ := hstart.run actions
  rw [List.nil_append] at hall
  have houtstanding : outstanding events = waiting := by
    unfold outstanding
    rw [← hall, List.drop_left]
  refine ⟨?_, fun _ _ => run_refused, fun tick => ?_⟩
  · obtain ⟨queued, hholds, rfl⟩ := hwaiting
    obtain ⟨after, hpop, -⟩ := hholds.popAll
    rw [hpop, List.append_assoc]
    exact hall
  · intro drained
    obtain ⟨hdue, hskipped, -, hafter⟩ := hwaiting.drain tick
    rw [houtstanding]
    refine ⟨hskipped, hafter.length, ?_, ?_, ?_, fun hsorted => ?_⟩
    · rw [hdue]
      exact List.takeWhile_prefix _
    · rw [hdue]
      intro r hr
      have hr : TickGate.due tick r := List.mem_takeWhile_imp hr
      exact of_decide_eq_true hr
    · rw [hdue]
      exact fun due => TickGate.isPrefix_takeWhile_due
    · rw [hdue]
      rw [← hall] at hsorted
      exact TickGate.takeWhile_due_of_pairwise (List.pairwise_append.mp hsorted).2.1 tick

namespace Samples

/-- A record that asks for resource `id` to be created at `tick`. -/
def stamped (tick : Tick) (id : ResourceId) : Record := ⟨.create, tick, id⟩

/-- Ticks go back, one record too many is enqueued, and the first drain comes too early. -/
def backward : List GateAction :=
  [.enqueue (stamped 5 1), .enqueue (stamped 3 2), .enqueue (stamped 9 3), .drain 4,
    .enqueue (stamped 1 4)]

/-- In a ring for two records, the third is refused. As the first is early, all three that were
accepted wait, two of them parked, until its tick comes. -/
theorem passes_through_backward :
    ∃ gated, GatedRing.create 2 = .ok gated ∧
      (gated.run backward).1 =
        [.accepted (stamped 5 1), .accepted (stamped 3 2), .refused (stamped 9 3) (.ringFull 2),
          .drained 4 [] [], .accepted (stamped 1 4)] ∧
      let last := (gated.run backward).2
      last.gate.parked = [stamped 5 1, stamped 3 2] ∧
      last.ring.popAll.found = [stamped 1 4] ∧
      (∀ r ∈ (last.gate.drain last.ring 4).due, r.tick ≤ 4) ∧
      (last.gate.drain last.ring 5).due = [stamped 5 1, stamped 3 2, stamped 1 4] := by
  obtain ⟨gated, hcreate, hrun⟩ := passes_through 2 (by decide) (by decide)
  obtain ⟨hall, -, hdrain⟩ := hrun backward
  have hgated : gated = ⟨⟨2, 0, 0, ∅⟩, .empty⟩ := (Except.ok.inj hcreate).symm
  have hevents : (gated.run backward).1 =
      [.accepted (stamped 5 1), .accepted (stamped 3 2), .refused (stamped 9 3) (.ringFull 2),
        .drained 4 [] [], .accepted (stamped 1 4)] := by
    rw [hgated]
    decide +kernel
  have hparked : (gated.run backward).2.gate.parked = [stamped 5 1, stamped 3 2] := by
    rw [hgated]
    decide +kernel
  refine ⟨gated, hcreate, hevents, hparked, ?_, (hdrain 4).2.2.2.1, ?_⟩
  · rw [hevents, hparked] at hall
    exact (List.append_right_inj [stamped 5 1, stamped 3 2]).mp hall
  · rw [hgated]
    decide +kernel

end Samples

end GatedRing

end Framecast
