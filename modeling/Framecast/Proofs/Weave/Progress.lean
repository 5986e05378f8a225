import Framecast.Proofs.Weave.Moves

/-!
# How far the intents of a link have come

While a flush races an update, an intent is at one of many places: waiting to be put on
the wire, between its envelope and its record, in the ring, parked, due or applied;
and its envelope is on the wire or has been received. A progress cuts the log of a link
at all of these places. Envelopes are always ahead of records, so that the envelopes
under way and received are those of all intents between the ring and the consumer's
resources, however the steps of both sides interleave.
-/

namespace Framecast

open Outgoing (standing created IsLog)

/-- The intents of a link, cut at each of the places where they may be. -/
structure Progress where
  /-- What was applied. -/
  applied : List Outgoing
  /-- What was taken to be applied in the update that is under way. -/
  due : List Outgoing
  /-- What waits for its tick. -/
  parked : List Outgoing
  /-- What the ring holds. -/
  queued : List Outgoing
  /-- What only the envelope was sent of. -/
  halfway : List Outgoing
  /-- What was taken from the outbox and not sent. -/
  unsent : List Outgoing
  /-- What was not applied and may have its envelope received. -/
  known : List Outgoing
  /-- What comes behind that and has its envelope on the wire. -/
  carried : List Outgoing

namespace Progress

variable {p : Progress} {d : Delivery} {rest : List Delivery}

/-- Nothing was taken from the outbox yet. -/
def start : Progress := ⟨[], [], [], [], [], [], [], []⟩

/-- What is on its way: sent as far as its envelope, and not applied. -/
def begun (p : Progress) : List Outgoing := p.due ++ p.parked ++ p.queued ++ p.halfway

/-- Everything that was ever taken from the outbox. -/
def taken (p : Progress) : List Outgoing := p.applied ++ p.begun ++ p.unsent

/-- What is still to be put on the wire. -/
def left (p : Progress) : List Delivery :=
  p.halfway.map (fun o => .record o.record) ++ p.unsent.flatMap Outgoing.deliveries

/-- The envelopes that were sent are those of what is on its way. -/
def IsSplit (p : Progress) : Prop := p.known ++ p.carried = p.begun

/-- If nothing is left to be put on the wire, everything that was taken was sent. -/
theorem sent_of_left (h : p.left = []) : p.halfway = [] ∧ p.unsent = [] := by
  unfold left at h
  obtain ⟨hhalfway, hunsent⟩ := List.append_eq_nil_iff.mp h
  refine ⟨List.map_eq_nil_iff.mp hhalfway, ?_⟩
  cases hp : p.unsent with
  | nil => rfl
  | cons o rest =>
    rw [hp] at hunsent
    cases o <;> cases hunsent

/-- Progress in which the consumer's own places are the same. -/
structure SameHere (p p' : Progress) : Prop where
  /-- The same was applied. -/
  applied : p'.applied = p.applied
  /-- The same is due. -/
  due : p'.due = p.due
  /-- The same envelopes were received. -/
  known : p'.known = p.known

end Progress

/-- Whether a stage holds the records that are due. -/
def Stage.Holds (p : Progress) : Stage → Prop
  | .taken due => due = p.due.map Outgoing.record
  | .applying due => due = p.due.map Outgoing.record ∧ p.due <+: p.known
  | _ => p.due = []

theorem Stage.Holds.congr {p p' : Progress} {stage : Stage} (h : stage.Holds p)
    (hsame : p.SameHere p') : stage.Holds p' := by
  cases stage with
  | idle => exact hsame.due.trans h
  | swapped tick => exact hsame.due.trans h
  | taken due => exact Eq.trans h (by rw [hsame.due])
  | applying due => exact ⟨h.1.trans (by rw [hsame.due]), hsame.due ▸ hsame.known ▸ h.2⟩
  | failed => exact hsame.due.trans h

namespace Connection

/-- A consumer and its wire, as a progress says. -/
structure Stands (c : Connection) (p : Progress) : Prop where
  /-- The consumer has what was applied, and expects what has its envelope received. -/
  mirrors : c.replica.Mirrors p.applied p.known
  /-- It parks the records that wait. -/
  parked : c.replica.gate.parked = p.parked.map Outgoing.record
  /-- It is there. -/
  receiving : c.wire.receiving = true
  /-- The ring holds the records that it is to hold. -/
  ring : c.wire.ring.Holds (p.queued.map Outgoing.record)
  /-- It has room for all that is to come. -/
  room : (p.queued ++ p.halfway ++ p.unsent).length ≤ c.wire.ring.capacity.toNat
  /-- The wire carries the envelopes. -/
  envelopes : c.wire.envelopes.toList = p.carried.filterMap Outgoing.envelope?

namespace Stands

variable {c : Connection} {p : Progress} {d : Delivery} {rest : List Delivery} {waiting : List Outgoing}

/-- The next thing that is to be put on the wire can be put on it. -/
theorem deliver (h : c.Stands p) (hsplit : p.IsSplit) (hleft : p.left = d :: rest)
    (thread : Thread) :
    ∃ wire p', c.wire.deliver thread d = .ok wire ∧ (⟨c.replica, wire⟩ : Connection).Stands p' ∧
      p'.IsSplit ∧ p'.left = rest ∧ p'.taken = p.taken ∧ p.SameHere p' := by
  obtain ⟨applied, due, parked, queued, halfway, unsent, known, carried⟩ := p
  have hroom := h.room
  simp only [List.length_append] at hroom
  have hpush (o : Outgoing) (hfits : queued.length < c.wire.ring.capacity.toNat) :
      ∃ ring, c.wire.deliver thread (.record o.record) = .ok { c.wire with ring } ∧
        ring.Holds ((queued ++ [o]).map Outgoing.record) ∧ ring.capacity = c.wire.ring.capacity := by
    obtain ⟨ring, hpush, hring, hcapacity⟩ := h.ring.push (by simpa using hfits) o.record
    refine ⟨ring, ?_, by simpa using hring, hcapacity⟩
    unfold Wire.deliver
    dsimp only
    rw [hpush]
  cases halfway with
  | cons o halfway =>
    obtain ⟨hd, hrest⟩ := List.cons.inj (show _ :: _ = d :: rest from hleft)
    subst hd
    subst hrest
    simp only [List.length_cons] at hroom
    obtain ⟨ring, hdeliver, hring, hcapacity⟩ := hpush o (by omega)
    refine ⟨_, ⟨applied, due, parked, queued ++ [o], halfway, unsent, known, carried⟩, hdeliver,
      ⟨h.mirrors, h.parked, h.receiving, hring, ?_, h.envelopes⟩, ?_, rfl, ?_, rfl, rfl, rfl⟩
    · simp only [List.length_append, List.length_singleton, hcapacity]
      omega
    · simpa [Progress.IsSplit, Progress.begun] using hsplit
    · simp [Progress.taken, Progress.begun]
  | nil =>
    cases unsent with
    | nil => cases hleft
    | cons o unsent =>
      simp only [List.length_cons, List.length_nil] at hroom
      have hbegun : known ++ (carried ++ [o]) = due ++ parked ++ queued ++ [o] := by
        have hbefore : known ++ carried = due ++ parked ++ queued ++ [] := hsplit
        rw [← List.append_assoc, hbefore, List.append_nil]
      cases o with
      | create e tick =>
        obtain ⟨hd, hrest⟩ := List.cons.inj (show _ :: _ = d :: rest from hleft)
        subst hd
        subst hrest
        refine ⟨{ c.wire with envelopes := c.wire.envelopes.push e },
          ⟨applied, due, parked, queued, [.create e tick], unsent, known,
            carried ++ [.create e tick]⟩, if_pos h.receiving,
          ⟨h.mirrors, h.parked, h.receiving, h.ring, ?_, ?_⟩, ?_, rfl, ?_, rfl, rfl, rfl⟩
        · simp only [List.length_append, List.length_singleton]
          omega
        · have henvelopes := h.envelopes
          simp [henvelopes, Outgoing.envelope?]
        · exact hbegun
        · simp [Progress.taken, Progress.begun]
      | dispose id tick =>
        obtain ⟨hd, hrest⟩ := List.cons.inj (show _ :: _ = d :: rest from hleft)
        subst hd
        subst hrest
        obtain ⟨ring, hdeliver, hring, hcapacity⟩ := hpush (.dispose id tick) (by omega)
        refine ⟨_, ⟨applied, due, parked, queued ++ [.dispose id tick], [], unsent, known,
            carried ++ [.dispose id tick]⟩, hdeliver,
          ⟨h.mirrors, h.parked, h.receiving, hring, ?_, ?_⟩, ?_, rfl, ?_, rfl, rfl, rfl⟩
        · simp only [List.length_append, List.length_singleton, List.length_nil, hcapacity]
          omega
        · have henvelopes := h.envelopes
          simp [henvelopes, Outgoing.envelope?]
        · simpa [Progress.IsSplit, Progress.begun] using hbegun
        · simp [Progress.taken, Progress.begun]

/-- The outbox of a link may be taken if nothing is left and the ring has room for it. -/
theorem take (h : c.Stands p) (hleft : p.left = []) (hroom : ¬c.wire.ring.free < waiting.length) :
    c.Stands { p with unsent := waiting } := by
  obtain ⟨hhalfway, -⟩ := Progress.sent_of_left hleft
  refine ⟨h.mirrors, h.parked, h.receiving, h.ring, ?_, h.envelopes⟩
  have hfits := h.ring.fits
  rw [h.ring.free] at hroom
  rw [List.length_map] at hroom hfits
  simp only [List.length_append, hhalfway, List.length_nil]
  omega

/-- The records that are due are taken off the gate and the ring. -/
theorem takeDue (h : c.Stands p) (tick : Tick) :
    (c.takeDue tick).1 =
        ((p.parked ++ p.queued).takeWhile (Feed.due tick)).map Outgoing.record ∧
      (c.takeDue tick).2.Stands { p with
        due := (p.parked ++ p.queued).takeWhile (Feed.due tick)
        parked := (p.parked ++ p.queued).dropWhile (Feed.due tick)
        queued := [] } := by
  obtain ⟨ring, hring, hdrained⟩ :
      ∃ ring : RecordRing, ring.Holds [] ∧ c.replica.gate.drain c.wire.ring tick = _ :=
    TickGate.drain_eq h.ring tick
  have hcapacity : ring.capacity = c.wire.ring.capacity := by
    have hkept : (c.replica.gate.drain c.wire.ring tick).ring.capacity = c.wire.ring.capacity :=
      RecordRing.capacity_popAll _
    rwa [hdrained] at hkept
  have hone : TickGate.due tick ∘ Outgoing.record = Feed.due tick := by
    funext o
    unfold Function.comp TickGate.due Feed.due
    rw [Outgoing.tick_record]
  rw [h.parked, ← List.map_append, List.takeWhile_map, List.dropWhile_map, hone] at hdrained
  unfold Connection.takeDue
  rw [hdrained]
  refine ⟨rfl, ⟨h.mirrors.expects, h.mirrors.reflects.1, h.mirrors.reflects.2⟩, rfl, h.receiving,
    hring, ?_, h.envelopes⟩
  have hroom := h.room
  simp only [List.length_append, List.length_nil] at hroom ⊢
  rw [hcapacity]
  omega

/-- The envelopes on the wire are received. -/
theorem receiveEnvelopes (h : c.Stands p) (hsplit : p.IsSplit) (hlog : IsLog p.taken) :
    c.receiveEnvelopes.Stands { p with known := p.begun, carried := [] } := by
  have hall : IsLog (p.applied ++ p.known ++ p.carried) := by
    rw [List.append_assoc, show p.known ++ p.carried = p.begun from hsplit]
    exact hlog.of_append
  have hexpects := h.mirrors.expects.receive hall
  rw [← h.envelopes, show p.known ++ p.carried = p.begun from hsplit] at hexpects
  exact ⟨⟨hexpects, h.mirrors.reflects.1, h.mirrors.reflects.2⟩, h.parked, h.receiving, h.ring,
    h.room, rfl⟩

/-- What is expected of the next record that is to be applied: its envelope or its resource is
there. -/
theorem found {o : Outgoing} {due : List Outgoing} (h : c.Stands p) (hdue : p.due = o :: due)
    (hknown : p.due <+: p.known) (hlog : IsLog p.taken) :
    (o.record.command = .create →
        ∃ e, c.replica.pending[o.record.id]? = some e ∧ e.id = o.record.id) ∧
      (o.record.command = .dispose → ∃ res, c.replica.resource? o.record.id = some res) := by
  obtain ⟨later, hlater⟩ := hknown
  have hfollows : Outgoing.Follows p.applied o := by
    apply hlog p.applied o (due ++ p.parked ++ p.queued ++ p.halfway ++ p.unsent)
    simp [Progress.taken, Progress.begun, hdue]
  cases o with
  | create e tick =>
    refine ⟨fun _ => ⟨e, (h.mirrors.expects e.id e).mpr ⟨rfl, tick, ?_⟩, rfl⟩,
      fun hcommand => by cases hcommand⟩
    rw [← hlater, hdue]
    exact List.mem_append_left _ List.mem_cons_self
  | dispose id tick =>
    refine ⟨fun hcommand => ?_, fun _ => (h.mirrors.reflects.standing id).mpr hfollows⟩
    cases hcommand

/-- The next record is applied, unless that fails. -/
theorem applyRecord {o : Outgoing} {later : List Outgoing} (h : c.Stands p) (hsplit : p.IsSplit)
    (hlog : IsLog p.taken) (hknown : p.known = o :: later) (due : List Outgoing) :
    Ends (Connection.applyRecord o.record) c
      (fun _ after => after.Stands { p with
        applied := p.applied ++ [o], due, known := later }) (fun _ _ => True) := by
  have hmirrors := h.mirrors
  rw [hknown] at hmirrors
  have hall : IsLog (p.applied ++ o :: later) := by
    rw [← hknown]
    have hbegun : IsLog (p.applied ++ (p.known ++ p.carried)) := by
      rw [show p.known ++ p.carried = p.begun from hsplit]
      exact hlog.of_append
    rw [← List.append_assoc] at hbegun
    exact hbegun.of_append
  apply (ends_applyRecord hmirrors hall).imp
  · rintro _ after ⟨hafter, hcourse⟩
    obtain ⟨acks, hwire⟩ := hcourse.wire
    refine ⟨hafter, ?_, ?_, ?_, ?_, ?_⟩
    · rw [hcourse.gate]
      exact h.parked
    all_goals rw [hwire]
    · exact h.receiving
    · exact h.ring
    · exact h.room
    · exact h.envelopes
  · exact fun _ _ _ => trivial

end Stands

end Connection

/-- Whether a consumer stands as a progress says, or nothing has happened where there is none. -/
def Progress.Reaches (p : Progress) : Option Connection → Prop
  | some c => c.Stands p
  | none => p = .start

/-- How a consumer stands does not depend on snapshots and answers. -/
theorem Progress.ignoresFrames_reaches (p : Progress) : Broadcast.IgnoresFrames p.Reaches := by
  intro replica wire wire' heq h
  simp only [Wire.transit, Wire.mk.injEq, true_and] at heq
  obtain ⟨hring, henvelopes, hreceiving⟩ := heq
  exact ⟨h.mirrors, h.parked, hreceiving ▸ h.receiving, hring ▸ h.ring, hring ▸ h.room,
    henvelopes ▸ h.envelopes⟩

end Framecast
