import Framecast.Proofs.Ends
import Framecast.Proofs.Feed.Delivery
import Framecast.Replica.Update

/-!
# A consumer mirrors its feed

A feed is the log of a link, cut where its consumer stands: what it has applied,
what it has received and still waits for, and what is under way to it. An update
receives what is under way and applies the longest run of due intents at the front
of what waits. A consumer that mirrors its feed has the resources that stand in the
applied part and expects those that are created in the waiting part.
-/

namespace Framecast

open Outgoing (standing IsLog)

/-- The log of a link, cut where its consumer stands. -/
structure Feed where
  /-- What took effect on the consumer. -/
  applied : List Outgoing
  /-- What has reached the consumer and has not taken effect. -/
  waiting : List Outgoing
  /-- What was sent and has not reached the consumer. -/
  underway : List Outgoing

namespace Feed

/-- A feed on which nothing was sent. -/
def empty : Feed := ⟨[], [], []⟩

/-- Everything that was sent. -/
def sent (f : Feed) : List Outgoing := f.applied ++ f.waiting ++ f.underway

/-- The feed after more was sent. -/
def send (f : Feed) (more : List Outgoing) : Feed := { f with underway := f.underway ++ more }

/-- Whether an intent may take effect at a tick. -/
def due (tick : Tick) (o : Outgoing) : Bool := o.tick ≤ tick

/-- The feed after the consumer was brought to a tick: all has reached it, and what is due has
taken effect, up to the first intent that is not. -/
def advance (f : Feed) (tick : Tick) : Feed :=
  ⟨f.applied ++ (f.waiting ++ f.underway).takeWhile (due tick),
    (f.waiting ++ f.underway).dropWhile (due tick), []⟩

@[simp] theorem send_nil (f : Feed) : f.send [] = f := by
  simp only [send, List.append_nil]

@[simp] theorem sent_send (f : Feed) (more : List Outgoing) :
    (f.send more).sent = f.sent ++ more := by
  simp only [sent, send, List.append_assoc]

@[simp] theorem sent_advance (f : Feed) (tick : Tick) : (f.advance tick).sent = f.sent := by
  unfold sent advance
  rw [List.append_nil, List.append_assoc, List.takeWhile_append_dropWhile, List.append_assoc]

end Feed

/-- Whether a resource on a consumer is the one that an envelope announced. -/
structure LocalResource.Shows (res : LocalResource) (e : Envelope) : Prop where
  /-- It has the number. -/
  id : res.id = e.id
  /-- It has the type. -/
  type : res.type = e.type
  /-- It has the name. -/
  name : res.name = e.name
  /-- It has the cargo. -/
  cargo : res.cargo = e.cargo
  /-- It has the status buffer. -/
  status : res.status = e.status

namespace Replica

/-- Whether the envelopes that a consumer keeps are those of some intents. -/
def Expects (pending : Std.TreeMap ResourceId Envelope) (waiting : List Outgoing) : Prop :=
  ∀ (id : ResourceId) (e : Envelope), pending[id]? = some e ↔ e.id = id ∧ ∃ tick, .create e tick ∈ waiting

/-- Whether the resources of a consumer are those that stand after some intents. -/
structure Reflects (r : Replica) (applied : List Outgoing) : Prop where
  /-- It has what stands. -/
  standing : ∀ id, (∃ res, r.resource? id = some res) ↔ id ∈ standing applied
  /-- What it has was announced. -/
  announced : ∀ id res, r.resource? id = some res →
    ∃ e tick, .create e tick ∈ applied ∧ e.id = id ∧ res.Shows e

/-- Whether a consumer stands where its feed is cut. -/
structure Mirrors (r : Replica) (applied waiting : List Outgoing) : Prop where
  /-- It expects what waits. -/
  expects : Expects r.pending waiting
  /-- It has what was applied. -/
  reflects : r.Reflects applied

/-- A new replica stands at the beginning of its feed. -/
theorem mirrors_create (thread : Thread) : (create thread).Mirrors [] [] := by
  have hpending (id : ResourceId) : (create thread).pending[id]? = none :=
    Std.TreeMap.getElem?_emptyc
  have hresource (id : ResourceId) : (create thread).resource? id = none :=
    Std.TreeMap.getElem?_emptyc
  refine ⟨fun id e => ?_, fun id => ?_, fun id res hres => ?_⟩
  · rw [hpending]
    simp
  · rw [hresource]
    simp [Outgoing.standing]
  · rw [hresource] at hres
    cases hres

/-- Envelopes are looked up under their numbers. -/
theorem getElem?_keepEnvelope (pending : Std.TreeMap ResourceId Envelope) (e : Envelope)
    (id : ResourceId) :
    (Connection.keepEnvelope pending e)[id]? = if id = e.id then some e else pending[id]? := by
  unfold Connection.keepEnvelope
  rw [Std.TreeMap.getElem?_insert]
  simp only [Std.LawfulEqOrd.compare_eq_iff_eq, @eq_comm _ e.id]

/-- An envelope that is kept was kept before or has arrived under its number. -/
theorem of_getElem?_keepEnvelopes {envelopes : List Envelope}
    {pending : Std.TreeMap ResourceId Envelope} {id : ResourceId} {e : Envelope}
    (he : (envelopes.foldl Connection.keepEnvelope pending)[id]? = some e) :
    pending[id]? = some e ∨ e ∈ envelopes ∧ e.id = id := by
  induction envelopes generalizing pending with
  | nil => exact .inl he
  | cons first rest ih =>
    rcases ih he with hfirst | ⟨hmem, hid⟩
    · rw [getElem?_keepEnvelope] at hfirst
      split at hfirst
      · rename_i hid
        cases hfirst
        exact .inr ⟨List.mem_cons_self, hid.symm⟩
      · exact .inl hfirst
    · exact .inr ⟨List.mem_cons_of_mem _ hmem, hid⟩

/-- The envelopes of intents that arrive are kept beside the others. -/
theorem Expects.receive {pending : Std.TreeMap ResourceId Envelope}
    {applied waiting underway : List Outgoing} (h : Expects pending waiting)
    (hlog : IsLog (applied ++ waiting ++ underway)) :
    Expects ((underway.filterMap Outgoing.envelope?).foldl Connection.keepEnvelope pending)
      (waiting ++ underway) := by
  induction underway generalizing pending waiting with
  | nil => simpa using h
  | cons o rest ih =>
    have hshift : applied ++ waiting ++ o :: rest = applied ++ (waiting ++ [o]) ++ rest := by simp
    rw [show waiting ++ o :: rest = (waiting ++ [o]) ++ rest by simp]
    cases o with
    | create e tick =>
      apply ih _ (hshift ▸ hlog)
      intro id e'
      rw [getElem?_keepEnvelope]
      have hfresh : e.id ∉ Outgoing.created (applied ++ waiting) := hlog.follows
      have hnew : ∀ tick', .create e' tick' ∈ waiting → e'.id ≠ e.id := by
        intro tick' he' heq
        exact hfresh (heq ▸ Outgoing.mem_created.mpr
          ⟨e', tick', List.mem_append_right _ he', rfl⟩)
      split
      · rename_i hid
        constructor
        · rintro heq
          cases heq
          exact ⟨hid.symm, tick, by simp⟩
        · rintro ⟨hid', tick', he'⟩
          rcases List.mem_append.mp he' with he' | he'
          · exact absurd (hid'.trans hid) (hnew tick' he')
          · cases List.mem_singleton.mp he'
            rfl
      · rename_i hid
        rw [h]
        constructor
        · rintro ⟨hid', tick', he'⟩
          exact ⟨hid', tick', List.mem_append_left _ he'⟩
        · rintro ⟨hid', tick', he'⟩
          rcases List.mem_append.mp he' with he' | he'
          · exact ⟨hid', tick', he'⟩
          · cases List.mem_singleton.mp he'
            exact absurd hid'.symm hid
    | dispose id' tick =>
      apply ih _ (hshift ▸ hlog)
      intro id e'
      rw [h]
      simp

/-- An envelope is not expected any more once its creation is taken up. -/
theorem Expects.erase_create {pending : Std.TreeMap ResourceId Envelope}
    {applied waiting : List Outgoing} {e : Envelope} {tick : Tick}
    (h : Expects pending (.create e tick :: waiting))
    (hlog : IsLog (applied ++ .create e tick :: waiting)) :
    pending[e.id]? = some e ∧ Expects (pending.erase e.id) waiting := by
  refine ⟨(h e.id e).mpr ⟨rfl, tick, List.mem_cons_self⟩, fun id e' => ?_⟩
  rw [Std.TreeMap.getElem?_erase]
  simp only [Std.LawfulEqOrd.compare_eq_iff_eq]
  split
  · rename_i hid
    constructor
    · rintro heq
      cases heq
    · rintro ⟨hid', tick', he'⟩
      exact absurd (Outgoing.mem_created.mpr ⟨e', tick', he', hid'.trans hid.symm⟩)
        hlog.not_created
  · rename_i hid
    rw [h]
    constructor
    · rintro ⟨hid', tick', he'⟩
      rcases List.mem_cons.mp he' with he' | he'
      · cases he'
        exact absurd hid' hid
      · exact ⟨hid', tick', he'⟩
    · rintro ⟨hid', tick', he'⟩
      exact ⟨hid', tick', List.mem_cons_of_mem _ he'⟩

/-- No envelope is expected of what is being disposed of. -/
theorem Expects.erase_dispose {pending : Std.TreeMap ResourceId Envelope}
    {applied waiting : List Outgoing} {x : ResourceId} {tick : Tick}
    (h : Expects pending (.dispose x tick :: waiting))
    (hlog : IsLog (applied ++ .dispose x tick :: waiting)) :
    Expects (pending.erase x) waiting := by
  intro id e'
  rw [Std.TreeMap.getElem?_erase]
  simp only [Std.LawfulEqOrd.compare_eq_iff_eq]
  split
  · rename_i hid
    constructor
    · rintro heq
      cases heq
    · rintro ⟨hid', tick', he'⟩
      exact absurd (Outgoing.mem_created.mpr ⟨e', tick', he', hid'.trans hid.symm⟩)
        hlog.not_created_of_dispose
  · rw [h]
    constructor
    · rintro ⟨hid', tick', he'⟩
      rcases List.mem_cons.mp he' with he' | he'
      · cases he'
      · exact ⟨hid', tick', he'⟩
    · rintro ⟨hid', tick', he'⟩
      exact ⟨hid', tick', List.mem_cons_of_mem _ he'⟩

/-- A replica has one resource more after a creation. -/
theorem Reflects.insert {r r' : Replica} {applied : List Outgoing} {e : Envelope} {tick : Tick}
    {res : LocalResource} (h : r.Reflects applied) (hshows : res.Shows e)
    (hresources : r'.resources = r.resources.insert res.id res) :
    r'.Reflects (applied ++ [.create e tick]) := by
  have hlookup (id : ResourceId) : r'.resource? id =
      if id = e.id then some res else r.resource? id := by
    unfold resource?
    rw [hresources, Std.TreeMap.getElem?_insert, hshows.id]
    simp only [Std.LawfulEqOrd.compare_eq_iff_eq, @eq_comm _ e.id]
  refine ⟨fun id => ?_, fun id res' hres' => ?_⟩
  · rw [Outgoing.standing_append_singleton, hlookup]
    show _ ↔ id ∈ _ ++ [e.id]
    rw [List.mem_append, List.mem_singleton, ← h.standing]
    by_cases hid : id = e.id
    · simp [hid]
    · simp [hid]
  · rw [hlookup] at hres'
    split at hres'
    · rename_i hid
      cases hres'
      exact ⟨e, tick, by simp, hid.symm, hshows⟩
    · obtain ⟨e', tick', he', hrest⟩ := h.announced id res' hres'
      exact ⟨e', tick', List.mem_append_left _ he', hrest⟩

/-- A replica has one resource less after a disposal. -/
theorem Reflects.erase {r r' : Replica} {applied : List Outgoing} {x : ResourceId} {tick : Tick}
    (h : r.Reflects applied)
    (hlookup : ∀ id, r'.resource? id = if id = x then none else r.resource? id) :
    r'.Reflects (applied ++ [.dispose x tick]) := by
  refine ⟨fun id => ?_, fun id res' hres' => ?_⟩
  · rw [Outgoing.standing_append_singleton, hlookup]
    show _ ↔ id ∈ List.filter _ _
    rw [List.mem_filter, ← h.standing]
    by_cases hid : id = x
    · simp [hid]
    · simp [hid]
  · rw [hlookup] at hres'
    split at hres'
    · cases hres'
    · obtain ⟨e', tick', he', hrest⟩ := h.announced id res' hres'
      exact ⟨e', tick', List.mem_append_left _ he', hrest⟩

end Replica

namespace Connection

variable {c c' c'' : Connection} {applied waiting : List Outgoing}

/-- What applying records leaves alone: the gate, and all of the wire but the answers. -/
structure SameCourse (c c' : Connection) : Prop where
  /-- The same records wait. -/
  gate : c'.replica.gate = c.replica.gate
  /-- The wire carries the same but for answers. -/
  wire : ∃ acks, c'.wire = { c.wire with acks }

protected theorem SameCourse.trans (h : c.SameCourse c') (h' : c'.SameCourse c'') :
    c.SameCourse c'' := by
  obtain ⟨acks, hacks⟩ := h'.wire
  obtain ⟨_, hfirst⟩ := h.wire
  exact ⟨h'.gate.trans h.gate, acks, by rw [hacks, hfirst]⟩

/-- What a loader gave is kept with its resource. -/
theorem settleResult_insert (c : Connection) (resource : LocalResource)
    (result : Except String Product) :
    ∃ res, (∀ e, resource.Shows e → res.Shows e) ∧
      (c.settleResult resource result).replica.resources =
        c.replica.resources.insert res.id res ∧
      (c.settleResult resource result).replica.pending = c.replica.pending ∧
        c.SameCourse (c.settleResult resource result) := by
  cases result with
  | ok made =>
    exact ⟨{ resource with made? := some made }, fun _ h => ⟨h.1, h.2, h.3, h.4, h.5⟩, rfl, rfl,
      rfl, _, rfl⟩
  | error reason =>
    exact ⟨{ resource with error? := some reason }, fun _ h => ⟨h.1, h.2, h.3, h.4, h.5⟩, rfl, rfl,
      rfl, _, rfl⟩

/-- A resource whose creation takes effect is kept, unless nobody can load it. -/
theorem ends_loadResource (resource : LocalResource) (c : Connection) :
    Ends (loadResource resource) c
      (fun _ after => ∃ res, (∀ e, resource.Shows e → res.Shows e) ∧
        after.replica.resources = c.replica.resources.insert res.id res ∧
          after.replica.pending = c.replica.pending ∧ c.SameCourse after)
      (fun _ _ => True) := by
  unfold loadResource
  rw [Ends.bind_iff, Ends.get_iff]
  split
  · exact ⟨resource, fun _ h => h, rfl, rfl, rfl, _, rfl⟩
  · split
    · rename_i loader _
      dsimp only
      rw [Ends.set_iff]
      generalize Notice.load _ _ _ _ = notice
      obtain ⟨res, hshows, hresources, hpending, hcourse⟩ := settleResult_insert
        (c.mapReplica fun r => r.note notice) resource (loader.load (c.arrival resource))
      exact ⟨res, hshows, hresources, hpending, hcourse.gate, hcourse.wire⟩
    · split
      · exact settleResult_insert c resource _
      · trivial

/-- Applying a record brings the consumer one intent further. -/
theorem ends_applyRecord {o : Outgoing} (h : c.replica.Mirrors applied (o :: waiting))
    (hlog : IsLog (applied ++ o :: waiting)) :
    Ends (applyRecord o.record) c
      (fun _ after => after.replica.Mirrors (applied ++ [o]) waiting ∧ c.SameCourse after)
      (fun _ _ => True) := by
  cases o with
  | create e tick =>
    obtain ⟨hfound, hexpects⟩ := h.expects.erase_create hlog
    show Ends (applyCreate e.id) c _ _
    unfold applyCreate
    rw [Ends.bind_iff, Ends.get_iff]
    simp only [hfound]
    rw [Ends.bind_iff, Ends.set_iff]
    apply (ends_loadResource _ _).imp
    · rintro _ after ⟨res, hshows, hresources, hpending, hcourse⟩
      refine ⟨⟨?_, ?_⟩, hcourse.gate, hcourse.wire⟩
      · rw [hpending]
        exact hexpects
      · exact h.reflects.insert (hshows e ⟨rfl, rfl, rfl, rfl, rfl⟩) hresources
    · exact fun _ _ h => h
  | dispose x tick =>
    have hexpects := h.expects.erase_dispose hlog
    show Ends (modify (·.applyDispose x)) c _ _
    rw [Ends.modify_iff]
    have hafter : (c.applyDispose x).replica.pending = c.replica.pending.erase x ∧
        (∀ id, (c.applyDispose x).replica.resource? id =
          if id = x then none else c.replica.resource? id) ∧ c.SameCourse (c.applyDispose x) := by
      have herase (id : ResourceId) : (c.replica.resources.erase x)[id]? =
          if id = x then none else c.replica.resources[id]? := by
        rw [Std.TreeMap.getElem?_erase]
        simp only [Std.LawfulEqOrd.compare_eq_iff_eq, @eq_comm _ x]
      unfold applyDispose mapReplica Replica.resource?
      dsimp only
      split
      · rename_i hnone
        refine ⟨rfl, fun id => ?_, rfl, _, rfl⟩
        split
        · rename_i hid
          rw [hid]
          exact hnone
        · rfl
      · unfold unload
        dsimp only
        split
        · exact ⟨rfl, herase, rfl, _, rfl⟩
        · exact ⟨rfl, herase, rfl, _, rfl⟩
    exact ⟨⟨hafter.1 ▸ hexpects, h.reflects.erase hafter.2.1⟩, hafter.2.2⟩

/-- Applying records one after another brings the consumer as far. -/
theorem ends_applyAll {due : List Outgoing} (h : c.replica.Mirrors applied (due ++ waiting))
    (hlog : IsLog (applied ++ due ++ waiting)) :
    Ends (applyAll (due.map Outgoing.record)) c
      (fun _ after => after.replica.Mirrors (applied ++ due) waiting ∧ c.SameCourse after)
      (fun _ _ => True) := by
  unfold applyAll
  induction due generalizing c applied with
  | nil => exact ⟨by simpa using h, rfl, _, rfl⟩
  | cons o rest ih =>
    rw [List.map_cons, List.forM_eq_forM, List.forM_cons, Ends.bind_iff, ← List.forM_eq_forM]
    rw [List.append_assoc, List.cons_append] at hlog
    apply (ends_applyRecord h hlog).imp
    · rintro _ one ⟨hone, hcourse⟩
      have hlog' : IsLog (applied ++ [o] ++ rest ++ waiting) := by simpa using hlog
      apply (ih hone hlog').imp
      · rintro _ after ⟨hafter, hcourse'⟩
        exact ⟨by simpa using hafter, hcourse.trans hcourse'⟩
      · exact fun _ _ h => h
    · exact fun _ _ h => h

/-- Applying a record stays on course, also where it fails. -/
theorem course_applyRecord (record : Record) (c : Connection) :
    Ends (applyRecord record) c (fun _ after => c.SameCourse after)
      (fun _ after => c.SameCourse after) := by
  have hload (resource : LocalResource) (c : Connection) :
      Ends (loadResource resource) c (fun _ after => c.SameCourse after)
        (fun _ after => c.SameCourse after) := by
    unfold loadResource
    rw [Ends.bind_iff, Ends.get_iff]
    split
    · exact ⟨rfl, _, rfl⟩
    · split
      · rename_i loader _
        dsimp only
        rw [Ends.set_iff]
        generalize Notice.load _ _ _ _ = notice
        obtain ⟨_, -, -, -, hcourse⟩ := settleResult_insert
          (c.mapReplica fun r => r.note notice) resource (loader.load (c.arrival resource))
        exact ⟨hcourse.gate, hcourse.wire⟩
      · split
        · obtain ⟨_, -, -, -, hcourse⟩ := settleResult_insert c resource (.ok .unit)
          exact hcourse
        · exact ⟨rfl, _, rfl⟩
  unfold applyRecord
  split
  · unfold applyCreate
    rw [Ends.bind_iff, Ends.get_iff]
    split
    · exact ⟨rfl, _, rfl⟩
    · rw [Ends.bind_iff, Ends.set_iff]
      exact (hload _ _).imp (fun _ _ h => ⟨h.gate, h.wire⟩) fun _ _ h => ⟨h.gate, h.wire⟩
  · unfold applyDispose
    refine ⟨?_, _, rfl⟩
    show (Connection.mapReplica _ _).replica.gate = _
    unfold mapReplica
    dsimp only
    split
    · rfl
    · unfold unload
      split <;> rfl

/-- However an update ends, the reader has taken over what was handed over last, and the ring and the
envelopes were taken off the wire. -/
theorem ends_update_wire (tick : Tick) (c : Connection) :
    Ends (update tick) c
      (fun _ after => ∃ acks, after.wire = { c.wire with
        frames := c.wire.frames.pickUp.2, ring := (c.replica.gate.drain c.wire.ring tick).ring,
        envelopes := #[], acks })
      (fun _ after => ∃ acks, after.wire = { c.wire with
        frames := c.wire.frames.pickUp.2, ring := (c.replica.gate.drain c.wire.ring tick).ring,
        envelopes := #[], acks }) := by
  unfold update
  rw [Ends.bind_iff, Ends.modify_iff, Ends.bind_iff, Ends.get_iff]
  unfold takeDue
  dsimp only
  rw [Ends.bind_iff, Ends.set_iff]
  generalize hgot : receiveEnvelopes _ = got
  have hwire : got.wire = { c.wire with
      frames := c.wire.frames.pickUp.2, ring := (c.replica.gate.drain c.wire.ring tick).ring,
      envelopes := #[] } := by
    rw [← hgot]
    rfl
  unfold applyAll
  have hall : Ends ((c.replica.gate.drain c.wire.ring tick).due.forM applyRecord) got
      (fun _ after => got.SameCourse after) (fun _ after => got.SameCourse after) := by
    refine Ends.forM (fun record _ after h => ?_) ⟨rfl, _, rfl⟩
    exact (course_applyRecord record after).imp (fun _ _ h' => h.trans h') fun _ _ h' => h.trans h'
  apply hall.imp
  · rintro _ after ⟨-, acks, hacks⟩
    exact ⟨acks, by rw [hacks, hwire]⟩
  · rintro _ after ⟨-, acks, hacks⟩
    exact ⟨acks, by rw [hacks, hwire]⟩

/-- A consumer that stands where its feed is cut. -/
structure Follows (c : Connection) (f : Feed) : Prop where
  /-- It mirrors what it has applied and what it waits for. -/
  mirrors : c.replica.Mirrors f.applied f.waiting
  /-- The records of what it waits for are parked. -/
  parked : c.replica.gate.parked = f.waiting.map Outgoing.record
  /-- The rest is on the wire. -/
  carries : c.wire.Carries f.underway

/-- An update brings the consumer to where the feed is cut at the tick. -/
theorem Follows.ends_update {f : Feed} (h : c.Follows f) (hlog : IsLog f.sent) (tick : Tick) :
    Ends (update tick) c
      (fun _ after => after.Follows (f.advance tick) ∧
        after.wire.frames = c.wire.frames.pickUp.2)
      (fun _ _ => True) := by
  have hall : (f.waiting ++ f.underway).map Outgoing.record =
      f.waiting.map Outgoing.record ++ f.underway.map Outgoing.record := List.map_append
  obtain ⟨ring, hring, hdrained⟩ :
      ∃ ring : RecordRing, ring.Holds [] ∧ c.replica.gate.drain c.wire.ring tick = _ :=
    TickGate.drain_eq h.carries.ring tick
  have hdue : ∀ o : Outgoing, TickGate.due tick o.record = Feed.due tick o := by
    intro o
    unfold TickGate.due Feed.due
    rw [Outgoing.tick_record]
  have htake : (c.replica.gate.parked ++ f.underway.map Outgoing.record).takeWhile
      (TickGate.due tick) =
        ((f.waiting ++ f.underway).takeWhile (Feed.due tick)).map Outgoing.record := by
    rw [h.parked, ← hall, List.takeWhile_map]
    congr 2
    exact funext hdue
  have hdrop : (c.replica.gate.parked ++ f.underway.map Outgoing.record).dropWhile
      (TickGate.due tick) =
        ((f.waiting ++ f.underway).dropWhile (Feed.due tick)).map Outgoing.record := by
    rw [h.parked, ← hall, List.dropWhile_map]
    congr 2
    exact funext hdue
  have hexpects := h.mirrors.expects.receive hlog
  rw [← h.carries.envelopes, ← List.takeWhile_append_dropWhile (p := Feed.due tick)
    (l := f.waiting ++ f.underway)] at hexpects
  rw [← f.sent_advance tick] at hlog
  unfold Feed.sent Feed.advance at hlog
  simp only [List.append_nil] at hlog
  unfold update
  rw [Ends.bind_iff, Ends.modify_iff, Ends.bind_iff, Ends.get_iff]
  unfold takeDue pickUp
  simp only [hdrained, htake, hdrop]
  rw [Ends.bind_iff, Ends.set_iff]
  generalize hgot : receiveEnvelopes _ = got
  have hmirrors : got.replica.Mirrors f.applied
      ((f.waiting ++ f.underway).takeWhile (Feed.due tick) ++
        (f.waiting ++ f.underway).dropWhile (Feed.due tick)) := by
    rw [← hgot]
    exact ⟨hexpects, h.mirrors.reflects.1, h.mirrors.reflects.2⟩
  apply (ends_applyAll hmirrors hlog).imp
  · rintro _ after ⟨hmirrors, hcourse⟩
    obtain ⟨acks, hwire⟩ := hcourse.wire
    refine ⟨⟨hmirrors, ?_, ?_⟩, ?_⟩
    · rw [hcourse.gate, ← hgot]
      rfl
    · rw [hwire, ← hgot]
      exact ⟨h.carries.receiving, hring, rfl⟩
    · rw [hwire, ← hgot]
      rfl
  · exact fun _ _ h => h

end Connection

end Framecast
