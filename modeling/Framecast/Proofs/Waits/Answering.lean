import Framecast.Proofs.Frames.Turning
import Framecast.Proofs.Run.Deeds
import Framecast.Proofs.Run.Segments
import Framecast.Proofs.Waits.Replies

/-!
# Every consumer answers once

An answer stays on its way until the producer takes answers in. Over all of a run,
what a consumer was sent is what it has received, what is under way and what still
waits in the outbox, and it has answered at most once for each resource of the first
part, and for no other.
-/

namespace Framecast

open Outgoing (created)

/-- The answers of consumer `k` that are under way. -/
def Registry.acksAt (r : Registry) (k : Nat) : List Ack := (r.acks[k]?.map Array.toList).getD []

/-- The answers of consumer `k` that an action takes in. -/
def Moment.takes (m : Moment) (k : Nat) : List Ack :=
  if m.action.takesAcks then m.before.registry.acksAt k else []

/-- The answers of consumer `k` that were taken in, oldest first. -/
def answered (k : Nat) : List Moment → List Ack
  | [] => []
  | m :: past => answered k past ++ m.takes k

/-- No answer is on a new wire. -/
theorem Wire.acks_create {ringCapacity : Nat} {wire : Wire}
    (h : Wire.create ringCapacity = .ok wire) : wire.acks = #[] := by
  unfold create at h
  cases hring : RecordRing.create ringCapacity with
  | error cause =>
    rw [hring] at h
    cases h
  | ok ring =>
    rw [hring] at h
    cases h
    rfl

namespace Registry

variable {r r' : Registry}

theorem acksAt_congr (h : r'.acks = r.acks) (k : Nat) : r'.acksAt k = r.acksAt k := by
  unfold acksAt
  rw [h]

/-- Once all answers were taken in, none is on its way. -/
theorem acksAt_processAcks (r : Registry) (k : Nat) : r.processAcks.acksAt k = [] := by
  refine processAcks_keep (P := fun s => s.acksAt k = []) r (fun s after h hs => ?_) ?_
  · unfold acksAt acks at hs ⊢
    rw [h.links]
    exact hs
  · unfold acksAt acks
    rw [List.map_map, List.getElem?_map]
    cases r.links[k]? <;> rfl

/-- A wait takes all answers in. -/
theorem acksAt_await (r : Registry) (id : ResourceId) (k : Nat) :
    (r.await id).2.acksAt k = [] := by
  have h := r.acksAt_processAcks k
  unfold await
  dsimp only
  split
  · exact h
  · split
    · exact h
    · exact h
    · rw [acksAt_congr (acks_modifyResource _ _ _)]
      exact h

/-- Where only snapshots differ, the same answers are on their way. -/
theorem Reframed.acks (h : r.Reframed r') : r'.acks = r.acks := by
  have hacks := congrArg (List.map (·.wire.acks)) h.links
  rw [List.map_map, List.map_map] at hacks
  exact hacks

end Registry

namespace Broadcast

variable {b : Broadcast} {action : Action} {k : Nat}

/-- The answers of a consumer are those on its wire. -/
theorem acksAt_of_connection? {c : Connection} (h : b.connection? k = some c) :
    b.registry.acksAt k = c.wire.acks.toList := by
  obtain ⟨replica, link, -, hlink, rfl⟩ := connection?_eq_some.mp h
  unfold Registry.acksAt Registry.acks
  rw [List.getElem?_map, hlink]
  rfl

/-- A link may change if its answers stay. -/
theorem acksAt_modifyLink (r : Registry) (j k : Nat) {f : Link → Link}
    (hf : ∀ link, r.links[k]? = some link → j = k → (f link).wire.acks = link.wire.acks) :
    (r.modifyLink j f).acksAt k = r.acksAt k := by
  unfold Registry.acksAt Registry.acks Registry.modifyLink
  rw [List.getElem?_map, List.getElem?_map, List.getElem?_modify]
  cases hlink : r.links[k]? with
  | none => rfl
  | some link =>
    split
    · rename_i hj
      simp [hf link hlink hj]
    · rfl

/-- No answer comes from a new consumer. -/
theorem acksAt_connect (b : Broadcast) (thread : Thread) (k : Nat) :
    (b.step (.connect thread)).2.registry.acksAt k = b.registry.acksAt k := by
  rcases b.step_connect thread with ⟨wire, hwire, hstep⟩ | ⟨e, hstep⟩
  · rw [hstep]
    have hnone : wire.acks = #[] := Wire.acks_create hwire
    unfold Registry.acksAt Registry.acks
    rw [List.map_append, List.getElem?_append]
    split
    · rfl
    · rename_i hk
      have hold : (b.registry.links.map (·.wire.acks))[k]? = none :=
        List.getElem?_eq_none (Nat.le_of_not_lt hk)
      rw [hold, List.map_singleton, hnone]
      cases k - (b.registry.links.map (·.wire.acks)).length <;> rfl
  · rw [hstep]

/-- A flush takes all answers in. -/
theorem acksAt_flush (b : Broadcast) (k : Nat) :
    (b.step .flush).2.registry.acksAt k = [] := by
  have hretired {retired : Registry} (h : b.registry.processAcks.Reframed retired) :
      retired.acksAt k = [] :=
    (Registry.acksAt_congr h.acks k).trans (b.registry.acksAt_processAcks k)
  have hsent {retired : Registry} (h : b.registry.processAcks.Reframed retired) :
      ({ retired with links := (Registry.flushLinks retired.links).1 } : Registry).acksAt k =
        [] := by
    have hlinks := congrArg (List.map Prod.snd) (Registry.untouched_flushLinks retired.links)
    rw [List.map_map, List.map_map] at hlinks
    have hacks : ({ retired with links := (Registry.flushLinks retired.links).1 } :
        Registry).acks = retired.acks := hlinks
    exact (Registry.acksAt_congr hacks k).trans (hretired h)
  apply onRegistry_after (P := fun after => after.acksAt k = [])
  apply (Registry.ends_flush b.registry).imp
  · rintro _ after ⟨retired, h, -, rfl⟩
    exact hsent h
  · rintro _ after ⟨retired, h, rfl | rfl⟩
    · exact hretired h
    · exact hsent h

/-- Only an update of the consumer changes which of its answers are on their way. -/
theorem acksAt_external (h : action.isInternal = false) (hflush : action.takesAcks = false)
    (hother : ∀ tick, action ≠ .update k tick) :
    (b.step action).2.registry.acksAt k = b.registry.acksAt k := by
  cases action with
  | setTick tick => rfl
  | connect thread => exact b.acksAt_connect thread k
  | commit => exact Registry.acksAt_congr b.reframed_commit.acks k
  | flush => cases hflush
  | registerLoader j type loader =>
    rcases b.onConnection_cases j
        (modify fun c => c.mapReplica (·.registerLoader type loader)) with
      ⟨-, heq⟩ | ⟨c, hconn, ⟨_, after, hrun, heq⟩ | ⟨_, _, hrun, -⟩⟩
    · exact congrArg (·.2.registry.acksAt k) heq
    · cases hrun
      refine (congrArg (·.2.registry.acksAt k) heq).trans
        (acksAt_modifyLink b.registry j k fun link hlink hj => ?_)
      subst hj
      obtain ⟨_, link', -, hlink', rfl⟩ := connection?_eq_some.mp hconn
      rw [hlink] at hlink'
      cases hlink'
      rfl
    · cases hrun
  | update j tick =>
    have hkept (f : Link → Link) : (b.registry.modifyLink j f).acksAt k = b.registry.acksAt k :=
      acksAt_modifyLink b.registry j k fun _ _ hj => absurd (hj ▸ rfl) (hother tick)
    rcases b.onConnection_cases j (Connection.update tick) with
      ⟨-, heq⟩ | ⟨c, hconn, ⟨_, after, hrun, heq⟩ | ⟨_, after, hrun, heq⟩⟩
    · exact congrArg (·.2.registry.acksAt k) heq
    · exact (congrArg (·.2.registry.acksAt k) heq).trans (hkept _)
    · exact (congrArg (·.2.registry.acksAt k) heq).trans (hkept _)
  | hangUp j => exact acksAt_modifyLink b.registry j k fun _ _ _ => rfl
  | registerType | createOpaque | createInstance | createString | createBuffer | retain |
    dispose | setProp | setPropFromScript | await | processAcks | elsewhere => cases h

/-- An answer stays on its way until it is taken in, and comes from an update only. -/
theorem acksAt_step (hother : ∀ tick, action ≠ .update k tick) (hc : action.IsCompiled)
    (hw : b.registry.WellFormed) (hl : (b.step action).2.registry.supply.Lasts) :
    Moment.takes ⟨b, action⟩ k ++ (b.step action).2.registry.acksAt k = b.registry.acksAt k := by
  cases htakes : action.takesAcks with
  | false =>
    have hnone : Moment.takes ⟨b, action⟩ k = [] := if_neg (by rw [htakes]; decide)
    rw [hnone, List.nil_append]
    cases hinternal : action.isInternal with
    | true =>
      obtain ⟨new?, hdeed, -⟩ := deed_step hinternal htakes hc hw hl
      exact Registry.acksAt_congr hdeed.acks k
    | false => exact acksAt_external hinternal htakes hother
  | true =>
    have htaken : Moment.takes ⟨b, action⟩ k = b.registry.acksAt k := if_pos htakes
    have hempty : (b.step action).2.registry.acksAt k = [] := by
      cases action with
      | await id => exact b.registry.acksAt_await id k
      | processAcks => exact b.registry.acksAt_processAcks k
      | flush => exact b.acksAt_flush k
      | setTick | connect | registerType | createOpaque | createInstance | createString |
        createBuffer | retain | dispose | setProp | setPropFromScript | elsewhere | commit |
        registerLoader | update | hangUp => cases htakes
    rw [htaken, hempty, List.append_nil]

/-- Consumer `k` has received one part of a log and is being sent another, the rest of it waits, and
the consumer answers once for what it has received. -/
structure Hears (b : Broadcast) (k : Nat) (log : List Outgoing) (taken : List Ack) : Prop where
  /-- The parts of the log. -/
  parts : ∃ received underway, log = received ++ underway ++ b.registry.outboxAt k ∧
    ∀ c, b.connection? k = some c → c.Replies received underway taken
  /-- Where there is no consumer yet, none has answered. -/
  silent : b.registry.links.length ≤ k → taken = []

namespace Hears

variable {log : List Outgoing} {taken : List Ack}

/-- No answer was taken in where there is still no link. -/
theorem silent_step (h : b.Hears k log taken)
    (hk : (b.step action).2.registry.links.length ≤ k) :
    taken ++ Moment.takes ⟨b, action⟩ k = [] := by
  have hnone : b.registry.links.length ≤ k := (b.length_links_le action).trans hk
  rw [h.silent hnone, List.nil_append]
  unfold Moment.takes Registry.acksAt
  split
  · rw [List.getElem?_eq_none (by unfold Registry.acks; rwa [List.length_map])]
    rfl
  · rfl

/-- A consumer that expects what it did, and is being sent what it was or what waited for it. -/
theorem carry (h : b.Hears k log taken) (more : List Outgoing) {rest : List Outgoing}
    (hother : ∀ tick, action ≠ .update k tick) (hc : action.IsCompiled)
    (hw : b.registry.WellFormed) (hl : (b.step action).2.registry.supply.Lasts)
    (hold : ∀ c', (b.step action).2.connection? k = some c' → ∃ c, b.connection? k = some c ∧
      c'.replica.pending = c.replica.pending ∧ ∀ e ∈ c'.wire.envelopes.toList,
        e ∈ c.wire.envelopes.toList ∨ ∃ tick, .create e tick ∈ more)
    (houtbox : b.registry.outboxAt k ++ rest = more ++ (b.step action).2.registry.outboxAt k) :
    (b.step action).2.Hears k (log ++ rest) (taken ++ Moment.takes ⟨b, action⟩ k) := by
  obtain ⟨received, underway, hparts, hreplies⟩ := h.parts
  refine ⟨⟨received, underway ++ more, ?_, fun c' hc' => ?_⟩,
    h.silent_step⟩
  · rw [hparts, List.append_assoc, houtbox]
    simp only [List.append_assoc]
  · obtain ⟨c, hconn, hpending, henvelopes⟩ := hold c' hc'
    refine (hreplies c hconn).send hpending henvelopes ?_
    rw [← acksAt_of_connection? hc', ← acksAt_of_connection? hconn, List.append_assoc,
      acksAt_step hother hc hw hl]

/-- Where the producer alone has acted, a consumer is as before but for its wire. -/
theorem connection?_of_links {b' : Broadcast} {c' : Connection} {P : Wire → Wire → Prop}
    (h : b'.connection? k = some c') (hreplicas : b'.replicas = b.replicas)
    (hlinks : ∀ link', b'.registry.links[k]? = some link' →
      ∃ link, b.registry.links[k]? = some link ∧ P link.wire link'.wire) :
    ∃ c, b.connection? k = some c ∧ c'.replica = c.replica ∧ P c.wire c'.wire := by
  obtain ⟨replica, link', hreplica, hlink', rfl⟩ := connection?_eq_some.mp h
  obtain ⟨link, hlink, hP⟩ := hlinks link' hlink'
  exact ⟨⟨replica, link.wire⟩,
    connection?_eq_some.mpr ⟨replica, link, hreplicas ▸ hreplica, hlink, rfl⟩, rfl, hP⟩

/-- An action on the resources of the producer puts nothing under way. -/
theorem internal (h : b.Hears k log taken) (hinternal : action.isInternal = true)
    (hc : action.IsCompiled) (hw : b.registry.WellFormed)
    (hl : (b.step action).2.registry.supply.Lasts) :
    (b.step action).2.Hears k (log ++ Moment.queues ⟨b, action⟩ k)
      (taken ++ Moment.takes ⟨b, action⟩ k) := by
  have htransits := transits_step (b := b) hinternal
  refine h.carry [] ?_ hc hw hl ?_ (Moment.outboxAt_internal b hinternal k).1.symm
  · rintro tick rfl
    cases hinternal
  · intro c' hc'
    obtain ⟨c, hconn, hreplica, htransit⟩ := connection?_of_links
      (P := fun wire wire' => wire.transit = wire'.transit) hc' (replicas_step hinternal)
      fun link' hlink' => by
        have hlink := congrArg (·[k]?) htransits
        simp only [List.getElem?_map, hlink', Option.map_some] at hlink
        obtain ⟨link, hlink, heq⟩ := Option.map_eq_some_iff.mp hlink.symm
        exact ⟨link, hlink, heq⟩
    have henvelopes : c.wire.transit.envelopes = c'.wire.transit.envelopes :=
      congrArg Wire.envelopes htransit
    refine ⟨c, hconn, congrArg Replica.pending hreplica, fun e he => .inl ?_⟩
    exact (congrArg Array.toList henvelopes).symm ▸ he

/-- An action that goes over the wires but sends nothing and brings the consumer to no tick. -/
theorem external (h : b.Hears k log taken) (hexternal : action.isInternal = false)
    (hflush : action ≠ .flush) (hother : ∀ tick, action ≠ .update k tick) (hc : action.IsCompiled)
    (hw : b.registry.WellFormed) (hl : (b.step action).2.registry.supply.Lasts)
    (hold : ∀ c', (b.step action).2.connection? k = some c' → ∃ c, b.connection? k = some c ∧
      c'.replica.pending = c.replica.pending ∧
        c'.wire.envelopes.toList ⊆ c.wire.envelopes.toList) :
    (b.step action).2.Hears k (log ++ Moment.queues ⟨b, action⟩ k)
      (taken ++ Moment.takes ⟨b, action⟩ k) := by
  rw [b.queues_eq_nil_of_external hexternal]
  refine h.carry [] hother hc hw hl ?_ ?_
  · intro c' hc'
    obtain ⟨c, hconn, hpending, henvelopes⟩ := hold c' hc'
    exact ⟨c, hconn, hpending, fun e he => .inl (henvelopes he)⟩
  · rw [b.outboxAt_step hexternal hflush, List.append_nil, List.nil_append]

/-- A new consumer has received nothing and has answered nothing. -/
theorem connect (h : b.Hears k log taken) (hheralds : b.Heralds k log) (thread : Thread)
    (hw : b.registry.WellFormed) (hl : (b.step (.connect thread)).2.registry.supply.Lasts) :
    (b.step (.connect thread)).2.Hears k (log ++ Moment.queues ⟨b, .connect thread⟩ k)
      (taken ++ Moment.takes ⟨b, .connect thread⟩ k) := by
  rcases b.step_connect thread with ⟨wire, hwire, hstep⟩ | ⟨e, hstep⟩
  · by_cases hk : k = b.registry.links.length
    · -- the consumer is new: nothing was queued for it
      obtain ⟨received, underway, hparts, -⟩ := h.parts
      have hnone : taken = [] := h.silent hk.ge
      have htakes : taken ++ Moment.takes ⟨b, .connect thread⟩ k = [] := by
        rw [hnone]
        rfl
      rw [b.queues_eq_nil_of_external rfl, List.append_nil, htakes]
      refine ⟨⟨received, underway, ?_, fun c hconn => ?_⟩, fun _ => rfl⟩
      · rw [b.outboxAt_step rfl (by simp), hparts]
      · rw [hstep] at hconn
        obtain ⟨replica, link, hreplica, hlink, rfl⟩ := connection?_eq_some.mp hconn
        rw [Array.getElem?_push, if_pos (hk.trans hheralds.sizes.symm)] at hreplica
        cases hreplica
        rw [List.getElem?_append, if_neg (by omega), hk, Nat.sub_self,
          List.getElem?_cons_zero] at hlink
        cases hlink
        have hacks : wire.acks.toList = [] := by rw [Wire.acks_create hwire]
        have henvelopes := (Wire.carries_create hwire).envelopes
        refine ⟨fun e he => ?_, fun id e he => ?_, ?_, fun ack hack => ?_⟩
        · rw [henvelopes] at he
          cases he
        · exact absurd he (by simp [Replica.create])
        · rw [hacks]
          exact List.nodup_nil
        · rw [hacks] at hack
          cases hack
    · refine h.external rfl (by simp) (by simp) trivial hw hl fun c' hc' => ⟨c', ?_, rfl, fun _ h => h⟩
      rw [hstep] at hc'
      obtain ⟨replica, link, hreplica, hlink, rfl⟩ := connection?_eq_some.mp hc'
      rw [Array.getElem?_push, if_neg (by rw [hheralds.sizes]; exact hk)] at hreplica
      have hlt := (Array.getElem?_eq_some_iff.mp hreplica).1
      rw [List.getElem?_append, if_pos (hheralds.sizes ▸ hlt)] at hlink
      exact connection?_eq_some.mpr ⟨replica, link, hreplica, hlink, rfl⟩
  · refine h.external rfl (by simp) (by simp) trivial hw hl fun c' hc' => ⟨c', ?_, rfl, fun _ h => h⟩
    rwa [hstep] at hc'

/-- A commit sends a consumer nothing that it answers for. -/
theorem commit (h : b.Hears k log taken)
    (hw : b.registry.WellFormed) (hl : (b.step .commit).2.registry.supply.Lasts) :
    (b.step .commit).2.Hears k (log ++ Moment.queues ⟨b, .commit⟩ k)
      (taken ++ Moment.takes ⟨b, .commit⟩ k) := by
  refine h.external rfl (by simp) (by simp) trivial hw hl fun c' hc' => ?_
  obtain ⟨c, hconn, hreplica, henvelopes⟩ := connection?_of_links
    (P := fun wire wire' => wire'.envelopes = wire.envelopes) hc' (replicas_onRegistry _ _ _)
    fun link' hlink' => by
      have hlink := congrArg (·[k]?) b.courses_commit
      simp only [List.getElem?_map, hlink', Option.map_some] at hlink
      obtain ⟨link, hlink, heq⟩ := Option.map_eq_some_iff.mp hlink.symm
      have henvelopes : link.course.wire.envelopes = link'.course.wire.envelopes :=
        congrArg (fun l : Link => l.wire.envelopes) heq
      exact ⟨link, hlink, henvelopes.symm⟩
  exact ⟨c, hconn, congrArg Replica.pending hreplica, henvelopes ▸ fun _ h => h⟩

/-- A flush sends a consumer all that waits for it, or nothing. -/
theorem flush (h : b.Hears k log taken)
    (hw : b.registry.WellFormed) (hl : (b.step .flush).2.registry.supply.Lasts) :
    (b.step .flush).2.Hears k (log ++ Moment.queues ⟨b, .flush⟩ k)
      (taken ++ Moment.takes ⟨b, .flush⟩ k) := by
  rw [b.queues_eq_nil_of_external rfl]
  have hreplicas : (b.step .flush).2.replicas = b.replicas := replicas_onRegistry _ _ _
  cases hlink : b.registry.links[k]? with
  | none =>
    have hk : b.registry.links.length ≤ k := List.getElem?_eq_none_iff.mp hlink
    refine h.carry [] (by simp) trivial hw hl (fun c' hc' => ?_) ?_
    · obtain ⟨_, link', -, hlink', -⟩ := connection?_eq_some.mp hc'
      rw [List.getElem?_eq_none (b.length_flush ▸ hk)] at hlink'
      cases hlink'
    · rw [Registry.outboxAt_of_le hk, Registry.outboxAt_of_le (b.length_flush ▸ hk)]
  | some link =>
    obtain ⟨link', hlink', hsends⟩ := sends_flush hlink
    have hboxes : b.registry.outboxAt k = link.outbox.toList ∧
        (b.step .flush).2.registry.outboxAt k = link'.outbox.toList := by
      unfold Registry.outboxAt
      rw [hlink, hlink']
      exact ⟨rfl, rfl⟩
    have hold {more : List Outgoing} (henvelopes : ∀ e ∈ link'.wire.envelopes.toList,
        e ∈ link.wire.envelopes.toList ∨ ∃ tick, .create e tick ∈ more) (c' : Connection)
        (hc' : (b.step .flush).2.connection? k = some c') : ∃ c, b.connection? k = some c ∧
          c'.replica.pending = c.replica.pending ∧ ∀ e ∈ c'.wire.envelopes.toList,
            e ∈ c.wire.envelopes.toList ∨ ∃ tick, .create e tick ∈ more := by
      obtain ⟨c, hconn, hreplica, hP⟩ := connection?_of_links
        (P := fun wire wire' => ∀ e ∈ wire'.envelopes.toList, e ∈ wire.envelopes.toList ∨
          ∃ tick, .create e tick ∈ more) hc' hreplicas fun found hfound => by
            rw [hlink'] at hfound
            cases hfound
            exact ⟨link, hlink, henvelopes⟩
      exact ⟨c, hconn, congrArg Replica.pending hreplica, hP⟩
    by_cases hempty : link'.outbox = #[]
    · refine h.carry link.outbox.toList (by simp) trivial hw hl
        (hold hsends.envelopes) ?_
      rw [hboxes.1, hboxes.2, hempty]
    · refine h.carry [] (by simp) trivial hw hl
        (hold fun e he => .inl (hsends.stays hempty ▸ he)) ?_
      rcases hsends.outbox with heq | heq
      · rw [hboxes.1, hboxes.2, heq, List.append_nil, List.nil_append]
      · exact absurd heq hempty

/-- A loader that is installed answers for nothing yet. -/
theorem registerLoader (h : b.Hears k log taken) {j : Nat} {type : String} {loader : Loader}
    (hw : b.registry.WellFormed) (hl : (b.step (.registerLoader j type loader)).2.registry.supply.Lasts) :
    (b.step (.registerLoader j type loader)).2.Hears k (log ++ Moment.queues ⟨b, .registerLoader j type loader⟩ k)
      (taken ++ Moment.takes ⟨b, .registerLoader j type loader⟩ k) := by
  refine h.external rfl (by simp) (by simp) trivial hw hl fun c' hc' => ?_
  rcases b.onConnection_cases j
      (modify fun c => c.mapReplica (·.registerLoader type loader)) with
    ⟨-, heq⟩ | ⟨c, hconn, ⟨_, after, hrun, heq⟩ | ⟨_, _, hrun, -⟩⟩
  · rw [show b.step (.registerLoader j type loader) = _ from heq] at hc'
    exact ⟨c', hc', rfl, fun _ h => h⟩
  · cases hrun
    rw [show b.step (.registerLoader j type loader) = _ from heq,
      connection?_setConnection] at hc'
    split at hc'
    · rename_i hjk
      subst hjk
      rw [hconn] at hc'
      cases hc'
      exact ⟨c, hconn, rfl, fun _ h => h⟩
    · exact ⟨c', hc', rfl, fun _ h => h⟩
  · cases hrun

/-- A consumer that is brought to a tick receives all that was sent, and answers for it. -/
theorem update (h : b.Hears k log taken) (hheralds : b.Heralds k log) {j : Nat} {tick : Tick}
    (hw : b.registry.WellFormed) (hl : (b.step (.update j tick)).2.registry.supply.Lasts) :
    (b.step (.update j tick)).2.Hears k (log ++ Moment.queues ⟨b, .update j tick⟩ k)
      (taken ++ Moment.takes ⟨b, .update j tick⟩ k) := by
  have htakes : Moment.takes ⟨b, .update j tick⟩ k = [] := rfl
  have hupdated {after : Connection} (hafter : ∀ c, b.connection? j = some c →
      ∀ received underway, log = received ++ underway ++ b.registry.outboxAt k →
        c.Replies received underway taken → after.Replies (received ++ underway) [] taken)
      (heq : (b.step (.update j tick)).2 = b.setConnection j after) :
      (b.step (.update j tick)).2.Hears k (log ++ Moment.queues ⟨b, .update j tick⟩ k)
        (taken ++ Moment.takes ⟨b, .update j tick⟩ k) := by
    by_cases hjk : j = k
    · subst hjk
      obtain ⟨received, underway, hparts, hreplies⟩ := h.parts
      have hflush : (Action.update j tick) ≠ .flush := by simp
      have houtbox := b.outboxAt_step rfl hflush j
      refine ⟨⟨received ++ underway, [], ?_, fun c' hc' => ?_⟩,
        h.silent_step⟩
      · rw [houtbox, b.queues_eq_nil_of_external rfl, List.append_nil, List.append_nil, hparts]
      · rw [heq, connection?_setConnection, if_pos rfl] at hc'
        obtain ⟨c, hconn, rfl⟩ := Option.map_eq_some_iff.mp hc'
        rw [htakes, List.append_nil]
        exact hafter c hconn received underway hparts (hreplies c hconn)
    · refine h.external rfl (by simp) ?_ trivial hw hl fun c' hc' => ⟨c', ?_, rfl, fun _ h => h⟩
      · rintro tick' htick
        cases htick
        exact hjk rfl
      · rwa [heq, connection?_setConnection, if_neg hjk] at hc'
  rcases b.onConnection_cases j (Connection.update tick) with
    ⟨hnone, heq⟩ | ⟨c, hconn, ⟨_, after, hrun, heq⟩ | ⟨_, after, hrun, heq⟩⟩
  · rw [b.queues_eq_nil_of_external rfl, htakes, List.append_nil, List.append_nil]
    have hsame : (b.step (.update j tick)).2 = b := congrArg Prod.snd heq
    exact hsame.symm ▸ h
  · refine hupdated (fun c' hc' received underway hparts hreplies => ?_) (congrArg Prod.snd heq)
    rw [hconn] at hc'
    cases hc'
    exact (hreplies.ends_update (hparts ▸ hheralds.logs.ordered) tick).of_ok hrun
  · refine hupdated (fun c' hc' received underway hparts hreplies => ?_) (congrArg Prod.snd heq)
    rw [hconn] at hc'
    cases hc'
    exact (hreplies.ends_update (hparts ▸ hheralds.logs.ordered) tick).of_error hrun

/-- Every action continues the log by what it queues and the answers by what it takes in. -/
theorem step (h : b.Hears k log taken) (hheralds : b.Heralds k log) (hc : action.IsCompiled)
    (hw : b.registry.WellFormed) (hl : (b.step action).2.registry.supply.Lasts) :
    (b.step action).2.Hears k (log ++ Moment.queues ⟨b, action⟩ k)
      (taken ++ Moment.takes ⟨b, action⟩ k) := by
  cases hinternal : action.isInternal with
  | true => exact h.internal hinternal hc hw hl
  | false =>
    cases action with
    | setTick tick =>
      exact h.external rfl (by simp) (by simp) hc hw hl fun c' hc' => ⟨c', hc', rfl, fun _ h => h⟩
    | connect thread => exact h.connect hheralds thread hw hl
    | commit => exact h.commit hw hl
    | flush => exact h.flush hw hl
    | registerLoader j type loader => exact h.registerLoader hw hl
    | update j tick => exact h.update hheralds hw hl
    | hangUp j =>
      refine h.external rfl (by simp) (by simp) hc hw hl fun c' hc' => ?_
      obtain ⟨c, hconn, hreplica, henvelopes⟩ := connection?_of_links (b := b)
        (P := fun wire wire' => wire'.envelopes.toList ⊆ wire.envelopes.toList) hc' rfl
        fun link' hlink' => by
          have hlink' : (b.registry.links.modify j fun link =>
            { link with wire := link.wire.hangUp })[k]? = some link' := hlink'
          rw [List.getElem?_modify] at hlink'
          obtain ⟨link, hlink, heq⟩ := Option.map_eq_some_iff.mp hlink'
          refine ⟨link, hlink, ?_⟩
          rw [← heq]
          split
          · exact List.nil_subset _
          · exact fun _ h => h
      exact ⟨c, hconn, congrArg Replica.pending hreplica, henvelopes⟩
    | registerType | createOpaque | createInstance | createString | createBuffer | retain |
      dispose | setProp | setPropFromScript | await | processAcks | elsewhere => cases hinternal

end Hears

end Broadcast

namespace Run

variable {config : Config} {supply : Supply} {past : List Moment} {b : Broadcast}

/-- In every run the consumers answer once for what they have received. -/
theorem hears (h : Run (.opened config supply) past b) (hc : ∀ m ∈ past, m.action.IsCompiled)
    (hl : b.registry.supply.Lasts) (k : Nat) : b.Hears k (queued k past) (answered k past) := by
  refine h.keeps (P := fun past b => b.Hears k (queued k past) (answered k past)) hc hl ?_ ?_
  · exact ⟨⟨[], [], rfl, fun c hconn => by cases hconn⟩, fun _ => rfl⟩
  · intro past b action h hrest hone hlasts hl ih
    exact ih.step (h.heralds hrest hlasts k) hone (h.wellFormed hrest hlasts) hl

/-- A consumer answers at most once for a resource, and only if it was announced to it. -/
theorem answers_once (h : Run (.opened config supply) past b)
    (hc : ∀ m ∈ past, m.action.IsCompiled) (hl : b.registry.supply.Lasts) (k : Nat) :
    ((answered k past ++ b.registry.acksAt k).map Ack.id).Nodup ∧
      ∀ ack ∈ answered k past ++ b.registry.acksAt k, ack.id ∈ created (queued k past) := by
  have hhears := h.hears hc hl k
  obtain ⟨received, underway, hparts, hreplies⟩ := hhears.parts
  have hsizes := h.sizes
  by_cases hk : k < b.registry.links.length
  · have hk' : k < b.replicas.size := hsizes ▸ hk
    have hconn := Broadcast.connection?_eq_some.mpr
      ⟨b.replicas[k], b.registry.links[k], Array.getElem?_eq_getElem _,
        List.getElem?_eq_getElem hk, rfl⟩
    have hreplied := hreplies _ hconn
    rw [Broadcast.acksAt_of_connection? hconn]
    refine ⟨hreplied.once, fun ack hack => ?_⟩
    rw [hparts, List.append_assoc, Outgoing.created_append]
    exact List.mem_append_left _ (hreplied.settled ack hack).1
  · have hnone : b.registry.acksAt k = [] := by
      unfold Registry.acksAt Registry.acks
      rw [List.getElem?_eq_none (by rw [List.length_map]; omega)]
      rfl
    rw [hhears.silent (by omega), hnone]
    exact ⟨List.nodup_nil, fun ack hack => by cases hack⟩

end Run

end Framecast
