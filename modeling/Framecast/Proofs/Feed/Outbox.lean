import Framecast.Proofs.Feed.Heralds
import Framecast.Proofs.Run.Segments

/-!
# Nothing is lost between an outbox and its ring

What was ever pushed to the ring of a link, followed by what still waits in its
outbox, is what was queued for the link, in the order of the calls. Envelopes keep
step with their records. A flush sends the outbox of a link as a whole or leaves it
as it was, however the flush itself ends, since no push fails once the ring was found
to have room.

None of this depends on how updates end. Each of them takes everything off the wire,
also one that fails later.
-/

namespace Framecast

open Outgoing (standing created IsLog)

namespace Outgoing

/-- What is put on a wire for some intents, in order. -/
def allDeliveries (intents : List Outgoing) : List Delivery := intents.flatMap deliveries

variable {intents : List Outgoing} {front back : List Delivery} {record : Record}

/-- The envelope of a creation is put on the wire ahead of its record. -/
theorem envelope_before_record (h : allDeliveries intents = front ++ .record record :: back)
    (hcreate : record.command = .create) :
    ∃ e, .envelope e ∈ front ∧ e.id = record.id := by
  induction intents generalizing front with
  | nil =>
    cases front with
    | nil => cases h
    | cons d front => cases h
  | cons o rest ih =>
    cases o with
    | create e tick =>
      have hall : .envelope e :: .record (Outgoing.create e tick).record :: allDeliveries rest =
          front ++ .record record :: back := h
      rcases front with _ | ⟨d₁, _ | ⟨d₂, before⟩⟩
      · cases (List.cons.inj hall).1
      · obtain ⟨henvelope, htail⟩ := List.cons.inj hall
        cases henvelope
        obtain rfl := Delivery.record.inj (List.cons.inj htail).1
        exact ⟨e, List.mem_singleton_self _, rfl⟩
      · obtain ⟨e', he', hid⟩ := ih (List.cons.inj (List.cons.inj hall).2).2
        exact ⟨e', List.mem_append_right [d₁, d₂] he', hid⟩
    | dispose id tick =>
      have hall : .record (Outgoing.dispose id tick).record :: allDeliveries rest =
          front ++ .record record :: back := h
      rcases front with _ | ⟨d, before⟩
      · cases (List.cons.inj hall).1
        cases hcreate
      · obtain ⟨e', he', hid⟩ := ih (List.cons.inj hall).2
        exact ⟨e', List.mem_cons_of_mem d he', hid⟩

end Outgoing

namespace Wire

variable {wire : Wire} {thread : Thread}

/-- If all of some deliveries succeed, then the first ones do, and each of the others after them. -/
theorem deliver_of_deliverAll {front back : List Delivery} {d : Delivery} {after : Wire}
    (h : wire.deliverAll thread (front ++ d :: back) = (after, none)) :
    ∃ mid next, wire.deliverAll thread front = (mid, none) ∧ mid.deliver thread d = .ok next := by
  induction front generalizing wire with
  | nil =>
    simp only [List.nil_append, deliverAll] at h
    cases hnext : wire.deliver thread d with
    | ok next => exact ⟨wire, next, rfl, hnext⟩
    | error e =>
      rw [hnext] at h
      cases h
  | cons first front ih =>
    simp only [List.cons_append, deliverAll] at h ⊢
    cases hnext : wire.deliver thread first with
    | ok next =>
      rw [hnext] at h
      exact ih h
    | error e =>
      rw [hnext] at h
      cases h

end Wire

namespace Registry

variable {r : Registry} {k : Nat}

/-- The records that wait in the ring of the link at a position. -/
def recordsAt (r : Registry) (k : Nat) : List Record :=
  (r.links[k]?.map (·.wire.ring.popAll.found)).getD []

/-- The envelopes that are under way on the link at a position. -/
def envelopesAt (r : Registry) (k : Nat) : List Envelope :=
  (r.links[k]?.map (·.wire.envelopes.toList)).getD []

/-- The records that a ring holds wait in it. -/
theorem recordsAt_of_holds {link : Link} {queue : List Record} (h : r.links[k]? = some link)
    (hring : link.wire.ring.Holds queue) : r.recordsAt k = queue := by
  obtain ⟨_, hpopped, -⟩ := hring.popAll
  unfold recordsAt
  rw [h, Option.map_some, Option.getD_some, hpopped]

/-- The envelopes on a wire are under way. -/
theorem envelopesAt_of_getElem? {link : Link} (h : r.links[k]? = some link) :
    r.envelopesAt k = link.wire.envelopes.toList := by
  unfold envelopesAt
  rw [h]
  rfl

/-- The link at a position carries some intents, and nothing if there is no link. -/
structure Conveys (r : Registry) (k : Nat) (underway : List Outgoing) : Prop where
  /-- The wire of the link carries them. -/
  carries : ∀ link, r.links[k]? = some link → link.wire.Carries underway
  /-- Nothing is under way on a link that there is not. -/
  unopened : r.links.length ≤ k → underway = []

namespace Conveys

variable {underway : List Outgoing} {r' : Registry}

/-- The records of what a link carries wait in its ring. -/
theorem recordsAt (h : r.Conveys k underway) : r.recordsAt k = underway.map Outgoing.record := by
  cases hlink : r.links[k]? with
  | none =>
    unfold Registry.recordsAt
    rw [hlink, h.unopened (List.getElem?_eq_none_iff.mp hlink)]
    rfl
  | some link => exact recordsAt_of_holds hlink (h.carries link hlink).ring

/-- The envelopes of what a link carries are under way. -/
theorem envelopesAt (h : r.Conveys k underway) :
    r.envelopesAt k = underway.filterMap Outgoing.envelope? := by
  cases hlink : r.links[k]? with
  | none =>
    unfold Registry.envelopesAt
    rw [hlink, h.unopened (List.getElem?_eq_none_iff.mp hlink)]
    rfl
  | some link => exact (envelopesAt_of_getElem? hlink).trans (h.carries link hlink).envelopes

/-- A link carries the same as long as its ring and its envelopes stay. -/
theorem of_transits (h : r.Conveys k underway)
    (htransits : r'.links.map (·.wire.transit) = r.links.map (·.wire.transit)) :
    r'.Conveys k underway := by
  refine ⟨fun link' hlink' => ?_, fun hk => h.unopened ?_⟩
  · have hat := congrArg (·[k]?) htransits
    simp only [List.getElem?_map, hlink', Option.map_some] at hat
    obtain ⟨link, hlink, heq⟩ := Option.map_eq_some_iff.mp hat.symm
    exact (h.carries link hlink).of_transit heq.symm
  · have hlength : r'.links.length = r.links.length := by
      simpa using congrArg List.length htransits
    rwa [hlength] at hk

/-- Changing a link changes what it carries and nothing elsewhere. -/
theorem modifyLink (h : r.Conveys k underway) {j : Nat} {f : Link → Link} {after : List Outgoing}
    (hf : j = k → ∀ link, r.links[k]? = some link → (f link).wire.Carries after)
    (hother : j ≠ k → after = underway) (hnil : r.links.length ≤ k → after = []) :
    (r.modifyLink j f).Conveys k after := by
  refine ⟨fun link' hlink' => ?_, fun hk => hnil ?_⟩
  · have hlink' : (r.links.modify j f)[k]? = some link' := hlink'
    rw [List.getElem?_modify] at hlink'
    obtain ⟨link, hlink, rfl⟩ := Option.map_eq_some_iff.mp hlink'
    by_cases hjk : j = k
    · rw [if_pos hjk]
      exact hf hjk link hlink
    · rw [if_neg hjk, hother hjk]
      exact h.carries link hlink
  · have hlength : (r.modifyLink j f).links.length = r.links.length := List.length_modify _ _ _
    rwa [hlength] at hk

end Conveys

end Registry

/-- Whether consumer `k` does not go away. -/
def Moment.Stays (m : Moment) (k : Nat) : Prop :=
  match m.action with
  | .hangUp j => j ≠ k
  | _ => True

theorem Moment.stays_iff (m : Moment) (k : Nat) : m.action.hangsUp k = false ↔ m.Stays k := by
  obtain ⟨before, action⟩ := m
  cases action <;> simp [Stays, Action.hangsUp]

instance (m : Moment) (k : Nat) : Decidable (m.Stays k) :=
  decidable_of_iff _ (m.stays_iff k)

namespace Moment

/-- What the action pushes to the ring of link `k`. -/
def pushes (m : Moment) (k : Nat) : List Record :=
  (m.after.registry.recordsAt k).drop (m.before.registry.recordsAt k).length

/-- The envelopes that the action sends over link `k`. -/
def sends (m : Moment) (k : Nat) : List Envelope :=
  (m.after.registry.envelopesAt k).drop (m.before.registry.envelopesAt k).length

end Moment

/-- The records that were ever pushed to the ring of link `k`. -/
def pushed (k : Nat) : List Moment → List Record
  | [] => []
  | m :: past => pushed k past ++ m.pushes k

/-- The envelopes that were ever sent over link `k`. -/
def sent (k : Nat) : List Moment → List Envelope
  | [] => []
  | m :: past => sent k past ++ m.sends k

/-- What an action makes of the outbox of link `k` and of what the link carries. -/
inductive Broadcast.Passes (b : Broadcast) (k : Nat) (underway : List Outgoing) (after : Broadcast)
    (queues : List Outgoing) : List Outgoing → Prop
  /-- Nothing is sent or taken; more may be queued. -/
  | kept (houtbox : after.registry.outboxAt k = b.registry.outboxAt k ++ queues) :
    Passes b k underway after queues underway
  /-- Everything is taken off the wire. -/
  | taken (houtbox : after.registry.outboxAt k = b.registry.outboxAt k) (hqueues : queues = []) :
    Passes b k underway after queues []
  /-- The whole outbox is sent. -/
  | sent (houtbox : after.registry.outboxAt k = []) (hqueues : queues = []) :
    Passes b k underway after queues (underway ++ b.registry.outboxAt k)

namespace Broadcast

variable {b : Broadcast} {action : Action} {k : Nat} {underway : List Outgoing}

/-- A flush sends the outbox of a link as a whole or leaves it, and what the link carries
accordingly. -/
theorem passes_flush (h : b.registry.Conveys k underway) :
    ∃ after, (b.step .flush).2.registry.Conveys k after ∧
      ((after = underway ∧ (b.step .flush).2.registry.outboxAt k = b.registry.outboxAt k) ∨
        (after = underway ++ b.registry.outboxAt k ∧
          (b.step .flush).2.registry.outboxAt k = [])) := by
  cases hlink : b.registry.links[k]? with
  | none =>
    have hk := List.getElem?_eq_none_iff.mp hlink
    have hk' : (b.step .flush).2.registry.links.length ≤ k := by rwa [b.length_flush]
    refine ⟨underway, ⟨fun link' hlink' => ?_, fun _ => h.unopened hk⟩, .inl ⟨rfl, ?_⟩⟩
    · rw [List.getElem?_eq_none hk'] at hlink'
      cases hlink'
    · rw [Registry.outboxAt_of_le hk', Registry.outboxAt_of_le hk]
  | some link =>
    have hk : k < b.registry.links.length := (List.getElem?_eq_some_iff.mp hlink).1
    obtain ⟨link', hlink', hcases, -⟩ := step_flush hlink (h.carries link hlink)
    have hconveys {after : List Outgoing} (hcarries : link'.wire.Carries after) :
        (b.step .flush).2.registry.Conveys k after := by
      refine ⟨fun other hother => ?_, fun hle => ?_⟩
      · rw [hlink'] at hother
        cases hother
        exact hcarries
      · rw [b.length_flush] at hle
        exact absurd hk (Nat.not_lt_of_le hle)
    have hbefore := Registry.outboxAt_of_getElem? hlink
    have hafter := Registry.outboxAt_of_getElem? hlink'
    rcases hcases with ⟨houtbox, hcarries⟩ | ⟨houtbox, hcarries⟩
    · exact ⟨underway, hconveys hcarries, .inl ⟨rfl, by rw [hafter, hbefore, houtbox]⟩⟩
    · exact ⟨_, hconveys hcarries, .inr ⟨by rw [hbefore], by rw [hafter, houtbox]⟩⟩

/-- A new link carries nothing, and the others carry what they did. -/
theorem conveys_connect (h : b.registry.Conveys k underway) (thread : Thread) :
    (b.step (.connect thread)).2.registry.Conveys k underway := by
  rcases b.step_connect thread with ⟨wire, hwire, hstep⟩ | ⟨e, hstep⟩
  · rw [hstep]
    refine ⟨fun link hlink => ?_, fun hk => h.unopened ?_⟩
    · have hlink : (b.registry.links ++ [⟨thread, #[], wire⟩])[k]? = some link := hlink
      rcases Nat.lt_or_ge k b.registry.links.length with hk | hk
      · rw [List.getElem?_append_left hk] at hlink
        exact h.carries link hlink
      · rw [List.getElem?_append_right hk, List.getElem?_singleton] at hlink
        split at hlink
        · cases hlink
          rw [h.unopened hk]
          exact Wire.carries_create hwire
        · cases hlink
    · rw [List.length_append] at hk
      exact (Nat.le_add_right _ _).trans hk
  · rw [hstep]
    exact h

/-- A commit changes nothing of what a link carries. -/
theorem conveys_commit (h : b.registry.Conveys k underway) :
    (b.step .commit).2.registry.Conveys k underway := by
  apply h.of_transits
  have hlinks := congrArg (List.map fun link => link.wire) b.courses_commit
  rw [List.map_map, List.map_map] at hlinks
  exact hlinks

/-- A consumer leaves on its wire what its operation leaves there, and touches no other wire. -/
theorem conveys_onConnection (h : b.registry.Conveys k underway)
    (hsizes : b.replicas.size = b.registry.links.length) {α : Type} (j : Nat) (m : ConnectionM α)
    {left : List Outgoing} (hother : j ≠ k → left = underway) (hnil : underway = [] → left = [])
    (hends : j = k → ∀ c : Connection, c.wire.Carries underway →
      Ends m c (fun _ after => after.wire.Carries left) (fun _ after => after.wire.Carries left)) :
    (b.onConnection j m).2.registry.Conveys k left := by
  rcases b.onConnection_cases j m with ⟨hnone, heq⟩ | ⟨c, hconn, hcases⟩
  · rw [heq]
    by_cases hjk : j = k
    · subst hjk
      refine ⟨fun link hlink => ?_, fun hk => hnil (h.unopened hk)⟩
      have hj : j < b.replicas.size := hsizes ▸ (List.getElem?_eq_some_iff.mp hlink).1
      have hsome := connection?_eq_some.mpr
        ⟨_, link, Array.getElem?_eq_getElem hj, hlink, rfl⟩
      rw [hnone] at hsome
      cases hsome
    · rw [hother hjk]
      exact h
  · obtain ⟨after, heq, hafter⟩ : ∃ after : Connection,
        (b.onConnection j m).2 = b.setConnection j after ∧
          (j = k → after.wire.Carries left) := by
      obtain ⟨replica, link, -, hlink, rfl⟩ := connection?_eq_some.mp hconn
      rcases hcases with ⟨_, after, hrun, heq⟩ | ⟨_, after, hrun, heq⟩
      · refine ⟨after, by rw [heq], fun hjk => ?_⟩
        exact (hends hjk _ (h.carries link (hjk ▸ hlink))).of_ok hrun
      · refine ⟨after, by rw [heq], fun hjk => ?_⟩
        exact (hends hjk _ (h.carries link (hjk ▸ hlink))).of_error hrun
    rw [heq]
    exact h.modifyLink (fun hjk _ _ => hafter hjk) hother fun hk => hnil (h.unopened hk)

/-- However an update ends, it takes everything off its wire. -/
theorem conveys_update (h : b.registry.Conveys k underway)
    (hsizes : b.replicas.size = b.registry.links.length) (tick : Tick) :
    (b.step (.update k tick)).2.registry.Conveys k [] := by
  refine conveys_onConnection h hsizes k _ (fun hne => absurd rfl hne) (fun _ => rfl)
    fun _ c hcarries => ?_
  obtain ⟨ring, hring, hdrained⟩ :
      ∃ ring : RecordRing, ring.Holds [] ∧ c.replica.gate.drain c.wire.ring tick = _ :=
    TickGate.drain_eq hcarries.ring tick
  apply (Connection.ends_update_wire tick c).imp
  · rintro _ after ⟨acks, hwire⟩
    rw [hwire, hdrained]
    exact ⟨hcarries.receiving, hring, rfl⟩
  · rintro _ after ⟨acks, hwire⟩
    rw [hwire, hdrained]
    exact ⟨hcarries.receiving, hring, rfl⟩

/-- Every action passes on what waits. -/
theorem passes_step (h : b.registry.Conveys k underway)
    (hsizes : b.replicas.size = b.registry.links.length) (hstays : Moment.Stays ⟨b, action⟩ k) :
    ∃ after, (b.step action).2.registry.Conveys k after ∧
      b.Passes k underway (b.step action).2 (Moment.queues ⟨b, action⟩ k) after := by
  cases hinternal : action.isInternal with
  | true =>
    exact ⟨underway, h.of_transits (transits_step hinternal),
      .kept (Moment.outboxAt_internal b hinternal k).1⟩
  | false =>
    have hqueues := b.queues_eq_nil_of_external hinternal k
    by_cases hflush : action = .flush
    · subst hflush
      obtain ⟨after, hconveys, ⟨rfl, houtbox⟩ | ⟨rfl, houtbox⟩⟩ := b.passes_flush h
      · exact ⟨_, hconveys, .kept (by rw [houtbox, hqueues, List.append_nil])⟩
      · exact ⟨_, hconveys, .sent houtbox hqueues⟩
    have houtbox := b.outboxAt_step hinternal hflush k
    have hkept (hconveys : (b.step action).2.registry.Conveys k underway) :
        ∃ after, (b.step action).2.registry.Conveys k after ∧
          b.Passes k underway (b.step action).2 (Moment.queues ⟨b, action⟩ k) after :=
      ⟨underway, hconveys, .kept (by rw [houtbox, hqueues, List.append_nil])⟩
    cases action with
    | setTick tick => exact hkept ⟨h.carries, h.unopened⟩
    | connect thread => exact hkept (conveys_connect h thread)
    | commit => exact hkept (conveys_commit h)
    | flush => exact absurd rfl hflush
    | registerLoader j type loader =>
      exact hkept (conveys_onConnection h hsizes j _ (fun _ => rfl) (fun hnil => hnil)
        fun _ _ hcarries => hcarries)
    | update j tick =>
      by_cases hjk : j = k
      · subst hjk
        exact ⟨[], conveys_update h hsizes tick, .taken houtbox hqueues⟩
      · exact hkept (conveys_onConnection h hsizes j _ (fun _ => rfl) (fun hnil => hnil)
          fun heq => absurd heq hjk)
    | hangUp j =>
      exact hkept (h.modifyLink (fun hjk => absurd hjk hstays) (fun _ => rfl) h.unopened)
    | registerType | createOpaque | createInstance | createString | createBuffer | retain |
      dispose | setProp | setPropFromScript | await | processAcks | elsewhere => cases hinternal

/-- What an action queues holds from the tick that was set when it began. -/
theorem tick_of_queues (b : Broadcast) (action : Action) (k : Nat) :
    ∀ o ∈ Moment.queues ⟨b, action⟩ k, o.tick = b.registry.tick := by
  intro o ho
  cases hinternal : action.isInternal with
  | true =>
    exact (Moment.outboxAt_internal b hinternal k).2 o ho
  | false =>
    rw [b.queues_eq_nil_of_external hinternal k] at ho
    cases ho

end Broadcast

/-- Whether an action sends the outbox of link `k` as a whole, records and envelopes, or sends nothing
and leaves what waits there. -/
inductive Moment.SendsWhole (m : Moment) (k : Nat) : Prop
  /-- Nothing is sent. -/
  | kept (houtbox : m.after.registry.outboxAt k = m.before.registry.outboxAt k ++ m.queues k)
      (hpushes : m.pushes k = []) (hsends : m.sends k = [])
  /-- Everything is sent. -/
  | sent (houtbox : m.after.registry.outboxAt k = []) (hqueues : m.queues k = [])
      (hpushes : m.pushes k = (m.before.registry.outboxAt k).map Outgoing.record)
      (hsends : m.sends k = (m.before.registry.outboxAt k).filterMap Outgoing.envelope?)

/-- What is passed on is sent as a whole. -/
theorem Broadcast.Passes.sendsWhole {m : Moment} {k : Nat} {underway after : List Outgoing}
    (h : m.before.Passes k underway m.after (m.queues k) after)
    (hbefore : m.before.registry.Conveys k underway) (hafter : m.after.registry.Conveys k after) :
    m.SendsWhole k := by
  have hpushes : m.pushes k = (after.map Outgoing.record).drop underway.length := by
    unfold Moment.pushes
    rw [hbefore.recordsAt, hafter.recordsAt, List.length_map]
  have hsends : m.sends k = (after.filterMap Outgoing.envelope?).drop
      (underway.filterMap Outgoing.envelope?).length := by
    unfold Moment.sends
    rw [hbefore.envelopesAt, hafter.envelopesAt]
  cases h with
  | kept houtbox =>
    refine .kept houtbox ?_ ?_
    · rw [hpushes, ← List.length_map, List.drop_length]
    · rw [hsends, List.drop_length]
  | taken houtbox hqueues =>
    refine .kept ?_ ?_ ?_
    · rw [houtbox, hqueues, List.append_nil]
    · rw [hpushes, List.map_nil, List.drop_nil]
    · rw [hsends, List.filterMap_nil, List.drop_nil]
  | sent houtbox hqueues =>
    refine .sent houtbox hqueues ?_ ?_
    · rw [hpushes, List.map_append, ← List.length_map (f := Outgoing.record), List.drop_left]
    · rw [hsends, List.filterMap_append, List.drop_left]

/-- Whether an action leaves link `k` entirely as it was, or sends its outbox as a whole, records and
envelopes. -/
inductive Moment.FlushesWhole (m : Moment) (k : Nat) : Prop
  /-- Nothing is sent, and nothing else waits. -/
  | kept (houtbox : m.after.registry.outboxAt k = m.before.registry.outboxAt k)
      (hpushes : m.pushes k = []) (hsends : m.sends k = [])
  /-- Everything is sent, and nothing waits. -/
  | sent (houtbox : m.after.registry.outboxAt k = [])
      (hpushes : m.pushes k = (m.before.registry.outboxAt k).map Outgoing.record)
      (hsends : m.sends k = (m.before.registry.outboxAt k).filterMap Outgoing.envelope?)

/-- An action that queues nothing leaves a link as it was if it sends nothing. -/
theorem Moment.SendsWhole.flushesWhole {m : Moment} {k : Nat} (h : m.SendsWhole k)
    (hqueues : m.queues k = []) : m.FlushesWhole k := by
  cases h with
  | kept houtbox hpushes hsends =>
    rw [hqueues, List.append_nil] at houtbox
    exact .kept houtbox hpushes hsends
  | sent houtbox _ hpushes hsends => exact .sent houtbox hpushes hsends

/-- What has become of the intents that were queued for link `k` in a run. -/
structure Conserves (k : Nat) (past : List Moment) (b : Broadcast) : Prop where
  /-- The records that were pushed, and then those that wait, are those of the intents in the order of
  the calls. -/
  records : pushed k past ++ (b.registry.outboxAt k).map Outgoing.record =
    (queued k past).map Outgoing.record
  /-- The envelopes that were sent, and then those that wait, are those of the creations. -/
  envelopes : sent k past ++ (b.registry.outboxAt k).filterMap Outgoing.envelope? =
    (queued k past).filterMap Outgoing.envelope?
  /-- Every intent holds from the tick that was set at its call. -/
  stamped : ∀ m ∈ past, ∀ o ∈ m.queues k, o.tick = m.before.registry.tick
  /-- Until the numbers come around, nothing is created twice, and only what stands is disposed
  of. -/
  ordered : b.registry.supply.Lasts → IsLog (queued k past)
  /-- Until then, what was created and not disposed of are the live resources that are bound to the
  link. -/
  standing : b.registry.supply.Lasts → ∀ id, id ∈ standing (queued k past) ↔
    ∃ res, b.registry.resource? id = some res ∧ res.IsBoundTo k
  /-- Until then, no number is sent with two envelopes. -/
  once : b.registry.supply.Lasts → ((sent k past).map Envelope.id).Nodup
  /-- No flush, however it ended, queued anything or sent a part of the outbox. -/
  whole : ∀ m ∈ past, m.action = .flush → m.queues k = [] ∧ m.FlushesWhole k
  /-- If the ring has room for the outbox, nothing that a flush puts on the wire fails, and the flush
  of the link sends everything. -/
  room : ∀ link, b.registry.links[k]? = some link → link.outbox.size ≤ link.wire.ring.free →
    (Registry.flushLink link).2 = none ∧ (Registry.flushLink link).1.outbox = #[] ∧
      ∀ front d back, Outgoing.allDeliveries link.outbox.toList = front ++ d :: back →
        ∃ mid next, link.wire.deliverAll link.thread front = (mid, none) ∧
          mid.deliver link.thread d = .ok next
  /-- The envelope of a creation goes ahead of its record. -/
  ahead : ∀ link, b.registry.links[k]? = some link → ∀ front record back,
    Outgoing.allDeliveries link.outbox.toList = front ++ .record record :: back →
      record.command = .create → ∃ e, .envelope e ∈ front ∧ e.id = record.id

namespace Run

variable {config : Config} {supply : Supply} {past : List Moment} {b : Broadcast} {k : Nat}

/-- A link whose consumer stays conveys what was sent over it, and that and what waits is what was
queued. -/
theorem conveys (h : Run (.opened config supply) past b) (hstays : ∀ m ∈ past, m.Stays k) :
    (∃ underway, b.registry.Conveys k underway) ∧ (∀ m ∈ past, m.SendsWhole k) ∧
      pushed k past ++ (b.registry.outboxAt k).map Outgoing.record =
        (queued k past).map Outgoing.record ∧
      sent k past ++ (b.registry.outboxAt k).filterMap Outgoing.envelope? =
        (queued k past).filterMap Outgoing.envelope? := by
  induction h with
  | nil =>
    refine ⟨⟨[], fun link hlink => ?_, fun _ => rfl⟩, fun m hm => ?_, rfl, rfl⟩
    · cases hlink
    · cases hm
  | @snoc past b h action ih =>
    obtain ⟨hstay, hstays⟩ := List.forall_mem_cons.mp hstays
    obtain ⟨⟨underway, hconveys⟩, hwhole, hrecords, henvelopes⟩ := ih hstays
    obtain ⟨after, hafter, hpasses⟩ := Broadcast.passes_step hconveys h.sizes hstay
    have hlast : Moment.SendsWhole ⟨b, action⟩ k := hpasses.sendsWhole hconveys hafter
    refine ⟨⟨after, hafter⟩, fun m hm => ?_, ?_, ?_⟩
    · rcases List.mem_cons.mp hm with rfl | hm
      · exact hlast
      · exact hwhole m hm
    · rw [pushed, queued, List.map_append, ← hrecords, List.append_assoc, List.append_assoc]
      congr 1
      cases hlast with
      | kept houtbox hpushes _ =>
        show _ ++ List.map _ (Moment.after ⟨b, action⟩ |>.registry.outboxAt k) = _
        rw [hpushes, houtbox, List.map_append, List.nil_append]
      | sent houtbox hqueues hpushes _ =>
        show _ ++ List.map _ (Moment.after ⟨b, action⟩ |>.registry.outboxAt k) = _
        rw [hpushes, houtbox, hqueues]
    · rw [sent, queued, List.filterMap_append, ← henvelopes, List.append_assoc, List.append_assoc]
      congr 1
      cases hlast with
      | kept houtbox _ hsends =>
        show _ ++ List.filterMap _ (Moment.after ⟨b, action⟩ |>.registry.outboxAt k) = _
        rw [hsends, houtbox, List.filterMap_append, List.nil_append]
      | sent houtbox hqueues _ hsends =>
        show _ ++ List.filterMap _ (Moment.after ⟨b, action⟩ |>.registry.outboxAt k) = _
        rw [hsends, houtbox, hqueues]

/-- Whatever was done, nothing that was queued for a link whose consumer stays is lost, doubled,
reordered or sent in part. -/
theorem conserves (h : Run (.opened config supply) past b) (hc : ∀ m ∈ past, m.action.IsCompiled)
    (hstays : ∀ m ∈ past, m.Stays k) : Conserves k past b := by
  obtain ⟨⟨underway, hconveys⟩, hwhole, hrecords, henvelopes⟩ := h.conveys hstays
  refine ⟨hrecords, henvelopes, fun m _ => m.before.tick_of_queues m.action k,
    fun hl => (h.heralds hc hl k).logs.ordered, fun hl => (h.heralds hc hl k).logs.standing,
    fun hl => ?_, ?_, fun link hlink hfits => ?_,
    fun link _ front record back hall hcreate => Outgoing.envelope_before_record hall hcreate⟩
  · have hnodup := (h.heralds hc hl k).logs.ordered.nodup_created
    unfold created at hnodup
    rw [← henvelopes, List.map_append] at hnodup
    exact hnodup.of_append_left
  · rintro ⟨before, action⟩ hm rfl
    have hqueues := Broadcast.queues_eq_nil_of_external before (rfl : Action.isInternal .flush = false) k
    exact ⟨hqueues, (hwhole _ hm).flushesWhole hqueues⟩
  · have hcarries := hconveys.carries link hlink
    obtain ⟨after, hdelivered, -⟩ : ∃ after, link.wire.deliverAll link.thread
        (Outgoing.allDeliveries link.outbox.toList) = (after, none) ∧ _ :=
      hcarries.deliverAll link.thread hfits
    unfold Outgoing.allDeliveries at hdelivered
    have hflush : Registry.flushLink link = ({ link with outbox := #[], wire := after }, none) := by
      unfold Registry.flushLink
      rw [if_neg (Nat.not_lt_of_le hfits), hdelivered]
    refine ⟨by rw [hflush], by rw [hflush], fun front d back hall => ?_⟩
    unfold Outgoing.allDeliveries at hall
    rw [hall] at hdelivered
    exact Wire.deliver_of_deliverAll hdelivered

end Run

namespace Samples

/-- Nodes that come and go under ticks that go backwards. The first flush sends everything, the second
finds no room. -/
def crowded : List Moment × Broadcast :=
  (Broadcast.opened ⟨.game, 4⟩ ⟨0, .initial⟩).play
    [.connect .render,
      .setTick 5,
      .createInstance ⟨0, node⟩ [] {},
      .setTick 3,
      .createInstance ⟨0, node⟩ [] {},
      .dispose 1,
      .flush,
      .createInstance ⟨0, node⟩ [] {},
      .createInstance ⟨0, node⟩ [] {},
      .flush,
      .setTick 9,
      .dispose 2]

theorem isCompiled_crowded : ∀ m ∈ crowded.1, m.action.IsCompiled :=
  Broadcast.isCompiled_play _ (by simp [Action.IsCompiled, isCompiled_node])

/-- What the first flush pushed is in the ring, and the rest waits whole, in order and under its
ticks. -/
theorem conserves_crowded :
    crowded.2.registry.supply.Lasts ∧ (∀ m ∈ crowded.1, m.Stays 0) ∧ Conserves 0 crowded.1 crowded.2 ∧
      pushed 0 crowded.1 = [⟨.create, 5, 1⟩, ⟨.create, 3, 2⟩, ⟨.dispose, 3, 1⟩] ∧
      (crowded.2.registry.outboxAt 0).map Outgoing.record =
        [⟨.create, 3, 3⟩, ⟨.create, 3, 4⟩, ⟨.dispose, 9, 2⟩] := by
  have hlasts : crowded.2.registry.supply.Lasts := by decide +kernel
  have hstays : ∀ m ∈ crowded.1, m.Stays 0 := by decide +kernel
  have hrun : Run (.opened ⟨.game, 4⟩ ⟨0, .initial⟩) crowded.1 crowded.2 := .play _ _
  exact ⟨hlasts, hstays, Run.conserves hrun isCompiled_crowded hstays, by decide +kernel,
    by decide +kernel⟩

end Samples

end Framecast
