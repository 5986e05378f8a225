import Framecast.Proofs.Frames.Coherence
import Framecast.Proofs.Loaders.Pairing

/-!
# The consumers of a producer

A link brings its consumer the envelopes of its log, each at most once and in turn, and a
log announces a number once. So every consumer of a producer goes through a `ReplicaRun` in
which no two envelopes have one number, and the calls to its loaders come in pairs.
-/

namespace Framecast

/-- The envelope that is put on a wire, if it is one. -/
def Delivery.envelope? : Delivery → Option Envelope
  | .envelope e => some e
  | .record _ => none

/-- The envelopes that are put on a wire for some intents are those that announce something. -/
theorem Outgoing.envelopes_deliveries (os : List Outgoing) :
    (os.flatMap Outgoing.deliveries).filterMap Delivery.envelope? =
      os.filterMap Outgoing.envelope? := by
  induction os with
  | nil => rfl
  | cons o rest ih =>
    rw [List.flatMap_cons, List.filterMap_append, ih]
    cases o <;> rfl

namespace Wire

/-- One thing that is put on a wire adds its envelope. -/
theorem envelopes_deliver {wire after : Wire} {thread : Thread} {d : Delivery}
    (h : wire.deliver thread d = .ok after) :
    after.envelopes.toList = wire.envelopes.toList ++ d.envelope?.toList := by
  unfold deliver at h
  split at h
  · split at h
    · cases h
      exact Array.toList_push
    · cases h
  · split at h
    · cases h
      exact (List.append_nil _).symm
    · cases h

/-- Several things that are put on a wire add some of their envelopes in turn, also where it fails.
-/
theorem envelopes_deliverAll (wire : Wire) (thread : Thread) (ds : List Delivery) :
    (wire.deliverAll thread ds).1.envelopes.toList.Sublist
      (wire.envelopes.toList ++ ds.filterMap Delivery.envelope?) := by
  induction ds generalizing wire with
  | nil => exact List.sublist_append_left _ _
  | cons d rest ih =>
    have hall : (d :: rest).filterMap Delivery.envelope? =
        d.envelope?.toList ++ rest.filterMap Delivery.envelope? := by
      rw [List.filterMap_cons]
      cases d.envelope? <;> rfl
    unfold deliverAll
    split
    · rename_i after hafter
      rw [hall, ← List.append_assoc, ← envelopes_deliver hafter]
      exact ih after
    · exact List.sublist_append_left _ _

end Wire

/-- A link that is flushed puts envelopes of its outbox on the wire in turn. -/
theorem Registry.envelopes_flushLink (link : Link) :
    (flushLink link).1.wire.envelopes.toList.Sublist
      (link.wire.envelopes.toList ++ link.outbox.toList.filterMap Outgoing.envelope?) ∧
      ((flushLink link).1.outbox = #[] ∨ (flushLink link).1 = link) := by
  unfold flushLink
  split
  · exact ⟨List.sublist_append_left _ _, .inr rfl⟩
  · rw [← Outgoing.envelopes_deliveries]
    exact ⟨Wire.envelopes_deliverAll _ _ _, .inl rfl⟩

namespace Connection

variable {c : Connection} {sent more : List Outgoing}

/-- After an update nothing is under way, whether it succeeds or not. -/
theorem ends_update_envelopes (tick : Tick) (c : Connection) :
    Ends (update tick) c (fun _ after => after.wire.envelopes = #[])
      (fun _ after => after.wire.envelopes = #[]) :=
  ends_update_applies (P := fun _ c => c.wire.envelopes = #[])
    (fun _ _ _ _ h happlies => happlies.envelopes.trans h) tick [] rfl

/-- A consumer has gone through a run of its own, and what it has received and is being sent are
envelopes of these intents, in turn. -/
def DrawsOn (c : Connection) (sent : List Outgoing) : Prop :=
  ∃ received log, ReplicaRun received [] log c ∧
    (received ++ c.wire.envelopes.toList).Sublist (sent.filterMap Outgoing.envelope?)

/-- A consumer draws on what the far end puts on its wire besides, in turn. -/
theorem DrawsOn.feed (h : c.DrawsOn sent) {wire : Wire}
    (hwire : wire.envelopes.toList.Sublist
      (c.wire.envelopes.toList ++ more.filterMap Outgoing.envelope?)) :
    DrawsOn ⟨c.replica, wire⟩ (sent ++ more) := by
  obtain ⟨received, log, hrun, hsub⟩ := h
  refine ⟨received, log, hrun.fed wire, ?_⟩
  rw [List.filterMap_append]
  refine ((List.Sublist.refl received).append hwire).trans ?_
  rw [← List.append_assoc]
  exact hsub.append (List.Sublist.refl _)

/-- A consumer that is updated draws on the same intents. -/
theorem DrawsOn.ends_update (h : c.DrawsOn sent) (tick : Tick) :
    Ends (update tick) c (fun _ after => after.DrawsOn sent)
      (fun _ after => after.DrawsOn sent) := by
  obtain ⟨received, log, hrun, hsub⟩ := h
  have henvelopes := ends_update_envelopes tick c
  unfold Ends at henvelopes ⊢
  cases hafter : (update tick).run c with
  | ok _ after =>
    rw [hafter] at henvelopes
    refine ⟨_, _, hrun.updated tick hafter, ?_⟩
    rw [show after.wire.envelopes = #[] from henvelopes]
    exact (List.append_nil _).symm ▸ hsub
  | error e after =>
    rw [hafter] at henvelopes
    refine ⟨_, _, hrun.failed tick hafter, ?_⟩
    rw [show after.wire.envelopes = #[] from henvelopes]
    exact (List.append_nil _).symm ▸ hsub

end Connection

namespace Broadcast

variable {b : Broadcast} {action : Action} {j k : Nat} {log : List Outgoing}

/-- The consumer of a link draws on the part of its log that does not wait to be sent. -/
def Informs (b : Broadcast) (k : Nat) (log : List Outgoing) : Prop :=
  ∃ sent, log = sent ++ b.registry.outboxAt k ∧ ∀ c, b.connection? k = some c → c.DrawsOn sent

namespace Informs

/-- An action that leaves the replicas alone goes on informing them if it only puts what was sent on
a wire, in turn. -/
theorem relink (h : b.Informs k log) (hreplicas : (b.step action).2.replicas = b.replicas)
    {log' : List Outgoing}
    (hsends : ∀ sent, log = sent ++ b.registry.outboxAt k →
      ∃ more, log' = (sent ++ more) ++ (b.step action).2.registry.outboxAt k ∧
        ∀ link', (b.step action).2.registry.links[k]? = some link' →
          ∃ link, b.registry.links[k]? = some link ∧ link'.wire.envelopes.toList.Sublist
            (link.wire.envelopes.toList ++ more.filterMap Outgoing.envelope?)) :
    (b.step action).2.Informs k log' := by
  obtain ⟨sent, hlog, hdraws⟩ := h
  obtain ⟨more, hlog', hlinks⟩ := hsends sent hlog
  refine ⟨sent ++ more, hlog', fun c hconn => ?_⟩
  obtain ⟨replica, link', hreplica, hlink', rfl⟩ := connection?_eq_some.mp hconn
  obtain ⟨link, hlink, hsub⟩ := hlinks link' hlink'
  rw [hreplicas] at hreplica
  exact (hdraws _ (connection?_eq_some.mpr ⟨replica, link, hreplica, hlink, rfl⟩)).feed hsub

/-- An action that queues nothing and sends nothing goes on informing the consumer. -/
theorem beside (h : b.Informs k log) (hexternal : action.isInternal = false)
    (hflush : action ≠ .flush) (hreplicas : (b.step action).2.replicas = b.replicas)
    (hlinks : ∀ link', (b.step action).2.registry.links[k]? = some link' →
      ∃ link, b.registry.links[k]? = some link ∧
        link'.wire.envelopes.toList.Sublist link.wire.envelopes.toList) :
    (b.step action).2.Informs k (log ++ Moment.queues ⟨b, action⟩ k) := by
  rw [b.queues_eq_nil_of_external hexternal, List.append_nil]
  refine h.relink hreplicas fun sent hlog => ⟨[], ?_, fun link' hlink' => ?_⟩
  · rw [List.append_nil, b.outboxAt_step hexternal hflush, hlog]
  · obtain ⟨link, hlink, hsub⟩ := hlinks link' hlink'
    exact ⟨link, hlink, (List.append_nil _).symm ▸ hsub⟩

/-- An action on the resources of the producer only lengthens what waits to be sent. -/
theorem internal (h : b.Informs k log) (hinternal : action.isInternal = true) :
    (b.step action).2.Informs k (log ++ Moment.queues ⟨b, action⟩ k) := by
  refine h.relink (replicas_step hinternal) fun sent hlog => ⟨[], ?_, fun link' hlink' => ?_⟩
  · rw [(Moment.outboxAt_internal b hinternal k).1, hlog, List.append_nil, List.append_assoc]
  · have hlink := congrArg (·[k]?) (transits_step (b := b) hinternal)
    simp only [List.getElem?_map, hlink', Option.map_some] at hlink
    obtain ⟨link, hlink, heq⟩ := Option.map_eq_some_iff.mp hlink.symm
    have henvelopes : link.wire.transit.envelopes = link'.wire.transit.envelopes :=
      congrArg Wire.envelopes heq
    have henvelopes : link.wire.envelopes = link'.wire.envelopes := henvelopes
    refine ⟨link, hlink, ?_⟩
    rw [henvelopes]
    exact List.sublist_append_left _ _

/-- A flush sends what waits, or leaves it. -/
theorem flush (h : b.Informs k log) :
    (b.step .flush).2.Informs k (log ++ Moment.queues ⟨b, .flush⟩ k) := by
  rw [b.queues_eq_nil_of_external rfl, List.append_nil]
  have hreplicas : (b.step .flush).2.replicas = b.replicas := replicas_onRegistry _ _ _
  refine h.relink hreplicas fun sent hlog => ?_
  cases hlink : b.registry.links[k]? with
  | none =>
    have hk : b.registry.links.length ≤ k := List.getElem?_eq_none_iff.mp hlink
    have hnone : (b.step .flush).2.registry.links[k]? = none :=
      List.getElem?_eq_none_iff.mpr (by rwa [b.length_flush])
    refine ⟨[], ?_, fun link' hlink' => ?_⟩
    · rw [List.append_nil, hlog, Registry.outboxAt_of_le hk,
        Registry.outboxAt_of_le (by rwa [b.length_flush])]
    · rw [hnone] at hlink'
      cases hlink'
  | some link =>
    obtain ⟨mid, link', hlink', houtbox, henvelopes, hcases⟩ := flush_link hlink
    have hat : b.registry.outboxAt k = mid.outbox.toList := by
      unfold Registry.outboxAt
      rw [hlink, houtbox]
      rfl
    have hat' : (b.step .flush).2.registry.outboxAt k = link'.outbox.toList := by
      unfold Registry.outboxAt
      rw [hlink']
      rfl
    have hkept (heq : link' = mid) : ∃ more,
        log = (sent ++ more) ++ (b.step .flush).2.registry.outboxAt k ∧
          ∀ found, (b.step .flush).2.registry.links[k]? = some found →
            ∃ link₀, some link = some link₀ ∧ found.wire.envelopes.toList.Sublist
              (link₀.wire.envelopes.toList ++ more.filterMap Outgoing.envelope?) := by
      refine ⟨[], ?_, fun found hfound => ⟨link, rfl, ?_⟩⟩
      · rw [List.append_nil, hlog, hat, hat', heq]
      · cases hlink'.symm.trans hfound
        rw [heq, henvelopes]
        exact List.sublist_append_left _ _
    rcases hcases with heq | heq
    · exact hkept heq
    · obtain ⟨hsub, hempty | hsame⟩ := Registry.envelopes_flushLink mid
      · refine ⟨mid.outbox.toList, ?_, fun found hfound => ⟨link, rfl, ?_⟩⟩
        · rw [hlog, hat, hat', heq, hempty]
          exact (List.append_nil _).symm
        · cases hlink'.symm.trans hfound
          rw [heq, ← henvelopes]
          exact hsub
      · exact hkept (heq.trans hsame)

/-- A new link has a consumer at its far end that begins. -/
theorem connect (h : b.Informs k log) (hsizes : b.replicas.size = b.registry.links.length)
    (thread : Thread) :
    (b.step (.connect thread)).2.Informs k (log ++ Moment.queues ⟨b, .connect thread⟩ k) := by
  rw [b.queues_eq_nil_of_external rfl, List.append_nil]
  obtain ⟨sent, hlog, hdraws⟩ := h
  refine ⟨sent, by rw [b.outboxAt_step rfl (by simp), hlog], fun c hconn => ?_⟩
  rcases b.step_connect thread with ⟨wire, hwire, hstep⟩ | ⟨e, hstep⟩
  · rw [hstep] at hconn
    obtain ⟨replica, link, hreplica, hlink, rfl⟩ := connection?_eq_some.mp hconn
    rw [Array.getElem?_push, hsizes] at hreplica
    rw [List.getElem?_append] at hlink
    split at hreplica
    · rename_i hnew
      cases hreplica
      rw [hnew, if_neg (Nat.lt_irrefl _), Nat.sub_self, List.getElem?_cons_zero] at hlink
      cases hlink
      refine ⟨[], [], .created thread wire, ?_⟩
      rw [(Wire.carries_create hwire).envelopes]
      exact List.nil_sublist _
    · have hk := (Array.getElem?_eq_some_iff.mp hreplica).1
      rw [hsizes] at hk
      rw [if_pos hk] at hlink
      exact hdraws _ (connection?_eq_some.mpr ⟨replica, link, hreplica, hlink, rfl⟩)
  · rw [hstep] at hconn
    exact hdraws c hconn

/-- An operation of a consumer goes on informing it if it keeps what the consumer draws on. -/
theorem onConnection (h : b.Informs k log) (hexternal : action.isInternal = false)
    (hflush : action ≠ .flush) {α : Type} (m : ConnectionM α)
    (hstep : (b.step action).2 = (b.onConnection j m).2)
    (hm : ∀ (c : Connection) sent, c.DrawsOn sent →
      Ends m c (fun _ after => after.DrawsOn sent) (fun _ after => after.DrawsOn sent)) :
    (b.step action).2.Informs k (log ++ Moment.queues ⟨b, action⟩ k) := by
  rw [b.queues_eq_nil_of_external hexternal, List.append_nil]
  obtain ⟨sent, hlog, hdraws⟩ := h
  refine ⟨sent, by rw [b.outboxAt_step hexternal hflush, hlog], fun c hconn => ?_⟩
  have hset (before after : Connection) (hbefore : b.connection? j = some before)
      (hafter : before.DrawsOn sent → after.DrawsOn sent)
      (hconn : (b.setConnection j after).connection? k = some c) : c.DrawsOn sent := by
    rw [connection?_setConnection] at hconn
    split at hconn
    · rename_i hjk
      subst hjk
      rw [hbefore] at hconn
      cases hconn
      exact hafter (hdraws before hbefore)
    · exact hdraws c hconn
  rw [hstep] at hconn
  rcases b.onConnection_cases j m with
    ⟨-, heq⟩ | ⟨before, hbefore, ⟨_, after, hrun, heq⟩ | ⟨_, after, hrun, heq⟩⟩
  · rw [heq] at hconn
    exact hdraws c hconn
  · rw [heq] at hconn
    exact hset before after hbefore (fun hf => (hm before sent hf).of_ok hrun) hconn
  · rw [heq] at hconn
    exact hset before after hbefore (fun hf => (hm before sent hf).of_error hrun) hconn

/-- Every action goes on informing the consumer. -/
theorem step (h : b.Informs k log) (hsizes : b.replicas.size = b.registry.links.length)
    (action : Action) :
    (b.step action).2.Informs k (log ++ Moment.queues ⟨b, action⟩ k) := by
  cases hinternal : action.isInternal with
  | true => exact h.internal hinternal
  | false =>
    cases action with
    | setTick tick =>
      exact h.beside rfl (by simp) rfl fun link' hlink' => ⟨link', hlink', List.Sublist.refl _⟩
    | connect thread => exact h.connect hsizes thread
    | commit =>
      refine h.beside rfl (by simp) (replicas_onRegistry _ _ _) fun link' hlink' => ?_
      have heq := congrArg (·[k]?) b.courses_commit
      simp only [List.getElem?_map, hlink', Option.map_some] at heq
      obtain ⟨link, hlink, hcourse⟩ := Option.map_eq_some_iff.mp heq.symm
      have henvelopes : link.course.wire.envelopes = link'.course.wire.envelopes :=
        congrArg (fun l : Link => l.wire.envelopes) hcourse
      have henvelopes : link.wire.envelopes = link'.wire.envelopes := henvelopes
      exact ⟨link, hlink, henvelopes ▸ List.Sublist.refl _⟩
    | flush => exact h.flush
    | registerLoader j type loader =>
      refine h.onConnection rfl (by simp)
        (modify fun c => c.mapReplica (·.registerLoader type loader)) rfl fun c sent hf => ?_
      obtain ⟨received, applied, hrun, hsub⟩ := hf
      exact ⟨received, applied, hrun.registered type loader, hsub⟩
    | update j tick =>
      exact h.onConnection rfl (by simp) (Connection.update tick) rfl
        fun c sent hf => hf.ends_update tick
    | hangUp j =>
      refine h.beside rfl (by simp) rfl fun link' hlink' => ?_
      have hlink' : (b.registry.links.modify j fun link =>
        { link with wire := link.wire.hangUp })[k]? = some link' := hlink'
      rw [List.getElem?_modify] at hlink'
      obtain ⟨link, hlink, heq⟩ := Option.map_eq_some_iff.mp hlink'
      refine ⟨link, hlink, ?_⟩
      split at heq
      · subst heq
        exact List.nil_sublist _
      · subst heq
        exact List.Sublist.refl _
    | registerType | createOpaque | createInstance | createString | createBuffer | retain |
      dispose | setProp | setPropFromScript | await | processAcks | elsewhere => cases hinternal

end Informs

end Broadcast

namespace Run

variable {config : Config} {supply : Supply} {past : List Moment} {b : Broadcast} {k : Nat}

/-- In every run the consumers draw on what was sent to them. -/
theorem informs (h : Run (.opened config supply) past b) (k : Nat) :
    b.Informs k (queued k past) := by
  induction h with
  | nil => exact ⟨[], rfl, fun c hconn => nomatch hconn⟩
  | snoc h action ih => exact ih.step h.sizes action

/-- Every consumer of a producer goes through a run of its own, in which no two envelopes have one
number. -/
theorem replicaRun (h : Run (.opened config supply) past b)
    (hc : ∀ m ∈ past, m.action.IsCompiled) (hl : b.registry.supply.Lasts) {c : Connection}
    (hconn : b.connection? k = some c) :
    ∃ received log, ReplicaRun received [] log c ∧ (received.map Envelope.id).Nodup := by
  obtain ⟨sent, hlog, hdraws⟩ := h.informs k
  obtain ⟨received, log, hrun, hsub⟩ := hdraws c hconn
  have hcreated := (h.heralds hc hl k).logs.ordered.nodup_created
  rw [hlog, Outgoing.created_append] at hcreated
  refine ⟨received, log, hrun, hcreated.of_append_left.sublist ?_⟩
  exact ((List.sublist_append_left _ _).trans hsub).map Envelope.id

/-- The calls to the loaders of every consumer come in pairs. More generally that is so for
everything that a consumer can go through, whatever is on its wire and whenever it is given loaders,
if no two envelopes that it receives have one number. -/
theorem pairs_callbacks (h : Run (.opened config supply) past b)
    (hc : ∀ m ∈ past, m.action.IsCompiled) (hl : b.registry.supply.Lasts) {c : Connection}
    (hconn : b.connection? k = some c) :
    (∃ received log, ReplicaRun received [] log c ∧ (received.map Envelope.id).Nodup) ∧
      ∀ received bumped log c, ReplicaRun received bumped log c →
        (received.map Envelope.id).Nodup →
          c.replica.callbacks = (log.filterMap fun x => x.effect.notice?) ∧ Paired bumped log :=
  ⟨h.replicaRun hc hl hconn, fun _ _ _ _ hrun hdistinct =>
    ⟨hrun.callbacks_eq, (hrun.accounts hdistinct).paired⟩⟩

end Run

namespace Samples

/-- A lamp that is loaded and goes away. -/
def loadedLamp : List Moment × Broadcast :=
  (Broadcast.opened ⟨.game, 4⟩ ⟨0, .initial⟩).play
    [.connect .render, .registerLoader 0 "lamp" .snapshot, .createInstance ⟨0, lamp⟩ [] {}, .flush,
      .update 0 0, .dispose 1, .flush, .update 0 0]

/-- A lamp that is there without a loader, and goes away after one was registered. -/
def lateLamp : List Moment × Broadcast :=
  (Broadcast.opened ⟨.game, 4⟩ ⟨0, .initial⟩).play
    [.connect .render, .createInstance ⟨0, lamp⟩ [] {}, .flush, .update 0 0,
      .registerLoader 0 "lamp" .text, .dispose 1, .flush, .update 0 0]

/-- The loader of the lamp is asked for it and is given back what it made. -/
theorem pairs_loadedLamp :
    loadedLamp.2.registry.supply.Lasts ∧ ∃ c log, loadedLamp.2.connection? 0 = some c ∧
      c.replica.callbacks =
        [.load 1 "lamp" "lamp[1]" (some 4), .unload 1 (.bytes [0, 0, 0, 0]) false] ∧
      c.replica.callbacks = (log.filterMap fun x => x.effect.notice?) ∧ Paired [] log := by
  have hlasts : loadedLamp.2.registry.supply.Lasts := by decide +kernel
  have hcallbacks : (loadedLamp.2.connection? 0).map (fun c => c.replica.callbacks) =
      some [.load 1 "lamp" "lamp[1]" (some 4), .unload 1 (.bytes [0, 0, 0, 0]) false] := by
    decide +kernel
  obtain ⟨c, hconn, hcallbacks⟩ := Option.map_eq_some_iff.mp hcallbacks
  have hrun : Run (.opened ⟨.game, 4⟩ ⟨0, .initial⟩) loadedLamp.1 loadedLamp.2 := .play _ _
  obtain ⟨⟨received, log, hreplica, hdistinct⟩, hpairs⟩ := Run.pairs_callbacks hrun
    (Broadcast.isCompiled_play _ (by simp [Action.IsCompiled, isCompiled_lamp])) hlasts hconn
  obtain ⟨htold, hpaired⟩ := hpairs received [] log c hreplica hdistinct
  exact ⟨hlasts, c, log, hconn, hcallbacks, htold, hpaired⟩

/-- The late loader is given back something that it was never asked for. -/
theorem unpaired_lateLamp :
    Run (.opened ⟨.game, 4⟩ ⟨0, .initial⟩) lateLamp.1 lateLamp.2 ∧
    (∀ m ∈ lateLamp.1, m.action.IsCompiled) ∧ lateLamp.2.registry.supply.Lasts ∧
    (lateLamp.2.connection? 0).map (fun c => c.replica.callbacks) = some [.unload 1 .unit true] :=
  ⟨.play _ _, Broadcast.isCompiled_play _ (by simp [Action.IsCompiled, isCompiled_lamp]),
    by decide +kernel, by decide +kernel⟩

end Samples

end Framecast
