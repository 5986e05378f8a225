import Mathlib.Data.List.TakeWhile
import Framecast.Proofs.Feed.Relay

/-!
# A consumer replays its link

What flushes have delivered over a link is a sequence of intents, in the order in
which they were queued. The consumer has applied a beginning of it, and each update
goes on through the longest run of intents that are due. Its resources are exactly
those that stand then, and it awaits exactly those whose creation it has received
and not applied.
-/

namespace Framecast

open Outgoing (standing created IsLog)

/-- Whether consumer `k` goes away in an action. -/
def Action.hangsUp (k : Nat) : Action → Bool
  | .hangUp j => j == k
  | _ => false

/-- Whether an action updates consumer `k`. -/
def Action.updates (k : Nat) : Action → Bool
  | .update j _ => j == k
  | _ => false

namespace Moment

/-- What the action queues for link `k`. -/
def queues (m : Moment) (k : Nat) : List Outgoing :=
  (m.after.registry.outboxAt k).drop (m.before.registry.outboxAt k).length

/-- What an action on the resources of the producer queues comes behind what waits, and holds from the
current tick. -/
theorem outboxAt_internal (b : Broadcast) {action : Action} (h : action.isInternal = true) (k : Nat) :
    (b.step action).2.registry.outboxAt k = b.registry.outboxAt k ++ queues ⟨b, action⟩ k ∧
      ∀ o ∈ queues ⟨b, action⟩ k, o.tick = b.registry.tick := by
  obtain ⟨more, hmore, hticks⟩ := Broadcast.queues_step (b := b) h k
  have hqueues : queues ⟨b, action⟩ k = more := by
    unfold queues after
    rw [hmore, List.drop_left]
  rw [hqueues]
  exact ⟨hmore, hticks⟩

/-- An action that leaves the outbox or empties it queues nothing. -/
theorem queues_eq_nil (m : Moment) (k : Nat)
    (h : m.after.registry.outboxAt k = m.before.registry.outboxAt k ∨
      m.after.registry.outboxAt k = []) : m.queues k = [] := by
  unfold queues
  rcases h with heq | heq
  · rw [heq, List.drop_length]
  · rw [heq, List.drop_nil]

/-- What the action delivers over link `k`: a flush that leaves nothing waiting delivers what
waited. -/
def delivers (m : Moment) (k : Nat) : List Outgoing :=
  match m.action with
  | .flush => if m.after.registry.outboxAt k = [] then m.before.registry.outboxAt k else []
  | _ => []

/-- Only a flush delivers anything. -/
theorem delivers_of_ne (m : Moment) (k : Nat) (h : m.action ≠ .flush) : m.delivers k = [] := by
  unfold delivers
  split
  · exact absurd ‹_› h
  · rfl

/-- Whether consumer `k` stays, and succeeds if it is updated. -/
def Attends (m : Moment) (k : Nat) : Prop :=
  match m.action with
  | .hangUp j => j ≠ k
  | .update j _ => j = k → m.answer = .done
  | _ => True

/-- Consumer `k` attends unless it hangs up or has an update that fails. -/
theorem attends_iff (m : Moment) (k : Nat) :
    m.action.hangsUp k = false ∧ (m.action.updates k = true → m.answer = .done) ↔ m.Attends k := by
  obtain ⟨before, action⟩ := m
  cases action <;> simp [Attends, Action.hangsUp, Action.updates]

instance (m : Moment) (k : Nat) : Decidable (m.Attends k) :=
  decidable_of_iff _ (m.attends_iff k)

end Moment

/-- The intents that were queued for link `k`, in the order of the calls. -/
def queued (k : Nat) : List Moment → List Outgoing
  | [] => []
  | m :: past => queued k past ++ m.queues k

/-- The intents that flushes have delivered over link `k`. -/
def delivered (k : Nat) : List Moment → List Outgoing
  | [] => []
  | m :: past => delivered k past ++ m.delivers k

/-- The intents that had been delivered over link `k` when its consumer was updated last. -/
def received (k : Nat) : List Moment → List Outgoing
  | [] => []
  | m :: past =>
    match m.action with
    | .update j _ => if j = k then delivered k past else received k past
    | _ => received k past

/-- The intents that consumer `k` applies: each update goes on from where the last one stopped,
through the longest run of delivered intents that are due. -/
def applied (k : Nat) : List Moment → List Outgoing
  | [] => []
  | m :: past =>
    match m.action with
    | .update j tick =>
      if j = k then
        applied k past ++
          ((delivered k past).drop (applied k past).length).takeWhile fun o => o.tick ≤ tick
      else applied k past
    | _ => applied k past

/-- The feed of link `k`, cut where its consumer stands. -/
def feed (k : Nat) : List Moment → Feed
  | [] => .empty
  | m :: past =>
    match m.action with
    | .flush => (feed k past).send (m.delivers k)
    | .update j tick => if j = k then (feed k past).advance tick else feed k past
    | _ => feed k past

/-- The feed is what was delivered, cut behind what was applied and behind what was received. -/
theorem feed_eq (k : Nat) (past : List Moment) :
    (feed k past).applied = applied k past ∧
      (feed k past).applied ++ (feed k past).waiting = received k past ∧
        (feed k past).sent = delivered k past := by
  induction past with
  | nil => exact ⟨rfl, rfl, rfl⟩
  | cons m past ih =>
    obtain ⟨happlied, hreceived, hsent⟩ := ih
    have hdelivers (hne : m.action ≠ .flush) : delivered k (m :: past) = delivered k past := by
      have hnone := m.delivers_of_ne k hne
      simp only [delivered, hnone, List.append_nil]
    cases haction : m.action with
    | flush =>
      simp only [feed, applied, received, delivered, haction, Feed.sent_send, hsent]
      exact ⟨happlied, hreceived, trivial⟩
    | update j tick =>
      rw [hdelivers (by simp [haction])]
      simp only [feed, applied, received, haction]
      by_cases hjk : j = k
      · simp only [if_pos hjk, Feed.sent_advance, hsent]
        have hrest : (delivered k past).drop (applied k past).length =
            (feed k past).waiting ++ (feed k past).underway := by
          rw [← hsent, ← happlied]
          unfold Feed.sent
          rw [List.append_assoc, List.drop_left]
        refine ⟨?_, ?_, trivial⟩
        · rw [hrest, ← happlied]
          rfl
        · rw [← hsent]
          unfold Feed.advance Feed.sent
          rw [List.append_assoc, List.takeWhile_append_dropWhile, List.append_assoc]
      · simp only [if_neg hjk]
        exact ⟨happlied, hreceived, hsent⟩
    | setTick | registerType | createOpaque | createInstance | createString | createBuffer | retain |
      dispose | setProp | setPropFromScript | await | processAcks | elsewhere | connect | commit |
      registerLoader | hangUp =>
      rw [hdelivers (by simp [haction])]
      simp only [feed, applied, received, haction]
      exact ⟨happlied, hreceived, hsent⟩

namespace Broadcast.Relays

variable {b : Broadcast} {k : Nat} {past : List Moment}

/-- Bringing the consumer to a tick moves the cut of the feed. -/
theorem update {f : Feed} (h : b.Relays k f) (tick : Tick)
    (hdone : (b.step (.update k tick)).1 = .done) :
    (b.step (.update k tick)).2.Relays k (f.advance tick) := by
  have hlog : IsLog f.sent := h.logs.ordered.of_append
  have hdone : (b.onConnection k (Connection.update tick)).1 = .done := hdone
  show (b.onConnection k (Connection.update tick)).2.Relays k (f.advance tick)
  rcases b.onConnection_cases k (Connection.update tick) with
    ⟨hnone, heq⟩ | ⟨c, hc, ⟨_, after, hrun, heq⟩ | ⟨_, _, -, heq⟩⟩
  · have hk : b.registry.links.length ≤ k := by
      by_contra hlt
      have hlink := List.getElem?_eq_getElem (Nat.lt_of_not_le hlt)
      have hreplica := Array.getElem?_eq_getElem (h.sizes ▸ Nat.lt_of_not_le hlt)
      rw [connection?_eq_some.mpr ⟨_, _, hreplica, hlink, rfl⟩] at hnone
      cases hnone
    rw [heq, h.unopened hk]
    rw [h.unopened hk] at h
    exact h
  · have hends := (h.follows c hc).ends_update hlog tick
    rw [heq]
    exact h.setConnection hc (hends.of_ok hrun).1 (f.sent_advance tick)
  · rw [heq] at hdone
    cases hdone

/-- Installing a loader moves nothing. -/
theorem registerLoader {f : Feed} (h : b.Relays k f) (j : Nat) (type : String) (loader : Loader) :
    (b.step (.registerLoader j type loader)).2.Relays k f := by
  by_cases hjk : j = k
  · subst hjk
    show (b.onConnection j (modify fun c => c.mapReplica (·.registerLoader type loader))).2.Relays
      j f
    rcases b.onConnection_cases j
        (modify fun c => c.mapReplica (·.registerLoader type loader)) with
      ⟨-, heq⟩ | ⟨c, hc, ⟨_, after, hrun, heq⟩ | ⟨_, _, hrun, -⟩⟩
    · rw [heq]
      exact h
    · cases hrun
      rw [heq]
      have hfollows := h.follows c hc
      refine h.setConnection hc ⟨⟨hfollows.mirrors.expects, ?_⟩, hfollows.parked,
        hfollows.carries⟩ rfl
      exact ⟨hfollows.mirrors.reflects.standing, hfollows.mirrors.reflects.announced⟩
    · cases hrun
  · exact h.onConnection hjk _

/-- Every action of a run keeps a link at its feed. -/
theorem step {action : Action} (h : b.Relays k (feed k past)) (hw : b.registry.WellFormed)
    (hc : action.IsCompiled) (hl : (b.step action).2.registry.supply.Lasts)
    (hattends : Moment.Attends ⟨b, action⟩ k) :
    (b.step action).2.Relays k (feed k (⟨b, action⟩ :: past)) := by
  cases hinternal : action.isInternal with
  | true =>
    have hafter := h.internal hinternal hc hw hl
    cases action with
    | setTick | connect | commit | flush | registerLoader | update | hangUp => cases hinternal
    | registerType | createOpaque | createInstance | createString | createBuffer | retain |
      dispose | setProp | setPropFromScript | await | processAcks | elsewhere => exact hafter
  | false =>
    cases action with
    | setTick tick => exact h.beside (.of_eq rfl rfl rfl) rfl rfl rfl rfl
    | connect thread => exact h.connect thread
    | commit => exact h.commit
    | flush =>
      have hfeed : feed k (⟨b, .flush⟩ :: past) =
          if (b.step .flush).2.registry.outboxAt k = [] then
            (feed k past).send (b.registry.outboxAt k) else feed k past := by
        show (feed k past).send (if (b.step .flush).2.registry.outboxAt k = [] then _ else _) = _
        split
        · rfl
        · exact Feed.send_nil _
      rw [hfeed]
      exact h.flush
    | registerLoader j type loader => exact h.registerLoader j type loader
    | update j tick =>
      by_cases hjk : j = k
      · subst hjk
        have hafter := h.update tick (hattends rfl)
        simpa only [feed, if_true] using hafter
      · have hfeed : feed k (⟨b, .update j tick⟩ :: past) = feed k past := if_neg hjk
        rw [hfeed]
        exact h.onConnection hjk (Connection.update tick)
    | hangUp j =>
      have hjk : j ≠ k := hattends
      refine h.beside (.of_eq rfl rfl rfl) rfl (List.length_modify _ _ _) ?_ rfl
      simp [Broadcast.step, hangUp, Registry.modifyLink, hjk]
    | registerType | createOpaque | createInstance | createString | createBuffer | retain |
      dispose | setProp | setPropFromScript | await | processAcks | elsewhere => cases hinternal

end Broadcast.Relays

namespace Run

variable {config : Config} {supply : Supply} {past : List Moment} {b : Broadcast} {k : Nat}

/-- Whatever was done, a link relays its feed if its consumer stays and its updates succeed. -/
theorem relays (h : Run (.opened config supply) past b) (hc : ∀ m ∈ past, m.action.IsCompiled)
    (hl : b.registry.supply.Lasts) (hattends : ∀ m ∈ past, m.Attends k) :
    b.Relays k (feed k past) := by
  refine h.keeps (P := fun past b => (∀ m ∈ past, m.Attends k) → b.Relays k (feed k past)) hc hl
    ?_ ?_ hattends
  · intro _
    have hserves : (Broadcast.opened config supply).Serves k Feed.empty.sent Feed.empty.Reaches :=
      .opened config supply k rfl
    exact hserves.relays
  · intro past b action h hrest hone hlasts hl ih hattends
    have hrelays := ih fun m hm => hattends m (List.mem_cons_of_mem _ hm)
    exact hrelays.step (h.wellFormed hrest hlasts) hone hl (hattends _ List.mem_cons_self)

/-- What was queued is what was delivered and what waits, and it holds from the tick of its call. -/
theorem queued_eq (h : Run (.opened config supply) past b)
    (hc : ∀ m ∈ past, m.action.IsCompiled) (hl : b.registry.supply.Lasts)
    (hattends : ∀ m ∈ past, m.Attends k) :
    queued k past = delivered k past ++ b.registry.outboxAt k ∧
      ∀ m ∈ past, ∀ o ∈ m.queues k, o.tick = m.before.registry.tick := by
  refine h.keeps (P := fun past b => (∀ m ∈ past, m.Attends k) →
    queued k past = delivered k past ++ b.registry.outboxAt k ∧
      ∀ m ∈ past, ∀ o ∈ m.queues k, o.tick = m.before.registry.tick) hc hl ?_ ?_ hattends
  · exact fun _ => ⟨rfl, by simp⟩
  · intro past b action h hrest hone hlasts hl ih hattends
    have hbefore : ∀ m ∈ past, m.Attends k := fun m hm => hattends m (List.mem_cons_of_mem _ hm)
    obtain ⟨hqueued, hstamped⟩ := ih hbefore
    have hmoment : queued k past ++ Moment.queues ⟨b, action⟩ k =
        delivered k past ++ Moment.delivers ⟨b, action⟩ k ++
          (b.step action).2.registry.outboxAt k ∧
        ∀ o ∈ Moment.queues ⟨b, action⟩ k, o.tick = b.registry.tick := by
      rw [hqueued]
      cases hinternal : action.isInternal with
      | true =>
        have hdelivers := Moment.delivers_of_ne ⟨b, action⟩ k
          (fun heq : action = .flush => by rw [heq] at hinternal; cases hinternal)
        obtain ⟨houtbox, hticks⟩ := Moment.outboxAt_internal b hinternal k
        rw [hdelivers, houtbox]
        exact ⟨by simp, hticks⟩
      | false =>
        have hnothing := Moment.queues_eq_nil ⟨b, action⟩ k
        by_cases hflush : action = .flush
        · subst hflush
          rcases (h.relays hrest hlasts hbefore).outboxAt_flush.1 with hout | hout
          · rw [hnothing (.inl hout), hout]
            unfold Moment.delivers Moment.after
            refine ⟨?_, by simp⟩
            dsimp only
            rw [hout]
            split
            · rename_i hempty
              simp [hempty]
            · simp
          · rw [hnothing (.inr hout), hout]
            unfold Moment.delivers Moment.after
            refine ⟨?_, by simp⟩
            dsimp only
            rw [if_pos hout]
        · have hout := b.outboxAt_step hinternal hflush k
          rw [hnothing (.inl hout), Moment.delivers_of_ne ⟨b, action⟩ k hflush, hout]
          exact ⟨by simp, by simp⟩
    refine ⟨hmoment.1, fun m hm => ?_⟩
    rcases List.mem_cons.mp hm with rfl | hm
    · exact hmoment.2
    · exact hstamped m hm

end Run

/-- What an action adds to what a consumer has applied: nothing, unless it updates the consumer. -/
theorem applied_cons (m : Moment) (past : List Moment) (k : Nat) :
    applied k (m :: past) = applied k past ∨ ∃ tick, m.action = .update k tick ∧
      applied k (m :: past) = applied k past ++
        ((delivered k past).drop (applied k past).length).takeWhile fun o => o.tick ≤ tick := by
  simp only [applied]
  split
  · rename_i j tick haction
    split
    · rename_i hjk
      exact .inr ⟨tick, hjk ▸ haction, rfl⟩
    · exact .inl rfl
  · exact .inl rfl

/-- A resource is pending while its envelope is kept. -/
theorem Connection.loadStatus?_eq_pending (c : Connection) (id : ResourceId) :
    c.loadStatus? id = some .pending ↔ ∃ e, c.replica.pending[id]? = some e := by
  unfold loadStatus?
  rw [Std.TreeMap.contains_eq_isSome_getElem?]
  cases c.replica.pending[id]? with
  | some e => simp
  | none =>
    simp only [Option.isSome_none, Bool.false_eq_true, if_false, reduceCtorEq, exists_false,
      iff_false]
    intro h
    obtain ⟨res, -, hstatus⟩ := Option.map_eq_some_iff.mp h
    split at hstatus
    · cases hstatus
    · split at hstatus <;> cases hstatus

/-- Consumer `k`, as it is connected after a run, is an exact replay of its link. -/
structure Replays (k : Nat) (past : List Moment) (b : Broadcast) (c : Connection) : Prop where
  /-- What was queued, in the order of the calls, was delivered but for what still waits. -/
  inOrder : queued k past = delivered k past ++ b.registry.outboxAt k
  /-- Every intent holds from the tick that was set when it was queued. -/
  stamped : ∀ m ∈ past, ∀ o ∈ m.queues k, o.tick = m.before.registry.tick
  /-- What was applied is the beginning of what was received, and that is the beginning of what was
  delivered. -/
  beginning : applied k past <+: received k past ∧ received k past <+: delivered k past
  /-- The resources are those that stand in what was applied. -/
  resources : ∀ id, (∃ res, c.replica.resource? id = some res) ↔ id ∈ standing (applied k past)
  /-- What is pending are the creations that were received and not applied. -/
  pending : ∀ id, c.loadStatus? id = some .pending ↔
    id ∈ created ((received k past).drop (applied k past).length)
  /-- A resource appears in an update only, and not before the tick of its creation. -/
  appears : ∀ m earlier, past = m :: earlier → ∀ before, m.before.connection? k = some before →
    ∀ id, before.replica.resource? id = none → (∃ res, c.replica.resource? id = some res) →
      ∃ tick, m.action = .update k tick ∧
        ∃ e t, .create e t ∈ delivered k earlier ∧ e.id = id ∧ t ≤ tick
  /-- A resource disappears in an update only, and not before the tick of its disposal. -/
  disappears : ∀ m earlier, past = m :: earlier → ∀ before, m.before.connection? k = some before →
    ∀ id, (∃ res, before.replica.resource? id = some res) → c.replica.resource? id = none →
      ∃ tick, m.action = .update k tick ∧ ∃ t, .dispose id t ∈ delivered k earlier ∧ t ≤ tick
  /-- A flush that succeeds leaves nothing waiting. -/
  flushed : ∀ before earlier, past = ⟨before, .flush⟩ :: earlier → (before.step .flush).1 = .done →
    b.registry.outboxAt k = []
  /-- If nothing waits, an update to a tick that no intent is after gives the consumer exactly the
  live resources that are bound to its link. -/
  agrees : ∀ before tick earlier, past = ⟨before, .update k tick⟩ :: earlier →
    before.registry.outboxAt k = [] → (∀ o ∈ queued k earlier, o.tick ≤ tick) →
      ∀ id, (∃ res, c.replica.resource? id = some res) ↔
        ∃ res, b.registry.resource? id = some res ∧ res.IsBoundTo k

namespace Run

variable {config : Config} {supply : Supply} {past : List Moment} {b : Broadcast} {k : Nat}
  {c : Connection}

/-- The resources of a consumer are those that stand in what it has applied. -/
theorem resources_replica (h : Run (.opened config supply) past b)
    (hc : ∀ m ∈ past, m.action.IsCompiled) (hl : b.registry.supply.Lasts)
    (hattends : ∀ m ∈ past, m.Attends k) (hconn : b.connection? k = some c) (id : ResourceId) :
    (∃ res, c.replica.resource? id = some res) ↔ id ∈ standing (applied k past) := by
  have hfollows := (h.relays hc hl hattends).follows c hconn
  rw [hfollows.mirrors.reflects.standing, (feed_eq k past).1]

/-- The moment before the last, and the run that led there. -/
theorem earlier {m : Moment} (h : Run (.opened config supply) (m :: past) b)
    (hc : ∀ m' ∈ m :: past, m'.action.IsCompiled) (hl : b.registry.supply.Lasts)
    (hattends : ∀ m' ∈ m :: past, m'.Attends k) :
    Run (.opened config supply) past m.before ∧ (∀ m' ∈ past, m'.action.IsCompiled) ∧
      m.before.registry.supply.Lasts ∧ ∀ m' ∈ past, m'.Attends k := by
  cases h with
  | snoc h action =>
    have hone : action.IsCompiled := hc ⟨_, action⟩ List.mem_cons_self
    exact ⟨h, fun m' hm => hc m' (List.mem_cons_of_mem _ hm), hl.mono (Broadcast.issued_le_step _ hone),
      fun m' hm => hattends m' (List.mem_cons_of_mem _ hm)⟩

/-- If nothing waits, an update to a tick that no intent is after applies everything, and what stands
then are the live resources that are bound to the link. -/
theorem standing_of_update {before : Broadcast} {tick : Tick}
    (h : Run (.opened config supply) (⟨before, .update k tick⟩ :: past) b)
    (hc : ∀ m ∈ ⟨before, .update k tick⟩ :: past, m.action.IsCompiled)
    (hl : b.registry.supply.Lasts) (hattends : ∀ m ∈ ⟨before, .update k tick⟩ :: past, m.Attends k)
    (hempty : before.registry.outboxAt k = []) (hdue : ∀ o ∈ queued k past, o.tick ≤ tick)
    (id : ResourceId) :
    id ∈ standing (applied k (⟨before, .update k tick⟩ :: past)) ↔
      ∃ res, b.registry.resource? id = some res ∧ res.IsBoundTo k := by
  obtain ⟨h₀, hc₀, hl₀, hattends₀⟩ := h.earlier hc hl hattends
  have hrelays := h.relays hc hl hattends
  have hall : queued k past = delivered k past := by
    rw [(h₀.queued_eq hc₀ hl₀ hattends₀).1, hempty, List.append_nil]
  have happlied : applied k (⟨before, .update k tick⟩ :: past) = delivered k past := by
    obtain ⟨happlied₀, hreceived₀, hsent₀⟩ := feed_eq k past
    have hfront : applied k past <+: delivered k past := by
      rw [← happlied₀, ← hsent₀]
      unfold Feed.sent
      rw [List.append_assoc]
      exact List.prefix_append _ _
    obtain ⟨rest, hrest⟩ := hfront
    have htake : rest.takeWhile (fun o => decide (o.tick ≤ tick)) = rest := by
      apply List.takeWhile_eq_self_iff.mpr
      intro o ho
      rw [hall, ← hrest] at hdue
      exact decide_eq_true (hdue o (List.mem_append_right _ ho))
    show (if k = k then applied k past ++ _ else _) = _
    rw [if_pos rfl, ← hrest, List.drop_left, htake]
  have hout : b.registry.outboxAt k = [] := by
    cases h with
    | snoc _ _ =>
      rw [← hempty]
      exact before.outboxAt_step rfl (fun heq => by cases heq) k
  have hdelivered : delivered k (⟨before, .update k tick⟩ :: past) = delivered k past :=
    List.append_nil _
  have hlogs := hrelays.logs.standing id
  rw [hout, List.append_nil, (feed_eq k _).2.2, hdelivered] at hlogs
  rw [happlied]
  exact hlogs

/-- A consumer that stays and is updated well is an exact replay of its link, while fewer than
`2 ^ 32 - 1` numbers have been given out. -/
theorem replays (h : Run (.opened config supply) past b) (hc : ∀ m ∈ past, m.action.IsCompiled)
    (hl : b.registry.supply.Lasts) (hattends : ∀ m ∈ past, m.Attends k)
    (hconn : b.connection? k = some c) : Replays k past b c := by
  obtain ⟨hqueued, hstamped⟩ := h.queued_eq hc hl hattends
  have hrelays := h.relays hc hl hattends
  have hfollows := hrelays.follows c hconn
  obtain ⟨happlied, hreceived, hsent⟩ := feed_eq k past
  have hresources := h.resources_replica hc hl hattends hconn
  refine ⟨hqueued, hstamped, ⟨?_, ?_⟩, hresources, fun id => ?_, ?_, ?_, ?_, ?_⟩
  · rw [← happlied, ← hreceived]
    exact List.prefix_append _ _
  · rw [← hreceived, ← hsent]
    exact List.prefix_append _ _
  · have hwaiting : (received k past).drop (applied k past).length = (feed k past).waiting := by
      rw [← hreceived, ← happlied, List.drop_left]
    rw [c.loadStatus?_eq_pending, hwaiting, Outgoing.mem_created]
    constructor
    · rintro ⟨e, he⟩
      obtain ⟨rfl, tick, hmem⟩ := (hfollows.mirrors.expects id e).mp he
      exact ⟨e, tick, hmem, rfl⟩
    · rintro ⟨e, tick, hmem, rfl⟩
      exact ⟨e, (hfollows.mirrors.expects e.id e).mpr ⟨rfl, tick, hmem⟩⟩
  · rintro m earlier rfl before hbefore id hnone hsome
    obtain ⟨h₀, hc₀, hl₀, hattends₀⟩ := h.earlier hc hl hattends
    have hnot : id ∉ standing (applied k earlier) := by
      rw [← h₀.resources_replica hc₀ hl₀ hattends₀ hbefore id, hnone]
      simp
    rw [hresources] at hsome
    rcases applied_cons m earlier k with heq | ⟨tick, haction, heq⟩
    · rw [heq] at hsome
      exact absurd hsome hnot
    · rw [heq] at hsome
      obtain ⟨e, t, hmem, hid⟩ :=
        Outgoing.mem_created.mp (Outgoing.created_of_standing_append hsome hnot)
      have hdue := List.mem_takeWhile_imp hmem
      refine ⟨tick, haction, e, t, ?_, hid, of_decide_eq_true hdue⟩
      exact List.mem_of_mem_drop (List.takeWhile_subset _ hmem)
  · rintro m earlier rfl before hbefore id hsome hnone
    obtain ⟨h₀, hc₀, hl₀, hattends₀⟩ := h.earlier hc hl hattends
    rw [h₀.resources_replica hc₀ hl₀ hattends₀ hbefore] at hsome
    have hnot : id ∉ standing (applied k (m :: earlier)) := by
      rw [← hresources, hnone]
      simp
    rcases applied_cons m earlier k with heq | ⟨tick, haction, heq⟩
    · rw [heq] at hnot
      exact absurd hsome hnot
    · rw [heq] at hnot
      obtain ⟨t, hmem⟩ := Outgoing.disposed_of_not_standing_append hsome hnot
      have hdue := List.mem_takeWhile_imp hmem
      refine ⟨tick, haction, t, ?_, of_decide_eq_true hdue⟩
      exact List.mem_of_mem_drop (List.takeWhile_subset _ hmem)
  · rintro before earlier rfl hdone
    obtain ⟨h₀, hc₀, hl₀, hattends₀⟩ := h.earlier hc hl hattends
    cases h with
    | snoc _ _ => exact (h₀.relays hc₀ hl₀ hattends₀).outboxAt_flush.2 hdone
  · rintro before tick earlier rfl hempty hdue id
    rw [hresources]
    exact h.standing_of_update hc hl hattends hempty hdue id

end Run

namespace Samples

/-- Two nodes that are announced under ticks that go backwards, the second of which is disposed of. -/
def backwards : List Moment × Broadcast :=
  (Broadcast.opened ⟨.game, 4⟩ ⟨0, .initial⟩).play
    [.connect .render,
      .setTick 5,
      .createInstance ⟨0, node⟩ [("name", .text "a")] {},
      .setTick 3,
      .createInstance ⟨0, node⟩ [] {},
      .flush,
      .update 0 4,
      .setTick 9,
      .dispose 3,
      .flush,
      .update 0 5]

theorem isCompiled_backwards : ∀ m ∈ backwards.1, m.action.IsCompiled :=
  Broadcast.isCompiled_play _ (by simp [Action.IsCompiled, isCompiled_node])

/-- The consumer of the two nodes has both and the text, also the node that is disposed of later. -/
theorem replays_backwards :
    ∃ c, backwards.2.connection? 0 = some c ∧ Replays 0 backwards.1 backwards.2 c ∧
      standing (applied 0 backwards.1) = [2, 1, 3] := by
  have hsome : (backwards.2.connection? 0).isSome = true := by decide +kernel
  exact ⟨(backwards.2.connection? 0).get hsome, (Option.some_get hsome).symm,
    Run.replays (.play _ _) isCompiled_backwards (by decide +kernel) (by decide +kernel)
      (Option.some_get hsome).symm, by decide +kernel⟩

/-- Two nodes with one number. Between their creations all other numbers were drawn elsewhere. -/
def twinNodes : List Moment × Broadcast :=
  (Broadcast.opened ⟨.game, 4⟩ ⟨0, .initial⟩).play
    [.connect .render,
      .setTick 1,
      .createInstance ⟨0, node⟩ [] { name? := some "first" },
      .elsewhere (2 ^ 32 - 1) .initial,
      .setTick 10,
      .createInstance ⟨0, node⟩ [] { name? := some "second" },
      .flush,
      .update 0 1]

theorem isCompiled_twinNodes : ∀ m ∈ twinNodes.1, m.action.IsCompiled :=
  Broadcast.isCompiled_play _ (by simp [Action.IsCompiled, isCompiled_node])

/-- Where the numbers have come around, the consumer is no replay of its link. The envelope of the
second node has taken the place of that of the first, so the second is loaded at the tick of the first,
and nothing is pending, although its creation was received and is not due. -/
theorem not_replays_twinNodes :
    Run (.opened ⟨.game, 4⟩ ⟨0, .initial⟩) twinNodes.1 twinNodes.2 ∧
      (∀ m ∈ twinNodes.1, m.action.IsCompiled) ∧ (∀ m ∈ twinNodes.1, m.Attends 0) ∧
      created ((received 0 twinNodes.1).drop (applied 0 twinNodes.1).length) = [1] ∧
      ∃ c, twinNodes.2.connection? 0 = some c ∧ c.loadStatus? 1 = some .loaded ∧
        (c.replica.resource? 1).map LocalResource.name = some "second" ∧
        ¬Replays 0 twinNodes.1 twinNodes.2 c := by
  have hread : (twinNodes.2.connection? 0).map (fun c =>
      (c.loadStatus? 1, (c.replica.resource? 1).map LocalResource.name)) =
        some (some .loaded, some "second") := by decide +kernel
  have hreceived : created ((received 0 twinNodes.1).drop (applied 0 twinNodes.1).length) = [1] := by
    decide +kernel
  obtain ⟨c, hconn, hboth⟩ := Option.map_eq_some_iff.mp hread
  obtain ⟨hloaded, hname⟩ := Prod.mk.inj hboth
  refine ⟨.play _ _, isCompiled_twinNodes, by decide +kernel, hreceived, c, hconn, hloaded, hname,
    fun hreplays => ?_⟩
  have hpending := (hreplays.pending 1).mpr (hreceived ▸ List.mem_singleton_self 1)
  rw [hloaded] at hpending
  cases hpending

end Samples

end Framecast
