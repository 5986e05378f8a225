import Framecast.Proofs.Frames.Marking

/-!
# What a consumer made of a resource

A resource comes to a consumer in one way: an update applies its creation. If its
status buffer is marked by then, it is kept as it is, and otherwise its loader is
asked, once. The mark stays, so what was kept without a loader is taken for disposed
of for good, and what counts as loaded is what a loader made something of.
-/

namespace Framecast

namespace Connection

variable {c c₀ : Connection} {id : ResourceId} {found : LocalResource}

/-- Whether a consumer knows a resource: its envelope has arrived, or its creation has taken
effect. -/
def Knows (c : Connection) (id : ResourceId) : Prop :=
  c.replica.pending.contains id = true ∨ (c.replica.resource? id).isSome = true

/-- What became of a resource that took effect on a consumer, connected like this. -/
inductive Loads (c : Connection) (found : LocalResource) : Prop
  /-- Its status buffer was marked, and nobody was asked. -/
  | skipped (hmark : c.wire.readsDisposed found.status = true) (hmade : found.made? = none)
      (herror : found.error? = none)
  /-- Its loader made something of it. -/
  | made {loader : Loader} {product : Product} (hloader : c.replica.loaders[found.type]? = some loader)
      (hload : loader.load (c.arrival found) = .ok product) (hmade : found.made? = some product)
      (herror : found.error? = none)
  /-- It has no loader and needs none. -/
  | builtIn (hloader : c.replica.loaders[found.type]? = none) (hbuiltIn : found.isBuiltIn = true)
      (hmade : found.made? = some .unit) (herror : found.error? = none)
  /-- Its loader could make nothing of it. -/
  | failed {loader : Loader} {reason : String} (hloader : c.replica.loaders[found.type]? = some loader)
      (hload : loader.load (c.arrival found) = .error reason) (hmade : found.made? = none)
      (herror : found.error? = some reason)

/-- A connection in the course of an update: it reads the same snapshots and has the same loaders as
at the start, and what it has more was loaded. -/
structure Gains (c₀ c : Connection) : Prop where
  /-- The loaders are the same. -/
  loaders : c.replica.loaders = c₀.replica.loaders
  /-- The snapshots are the same. -/
  frames : c.wire.frames = c₀.wire.frames
  /-- What is there was there or was loaded. -/
  origin : ∀ id found, c.replica.resource? id = some found →
    c₀.replica.resource? id = some found ∨ c₀.Loads found

/-- A connection with one loaded resource more. -/
theorem Gains.insert (h : c₀.Gains c) {after : Connection}
    (hloaders : after.replica.loaders = c.replica.loaders)
    (hframes : after.wire.frames = c.wire.frames)
    (hresources : after.replica.resources = c.replica.resources.insert found.id found)
    (hloads : c₀.Loads found) : c₀.Gains after := by
  refine ⟨hloaders.trans h.loaders, hframes.trans h.frames, fun id found' hfound => ?_⟩
  unfold Replica.resource? at hfound
  rw [hresources, Std.TreeMap.getElem?_insert] at hfound
  split at hfound
  · cases hfound
    exact .inr hloads
  · exact h.origin id found' hfound

theorem Gains.of_eq (h : c₀.Gains c) {after : Connection}
    (hloaders : after.replica.loaders = c.replica.loaders)
    (hframes : after.wire.frames = c.wire.frames)
    (hresources : after.replica.resources = c.replica.resources) : c₀.Gains after := by
  refine ⟨hloaders.trans h.loaders, hframes.trans h.frames, fun id found hfound => ?_⟩
  unfold Replica.resource? at hfound
  rw [hresources] at hfound
  exact h.origin id found hfound

/-- What a loader sees of a resource depends on the snapshots and on what was announced. -/
theorem arrival_congr (hframes : c.wire.frames = c₀.wire.frames) (resource : LocalResource) :
    c.arrival resource = c₀.arrival resource := by
  unfold arrival bytesOf?
  rw [hframes]

/-- What the loader of a resource gave is kept with it. -/
theorem Gains.settleResult (h : c₀.Gains c) {resource : LocalResource}
    {result : Except String Product}
    (hloads : ∀ found, found = (match result with
      | .ok made => { resource with made? := some made }
      | .error reason => { resource with error? := some reason }) → c₀.Loads found) :
    c₀.Gains (c.settleResult resource result) := by
  cases result with
  | ok made => exact h.insert rfl rfl rfl (hloads _ rfl)
  | error reason => exact h.insert rfl rfl rfl (hloads _ rfl)

/-- A resource whose creation takes effect is loaded. -/
theorem Gains.ends_loadResource (h : c₀.Gains c) (e : Envelope) :
    Ends (loadResource (.ofEnvelope e)) c (fun _ after => c₀.Gains after)
      (fun _ after => c₀.Gains after) := by
  unfold loadResource
  rw [Ends.bind_iff, Ends.get_iff]
  split
  · rename_i hmark
    refine h.insert rfl rfl rfl (.skipped ?_ rfl rfl)
    unfold Wire.readsDisposed at hmark ⊢
    rwa [h.frames] at hmark
  · split
    · rename_i loader hloader
      rw [h.loaders] at hloader
      dsimp only
      rw [Ends.set_iff, arrival_congr h.frames]
      generalize hresult : loader.load _ = result
      refine Gains.settleResult ?_ fun found hfound => ?_
      · exact h.of_eq rfl rfl rfl
      · cases result with
        | ok product =>
          subst hfound
          exact .made hloader hresult rfl rfl
        | error reason =>
          subst hfound
          exact .failed hloader hresult rfl rfl
    · rename_i hloader
      rw [h.loaders] at hloader
      split
      · rename_i hbuiltIn
        refine h.settleResult fun found hfound => ?_
        subst hfound
        exact .builtIn hloader hbuiltIn rfl rfl
      · exact h

/-- Applying a record gains what is loaded, also where it fails. -/
theorem Gains.ends_applyRecord (h : c₀.Gains c) (record : Record) :
    Ends (applyRecord record) c (fun _ after => c₀.Gains after)
      (fun _ after => c₀.Gains after) := by
  unfold applyRecord
  split
  · unfold applyCreate
    rw [Ends.bind_iff, Ends.get_iff]
    split
    · exact h.of_eq rfl rfl rfl
    · rw [Ends.bind_iff, Ends.set_iff]
      refine Gains.ends_loadResource ?_ _
      exact h.of_eq rfl rfl rfl
  · rw [Ends.modify_iff]
    have herase {r : Replica} (hloaders : r.loaders = c.replica.loaders)
        (hresources : r.resources = c.replica.resources.erase record.id) :
        c₀.Gains { c with replica := r } := by
      refine ⟨hloaders.trans h.loaders, h.frames, fun id found hfound => h.origin id found ?_⟩
      unfold Replica.resource? at hfound
      rw [hresources, Std.TreeMap.getElem?_erase] at hfound
      split at hfound
      · cases hfound
      · exact hfound
    unfold applyDispose mapReplica
    dsimp only
    split
    · exact h.of_eq rfl rfl rfl
    · unfold unload
      split <;> exact herase rfl rfl

/-- An update gains what is loaded in the frame that it picks up, also where it fails. -/
theorem ends_update_gains (tick : Tick) (c : Connection) :
    Ends (update tick) c (fun _ after => c.pickUp.Gains after)
      (fun _ after => c.pickUp.Gains after) := by
  unfold update
  rw [Ends.bind_iff, Ends.modify_iff, Ends.bind_iff, Ends.get_iff]
  dsimp only
  rw [Ends.bind_iff, Ends.set_iff]
  apply Ends.forM
  · exact fun record _ after h => h.ends_applyRecord record
  · exact ⟨rfl, rfl, fun _ _ h => .inl h⟩

end Connection

/-- Whether a resource was loaded on consumer `k` by an action. -/
structure Moment.LoadsOn (m : Moment) (k : Nat) (id : ResourceId) (found : LocalResource) : Prop where
  /-- The consumer was being updated. -/
  action : ∃ tick, m.action = .update k tick
  /-- In the frame that the update picked up this became of the resource. -/
  loads : ∃ c, m.before.connection? k = some c ∧ c.pickUp.Loads found
  /-- The consumer had it afterwards. -/
  kept : ∃ replica, m.after.replicas[k]? = some replica ∧ replica.resource? id = some found

namespace Broadcast

variable {b : Broadcast} {action : Action} {k : Nat} {id : ResourceId} {found : LocalResource}

/-- When one consumer is put back after its operation, the others are as they were. -/
theorem replica_of_setConnection {j : Nat} {after : Connection} {replica : Replica}
    (h : (b.setConnection j after).replicas[k]? = some replica) :
    b.replicas[k]? = some replica ∨ j = k ∧ after.replica = replica := by
  unfold setConnection at h
  rw [Array.getElem?_setIfInBounds] at h
  split at h
  · rename_i hjk
    split at h
    · exact .inr ⟨hjk, Option.some.inj h⟩
    · cases h
  · exact .inl h

/-- What a consumer has after an update, it had before or was loaded by it. -/
theorem loadsOn_update {j : Nat} {tick : Tick} {replica : Replica}
    (hreplica : (b.step (.update j tick)).2.replicas[k]? = some replica)
    (hfound : replica.resource? id = some found) :
    (∃ before, b.replicas[k]? = some before ∧ before.resource? id = some found) ∨
      Moment.LoadsOn ⟨b, .update j tick⟩ k id found := by
  have hloaded {c after : Connection} (hc : b.connection? j = some c)
      (heq : (b.step (.update j tick)).2 = b.setConnection j after)
      (hgains : c.pickUp.Gains after) :
      (∃ before, b.replicas[k]? = some before ∧ before.resource? id = some found) ∨
        Moment.LoadsOn ⟨b, .update j tick⟩ k id found := by
    rw [heq] at hreplica
    rcases replica_of_setConnection hreplica with hold | ⟨rfl, rfl⟩
    · exact .inl ⟨replica, hold, hfound⟩
    · rcases hgains.origin id found hfound with hold | hloads
      · obtain ⟨before, link, hbefore, -, rfl⟩ := connection?_eq_some.mp hc
        exact .inl ⟨before, hbefore, hold⟩
      · refine .inr ⟨⟨tick, rfl⟩, ⟨c, hc, hloads⟩, _, ?_, hfound⟩
        exact (congrArg (·.replicas[j]?) heq).trans hreplica
  rcases b.onConnection_cases j (Connection.update tick) with
    ⟨-, heq⟩ | ⟨c, hc, ⟨_, after, hrun, heq⟩ | ⟨_, after, hrun, heq⟩⟩
  · have hsame : (b.step (.update j tick)).2.replicas = b.replicas := congrArg (·.2.replicas) heq
    exact .inl ⟨replica, hsame ▸ hreplica, hfound⟩
  · exact hloaded hc (congrArg Prod.snd heq) ((Connection.ends_update_gains tick c).of_ok hrun)
  · exact hloaded hc (congrArg Prod.snd heq) ((Connection.ends_update_gains tick c).of_error hrun)

/-- What a consumer has after an action, it had before or was loaded by it. -/
theorem loadsOn_step {replica : Replica} (hreplica : (b.step action).2.replicas[k]? = some replica)
    (hfound : replica.resource? id = some found) :
    (∃ before, b.replicas[k]? = some before ∧ before.resource? id = some found) ∨
      Moment.LoadsOn ⟨b, action⟩ k id found := by
  have hsame (h : (b.step action).2.replicas = b.replicas) :
      (∃ before, b.replicas[k]? = some before ∧ before.resource? id = some found) ∨
        Moment.LoadsOn ⟨b, action⟩ k id found :=
    .inl ⟨replica, h ▸ hreplica, hfound⟩
  cases hinternal : action.isInternal with
  | true => exact hsame (replicas_step hinternal)
  | false =>
    cases action with
    | setTick tick => exact hsame rfl
    | connect thread =>
      rcases b.step_connect thread with ⟨wire, -, hstep⟩ | ⟨e, hstep⟩
      · rw [hstep, Array.getElem?_push] at hreplica
        split at hreplica
        · cases hreplica
          have hnone : (Replica.create thread).resource? id = none := Std.TreeMap.getElem?_emptyc
          rw [hnone] at hfound
          cases hfound
        · exact .inl ⟨replica, hreplica, hfound⟩
      · exact hsame (by rw [hstep])
    | commit => exact hsame (replicas_onRegistry _ _ _)
    | flush => exact hsame (replicas_onRegistry _ _ _)
    | registerLoader j type loader =>
      rcases b.onConnection_cases j (modify fun c => c.mapReplica (·.registerLoader type loader)) with
        ⟨-, heq⟩ | ⟨c, hc, ⟨_, after, hrun, heq⟩ | ⟨_, _, hrun, -⟩⟩
      · exact hsame (congrArg (·.2.replicas) heq)
      · cases hrun
        rw [show b.step (.registerLoader j type loader) = _ from heq] at hreplica
        rcases replica_of_setConnection hreplica with hold | ⟨rfl, rfl⟩
        · exact .inl ⟨replica, hold, hfound⟩
        · obtain ⟨before, link, hbefore, -, rfl⟩ := connection?_eq_some.mp hc
          exact .inl ⟨before, hbefore, hfound⟩
      · cases hrun
    | update j tick => exact loadsOn_update hreplica hfound
    | hangUp j => exact hsame rfl
    | registerType | createOpaque | createInstance | createString | createBuffer | retain |
      dispose | setProp | setPropFromScript | await | processAcks | elsewhere => cases hinternal

end Broadcast

/-- What a consumer has was loaded at some moment of the run. -/
theorem Run.loadsOn {config : Config} {supply : Supply} {past : List Moment} {b : Broadcast}
    (h : Run (.opened config supply) past b) {k : Nat} {replica : Replica}
    (hreplica : b.replicas[k]? = some replica) {id : ResourceId} {found : LocalResource}
    (hfound : replica.resource? id = some found) :
    ∃ later m earlier, past = later ++ m :: earlier ∧
      Run (.opened config supply) (m :: earlier) m.after ∧ m.LoadsOn k id found := by
  induction h generalizing replica with
  | nil => cases hreplica
  | @snoc past b h action ih =>
    rcases Broadcast.loadsOn_step hreplica hfound with ⟨before, hbefore, hold⟩ | hloads
    · obtain ⟨later, m, earlier, rfl, hrun, hloads⟩ := ih hbefore hold
      exact ⟨⟨b, action⟩ :: later, m, earlier, rfl, hrun, hloads⟩
    · exact ⟨[], ⟨b, action⟩, past, rfl, h.snoc action, hloads⟩

namespace Connection

variable {c : Connection} {log : List Outgoing} {id : ResourceId}

/-- What a consumer knows was announced, and it reads the status buffer that was announced. -/
theorem Trusts.known (h : c.Trusts log) (hknows : c.Knows id) :
    ∃ e tick, .create e tick ∈ log ∧ e.id = id ∧
      (c.isDisposed id = true ↔ IsMark (c.wire.frames.read e.status)) := by
  unfold isDisposed
  cases hfound : c.replica.resource? id with
  | some found =>
    obtain ⟨e, tick, he, hid, hshows⟩ := h.had id found hfound
    refine ⟨e, tick, he, hid, ?_⟩
    rw [← hshows.status]
    exact Iff.rfl
  | none =>
    cases hpending : c.replica.pending[id]? with
    | some e =>
      obtain ⟨hid, tick, he⟩ := h.expected id e hpending
      exact ⟨e, tick, he, hid, Iff.rfl⟩
    | none =>
      rcases hknows with hcontains | hsome
      · rw [Std.TreeMap.contains_eq_isSome_getElem?, hpending] at hcontains
        cases hcontains
      · rw [hfound] at hsome
        cases hsome

/-- What counts as loaded has taken effect, and no loader has failed on it. -/
theorem found_of_loaded (h : c.loadStatus? id = some .loaded) :
    ∃ found, c.replica.resource? id = some found ∧ found.error? = none := by
  unfold loadStatus? at h
  split at h
  · cases h
  · obtain ⟨found, hfound, hstatus⟩ := Option.map_eq_some_iff.mp h
    refine ⟨found, hfound, ?_⟩
    split at hstatus
    · cases hstatus
    · split at hstatus
      · cases hstatus
      · assumption

/-- What a consumer takes for disposed of does not count as loaded. -/
theorem not_loaded_of_isDisposed (h : c.isDisposed id = true) :
    c.loadStatus? id ≠ some .loaded := by
  unfold isDisposed at h
  unfold loadStatus?
  cases hfound : c.replica.resource? id with
  | none => split <;> simp
  | some found =>
    rw [hfound] at h
    simp only [h, if_true, Option.map_some]
    split <;> simp

end Connection

/-- What consumer `k`, as it is connected after a run, can tell of disposals and of loading. -/
structure Discerns (k : Nat) (past : List Moment) (b : Broadcast) (c : Connection) : Prop where
  /-- What it knows and takes for disposed of, the producer has removed. -/
  sound : ∀ id, c.Knows id → c.isDisposed id = true → b.registry.resource? id = none
  /-- What it knew and took for disposed of at any time, it takes for disposed of ever after. -/
  sticky : ∀ m ∈ past, ∀ c₁, m.before.connection? k = some c₁ → ∀ id, c₁.Knows id →
    c₁.isDisposed id = true → c.isDisposed id = true ∧ c.loadStatus? id ≠ some .loaded
  /-- What took effect on it without being loaded, it takes for disposed of and not for loaded. -/
  skipped : ∀ id found, c.replica.resource? id = some found → found.made? = none →
    found.error? = none → c.isDisposed id = true ∧ c.loadStatus? id ≠ some .loaded
  /-- What it takes for loaded, some update made something of, in its loader or without one, and the
  consumer holds what was made. -/
  loaded : ∀ id, c.loadStatus? id = some .loaded → ∃ found product,
    c.replica.resource? id = some found ∧ found.made? = some product ∧
      ∃ m ∈ past, ∃ tick c₀, m.action = .update k tick ∧ m.before.connection? k = some c₀ ∧
        ((∃ loader, c₀.replica.loaders[found.type]? = some loader ∧
            loader.load (c₀.pickUp.arrival found) = .ok product) ∨
          c₀.replica.loaders[found.type]? = none ∧ found.isBuiltIn = true ∧ product = .unit)

namespace Run

variable {config : Config} {supply : Supply} {past later earlier : List Moment} {b b₁ : Broadcast}
  {k : Nat} {c : Connection}

/-- What was marked when a consumer read it, the consumer takes for disposed of ever after. -/
theorem isDisposed_of_mark (h : Run (.opened config supply) (later ++ earlier) b)
    (hc : ∀ m ∈ later ++ earlier, m.action.IsCompiled) (hl : b.registry.supply.Lasts)
    (hconn : b.connection? k = some c) (h₁ : Run (.opened config supply) earlier b₁) {e : Envelope}
    {tick : Tick} (he : .create e tick ∈ queued k earlier)
    (hmark : IsMark ((b₁.registry.framesAt k).read e.status)) : c.isDisposed e.id = true := by
  have hheralds := h.heralds hc hl k
  have hread := h.isMark_read hc hl h₁ he hmark
  rw [(Broadcast.framesAt_of_connection? hconn).2] at hread
  by_cases hknows : c.Knows e.id
  · obtain ⟨e', tick', he', hid, hdisposed⟩ := (hheralds.trusts c hconn).known hknows
    obtain rfl := hheralds.logs.ordered.envelope_unique he'
      (queued_subset_append k later earlier he) hid
    exact hdisposed.mpr hread
  · -- what is not known any more counts as disposed of
    unfold Connection.Knows at hknows
    obtain ⟨hpending, hfound⟩ := not_or.mp hknows
    rw [Std.TreeMap.contains_eq_isSome_getElem?, Bool.not_eq_true, Option.isSome_eq_false_iff,
      Option.isNone_iff_eq_none] at hpending
    rw [Bool.not_eq_true, Option.isSome_eq_false_iff, Option.isNone_iff_eq_none] at hfound
    unfold Connection.isDisposed
    rw [hfound, hpending]

/-- What took effect without being loaded, the consumer takes for disposed of ever after. -/
theorem isDisposed_of_skipped {m : Moment} (h : Run (.opened config supply) (later ++ m :: earlier) b)
    (hc : ∀ m' ∈ later ++ m :: earlier, m'.action.IsCompiled) (hl : b.registry.supply.Lasts)
    (hconn : b.connection? k = some c) (h₁ : Run (.opened config supply) (m :: earlier) m.after)
    {id : ResourceId} {found : LocalResource} (hloads : m.LoadsOn k id found)
    (hmade : found.made? = none) (herror : found.error? = none) : c.isDisposed id = true := by
  have hc₁ : ∀ m' ∈ m :: earlier, m'.action.IsCompiled := fun m' hm' =>
    hc m' (List.mem_append_right _ hm')
  have hl₁ : m.after.registry.supply.Lasts := by
    obtain ⟨b₂, h₂, hissued⟩ := h.beginning hc
    obtain rfl := h₁.end_unique h₂
    exact hl.mono hissued
  have hheralds := h₁.heralds hc₁ hl₁ k
  obtain ⟨⟨tick, haction⟩, ⟨c₀, hconn₀, hbecame⟩, replica, hreplica, hfound⟩ := hloads
  have hk := (Array.getElem?_eq_some_iff.mp hreplica).1
  rw [hheralds.sizes] at hk
  have hconn₁ := Broadcast.connection?_eq_some.mpr
    ⟨replica, _, hreplica, List.getElem?_eq_getElem hk, rfl⟩
  obtain ⟨e, tick', he, rfl, hshows⟩ := (hheralds.trusts _ hconn₁).had id found hfound
  refine h.isDisposed_of_mark hc hl hconn h₁ he ?_
  have hframes : m.after.registry.framesAt k = c₀.pickUp.wire.frames := by
    unfold Moment.after
    rw [haction, Broadcast.framesAt_update, if_pos ⟨rfl, by rw [hconn₀]; rfl⟩,
      (Broadcast.framesAt_of_connection? hconn₀).2]
    rfl
  rw [hframes, ← hshows.status]
  cases hbecame with
  | skipped hmark => exact hmark
  | made _ _ hsome =>
    rw [hmade] at hsome
    cases hsome
  | builtIn _ _ hsome =>
    rw [hmade] at hsome
    cases hsome
  | failed _ _ _ hsome =>
    rw [herror] at hsome
    cases hsome

/-- Whatever was done, consumers can tell what was disposed of and what was loaded, while fewer than
`2 ^ 32 - 1` numbers have been given out. -/
theorem discerns (h : Run (.opened config supply) past b) (hc : ∀ m ∈ past, m.action.IsCompiled)
    (hl : b.registry.supply.Lasts) (hconn : b.connection? k = some c) : Discerns k past b c := by
  have hframes := (Broadcast.framesAt_of_connection? hconn).2
  have hheralds := h.heralds hc hl k
  refine ⟨fun id hknows hdisposed => ?_, fun m hm c₁ hconn₁ id hknows hdisposed => ?_,
    fun id found hfound hmade herror => ?_, fun id hloaded => ?_⟩
  · obtain ⟨e, tick, he, rfl, hiff⟩ := (hheralds.trusts c hconn).known hknows
    have hmark := hiff.mp hdisposed
    rw [← hframes, Snapshot.FrameLink.read_eq_slot] at hmark
    exact (h.marks hc hl k e tick he).gone (h.isWired |>.turning k).read hmark
  · obtain ⟨later, earlier, rfl, h₁, hissued⟩ := h.before_of_mem hc hm
    have hc₁ : ∀ m' ∈ earlier, m'.action.IsCompiled := fun m' hm' =>
      hc m' (List.mem_append_right _ (List.mem_cons_of_mem _ hm'))
    have hheralds₁ := h₁.heralds hc₁ (hl.mono hissued) k
    obtain ⟨e, tick, he, rfl, hiff⟩ := (hheralds₁.trusts c₁ hconn₁).known hknows
    have hmark := hiff.mp hdisposed
    rw [← (Broadcast.framesAt_of_connection? hconn₁).2] at hmark
    rw [List.append_cons] at h hc
    have hstays := h.isDisposed_of_mark hc hl hconn h₁ he hmark
    exact ⟨hstays, Connection.not_loaded_of_isDisposed hstays⟩
  · obtain ⟨replica, link, hreplica, -, rfl⟩ := Broadcast.connection?_eq_some.mp hconn
    obtain ⟨later, m, earlier, rfl, h₁, hloads⟩ := h.loadsOn hreplica hfound
    have hstays : Connection.isDisposed _ id = true := h.isDisposed_of_skipped hc hl hconn h₁ hloads hmade herror
    exact ⟨hstays, Connection.not_loaded_of_isDisposed hstays⟩
  · obtain ⟨replica, link, hreplica, -, rfl⟩ := Broadcast.connection?_eq_some.mp hconn
    obtain ⟨found, hfound, herror⟩ := Connection.found_of_loaded hloaded
    obtain ⟨later, m, earlier, rfl, h₁, ⟨tick, haction⟩, ⟨c₀, hconn₀, hloads⟩, hkept⟩ :=
      h.loadsOn hreplica hfound
    have hm : m ∈ later ++ m :: earlier := List.mem_append_right _ List.mem_cons_self
    cases hloads with
    | skipped hmark hmade herror =>
      have hstays := h.isDisposed_of_skipped hc hl hconn h₁
        ⟨⟨tick, haction⟩, ⟨c₀, hconn₀, .skipped hmark hmade herror⟩, hkept⟩ hmade herror
      exact absurd hloaded (Connection.not_loaded_of_isDisposed hstays)
    | made hloader hload hmade =>
      exact ⟨found, _, hfound, hmade, m, hm, tick, c₀, haction, hconn₀, .inl ⟨_, hloader, hload⟩⟩
    | builtIn hloader hbuiltIn hmade =>
      exact ⟨found, _, hfound, hmade, m, hm, tick, c₀, haction, hconn₀,
        .inr ⟨hloader, hbuiltIn, rfl⟩⟩
    | failed _ _ _ hreason =>
      rw [herror] at hreason
      cases hreason

end Run

namespace Samples

/-- Two lamps, of which the second is removed before its creation takes effect; commits and updates go
on, and the tick at which the removal takes effect does not come. -/
def goneLamps : List Moment × Broadcast :=
  (Broadcast.opened ⟨.game, 8⟩ ⟨0, .initial⟩).play
    [.connect .render,
      .createInstance ⟨0, lamp⟩ [] {},
      .createInstance ⟨0, lamp⟩ [] {},
      .flush,
      .setTick 5,
      .dispose 2,
      .flush,
      .commit,
      .update 0 0,
      .commit,
      .update 0 0,
      .commit,
      .commit,
      .update 0 0]

theorem isCompiled_goneLamps : ∀ m ∈ goneLamps.1, m.action.IsCompiled :=
  Broadcast.isCompiled_play _ (by simp [Action.IsCompiled, isCompiled_lamp])

/-- The first lamp is loaded, and the second is known to be gone. -/
theorem discerns_goneLamps :
    goneLamps.2.registry.supply.Lasts ∧ ∃ c, goneLamps.2.connection? 0 = some c ∧
      Discerns 0 goneLamps.1 goneLamps.2 c ∧ c.Knows 2 ∧ c.isDisposed 2 = true ∧
      c.loadStatus? 2 = some .disposed ∧ c.loadStatus? 1 = some .loaded := by
  have hlasts : goneLamps.2.registry.supply.Lasts := by decide +kernel
  have hread : (goneLamps.2.connection? 0).map (fun c => ((c.replica.resource? 2).isSome,
      c.isDisposed 2, c.loadStatus? 2, c.loadStatus? 1)) =
        some (true, true, some .disposed, some .loaded) := by decide +kernel
  obtain ⟨c, hconn, hall⟩ := Option.map_eq_some_iff.mp hread
  obtain ⟨hknows, hrest⟩ := Prod.mk.inj hall
  obtain ⟨hdisposed, hstatuses⟩ := Prod.mk.inj hrest
  obtain ⟨hsecond, hfirst⟩ := Prod.mk.inj hstatuses
  have hrun : Run (.opened ⟨.game, 8⟩ ⟨0, .initial⟩) goneLamps.1 goneLamps.2 := .play _ _
  exact ⟨hlasts, c, hconn, Run.discerns hrun isCompiled_goneLamps hlasts hconn, .inr hknows,
    hdisposed, hsecond, hfirst⟩

/-- A lamp of which the consumer learns that it is gone before it comes to the tick of the creation.
Then all other numbers are drawn elsewhere, and another lamp gets the number. -/
def twinLamps : List Moment × Broadcast :=
  (Broadcast.opened ⟨.game, 8⟩ ⟨0, .initial⟩).play
    [.connect .render,
      .setTick 10,
      .createInstance ⟨0, lamp⟩ [] {},
      .flush,
      .update 0 0,
      .dispose 1,
      .flush,
      .commit,
      .update 0 0,
      .elsewhere (2 ^ 32 - 1) .initial,
      .createInstance ⟨0, lamp⟩ [] {},
      .flush]

/-- The next update of that consumer. -/
def unmarking : Moment := ⟨twinLamps.2, .update 0 0⟩

theorem isCompiled_unmarking : ∀ m ∈ unmarking :: twinLamps.1, m.action.IsCompiled :=
  List.forall_mem_cons.mpr
    ⟨trivial, Broadcast.isCompiled_play _ (by simp [Action.IsCompiled, isCompiled_lamp])⟩

/-- Where the numbers have come around, the update takes back that the lamp is gone: it receives the
other lamp. No record was applied in between. -/
theorem not_discerns_unmarking :
    Run (.opened ⟨.game, 8⟩ ⟨0, .initial⟩) (unmarking :: twinLamps.1) unmarking.after ∧
      (∀ m ∈ unmarking :: twinLamps.1, m.action.IsCompiled) ∧
      applied 0 (unmarking :: twinLamps.1) = [] ∧
      (∃ c, unmarking.before.connection? 0 = some c ∧ c.Knows 1 ∧ c.isDisposed 1 = true) ∧
      ∃ c, unmarking.after.connection? 0 = some c ∧ c.Knows 1 ∧ c.isDisposed 1 = false ∧
        ¬Discerns 0 (unmarking :: twinLamps.1) unmarking.after c := by
  have hread : (unmarking.before.connection? 0).map (fun c => (c.replica.pending.contains 1,
      c.isDisposed 1)) = some (true, true) := by decide +kernel
  have hread' : (unmarking.after.connection? 0).map (fun c => (c.replica.pending.contains 1,
      c.isDisposed 1)) = some (true, false) := by decide +kernel
  obtain ⟨c, hconn, hboth⟩ := Option.map_eq_some_iff.mp hread
  obtain ⟨hknows, hmarked⟩ := Prod.mk.inj hboth
  obtain ⟨c', hconn', hboth'⟩ := Option.map_eq_some_iff.mp hread'
  obtain ⟨hknows', hunmarked⟩ := Prod.mk.inj hboth'
  have hrun : Run (.opened ⟨.game, 8⟩ ⟨0, .initial⟩) twinLamps.1 twinLamps.2 := .play _ _
  refine ⟨hrun.cons _, isCompiled_unmarking, by decide +kernel,
    ⟨c, hconn, .inl hknows, hmarked⟩, c', hconn', .inl hknows', hunmarked, fun hdiscerns => ?_⟩
  have hsticky := hdiscerns.sticky unmarking List.mem_cons_self c hconn 1 (.inl hknows) hmarked
  rw [hunmarked] at hsticky
  cases hsticky.1

end Samples

end Framecast
