import Framecast.Proofs.Feed.Outbox
import Framecast.Proofs.Frames.Coherence
import Framecast.Proofs.Run.Bindings
import Framecast.Proofs.Run.Caching

/-!
# Where an opaque resource is sent

An opaque resource is asked for on a thread. Without a link to the thread, or if the
type was not registered, the creation fails and nothing happens. Where nothing is cached
it makes a resource whose only target is the thread, and the intent goes to that one
link. What is cached is handed back as it is, and its targets are those it was made for:
it reaches the thread that asks for it exactly if the thread is one of them.
-/

namespace Framecast

namespace Registry

/-- A registry in which an opaque resource is new and waits to be sent over one link. -/
structure Dispatches (r after : Registry) (k : Nat) (thread : Thread) (res : Resource)
    (e : Envelope) : Prop where
  /-- The resource has the next number. -/
  found : after.resource? r.supply.nextId = some res
  /-- The thread is its only target. -/
  targets : res.targets = [thread]
  /-- The envelope announces it. -/
  announces : res.Announces k e
  /-- The intent that carries the envelope is queued for the link, and nothing for another. -/
  queued : ∀ j, after.outboxAt j = r.outboxAt j ++ if j = k then [.create e r.tick] else []

variable {r : Registry} {k : Nat} {thread : Thread} {type : String} {options : Options}

@[simp] theorem thread_ship (link : Link) (k : Nat) (res : Resource) (tick : Tick) :
    (link.ship k res tick).1.thread = link.thread := by
  unfold Link.ship
  cases res.storage <;> rfl

/-- Binding a resource to one link queues the intent that announces it there, and nothing elsewhere. -/
theorem ends_bind_one {id : ResourceId} {res : Resource} (hres : r.resource? id = some res)
    {link : Link} (hlink : r.links[k]? = some link) :
    Ends (bind id [k]) r
      (fun _ after => ∃ res' e, after.resource? id = some res' ∧ res'.mould = res.mould ∧
        res'.targets = res.targets ++ [link.thread] ∧ res'.Announces k e ∧
          ∀ j, after.outboxAt j = r.outboxAt j ++ if j = k then [.create e r.tick] else [])
      (fun _ _ => False) := by
  unfold bind find
  simp only [Ends.bind_iff, Ends.get_iff, hres, Ends.pure_iff, Ends.modify_iff]
  have hone : [k].foldl (bindOne res r.tick) (res.bindings, r.links) =
      (res.bindings ++ [(link.ship k res r.tick).1], r.links.set k (link.ship k res r.tick).2) := by
    rw [List.foldl_cons, List.foldl_nil, bindOne, updateLink_of_some _ hlink]
    rfl
  rw [hone]
  have hplaced := getElem?_insert r.resources id id { res with
    bindings := res.bindings ++ [(link.ship k res r.tick).1]
    load := awaiting (res.bindings ++ [(link.ship k res r.tick).1]) }
  rw [if_pos rfl] at hplaced
  generalize r.resources.insert id _ = resources at hplaced ⊢
  obtain ⟨e, hannounces, hqueued⟩ := outboxAt_ship hlink res resources k
  refine ⟨_, e, hplaced, rfl, ?_, hannounces _, fun j => ?_⟩
  · unfold Resource.targets
    rw [List.map_append, List.map_singleton, thread_ship]
  · by_cases hj : j = k
    · rw [hj, if_pos rfl]
      exact hqueued.trans (congrArg _ (if_pos rfl))
    · obtain ⟨_, -, hother⟩ := outboxAt_ship hlink res resources j
      rw [if_neg hj]
      exact hother.trans (congrArg _ (if_neg (Ne.symm hj)))

/-- Where nothing is cached, a creation on a thread that is followed by makes a resource for it. -/
theorem ends_createOpaque_dispatches (p : Payload) (hlinkTo : r.linkTo? thread = some k)
    (hthere : type ∈ r.loaderTypes) (huncached : r.cached? type options.cacheKey? = none) :
    Ends (createOpaque thread type p options) r
      (fun id after => id = r.supply.nextId ∧ ∃ res e, r.Dispatches after k thread res e ∧
        res.mould = ⟨type, options.cacheKey?, .payload p⟩)
      (fun _ _ => False) := by
  obtain ⟨link, hlink, rfl⟩ : ∃ link, r.links[k]? = some link ∧ link.thread = thread := by
    have hat := getElem?_threads_of_linkTo? hlinkTo
    unfold threads at hat
    rw [List.getElem?_map] at hat
    exact Option.map_eq_some_iff.mp hat
  have hfound := (resource?_insert r type (.payload p) options r.supply.nextId).trans (if_pos rfl)
  unfold createOpaque
  rw [Ends.bind_iff, Ends.get_iff, hlinkTo]
  dsimp only
  rw [if_neg (by simpa using hthere), huncached]
  dsimp only
  unfold spawn
  rw [Ends.bind_iff, Ends.get_iff, ← Prod.mk.eta (p := r.insert type (.payload p) options)]
  dsimp only
  rw [Ends.bind_iff, Ends.set_iff, Ends.bind_iff]
  refine (ends_bind_one hfound hlink).imp ?_ fun _ _ h => h
  rintro _ after ⟨res, e, hres, hmould, htargets, hannounces, hqueued⟩
  exact ⟨rfl, res, e, ⟨hres, htargets, hannounces, hqueued⟩, hmould⟩

/-- Without a link to the thread, or if the type was not registered, a creation fails. -/
theorem ends_createOpaque_refused (p : Payload) (options : Options)
    (hrefused : (r.linkTo? thread).isSome → type ∉ r.loaderTypes) :
    Ends (createOpaque thread type p options) r (fun _ _ => False)
      (fun e after => after = r ∧ e = if (r.linkTo? thread).isSome then .unregisteredType type
        else .invalidThread thread) := by
  unfold createOpaque
  rw [Ends.bind_iff, Ends.get_iff]
  cases hlinkTo : r.linkTo? thread with
  | none => exact ⟨rfl, rfl⟩
  | some position =>
    dsimp only
    rw [hlinkTo] at hrefused
    rw [if_pos (by simpa using hrefused rfl)]
    exact ⟨rfl, rfl⟩

end Registry

/-- An operation of the producer that can only fail in one way, and changes nothing then. -/
theorem Broadcast.onRegistry_of_refused {α : Type} {b : Broadcast} {m : RegistryM α}
    {failure : ResourceError}
    (h : Ends m b.registry (fun _ _ => False) (fun e after => after = b.registry ∧ e = failure))
    (answer : α → Answer) : b.onRegistry m answer = (.failed failure, b) := by
  unfold onRegistry
  split
  · exact (h.of_ok ‹_›).elim
  · obtain ⟨rfl, rfl⟩ := h.of_error ‹_›
    rfl

/-- Whether a resource, as it was then, has been sent to consumer `k`: its envelope and behind it the
record of its creation. -/
def Resource.WasSent (res : Resource) (k : Nat) (past : List Moment) : Prop :=
  ∃ e tick, res.Announces k e ∧ e ∈ sent k past ∧ (Outgoing.create e tick).record ∈ pushed k past

/-- What a creation of an opaque resource on a thread comes to. -/
structure Moment.Aims (m : Moment) (past : List Moment) (thread : Thread) (type : String)
    (p : Payload) (options : Options) : Prop where
  /-- It fails without a link to the thread, or if the type was not registered, and changes
  nothing. -/
  refused : ((m.before.registry.linkTo? thread).isSome → type ∉ m.before.registry.loaderTypes) →
    m.after = m.before ∧ m.answer = .failed (if (m.before.registry.linkTo? thread).isSome then
      .unregisteredType type else .invalidThread thread)
  /-- Where nothing is cached, it makes a resource whose only target is the thread, and queues its
  creation on that link only. -/
  fresh : ∀ k, m.before.registry.linkTo? thread = some k → type ∈ m.before.registry.loaderTypes →
    m.before.registry.cached? type options.cacheKey? = none →
      m.answer = .created m.before.registry.supply.nextId ∧ ∃ res e,
        m.before.registry.Dispatches m.after.registry k thread res e ∧
          res.mould = ⟨type, options.cacheKey?, .payload p⟩
  /-- What is cached is live, of the type and under the key. It is handed back, and nothing changes. -/
  cached : (m.before.registry.linkTo? thread).isSome → type ∈ m.before.registry.loaderTypes →
    ∀ x, m.before.registry.cached? type options.cacheKey? = some x →
      m.answer = .created x ∧ m.after = m.before ∧ ∃ res, m.before.registry.resource? x = some res ∧
        res.type = type ∧ res.cacheKey? = options.cacheKey?
  /-- Once a later flush has succeeded and the consumer on the thread has stayed, what was answered
  with has been sent to it if the thread is among its targets. If it is not, nothing of it has been
  sent there as long as it lives. -/
  reaches : ∀ k id res, m.before.registry.linkTo? thread = some k → m.answer = .created id →
    m.after.registry.resource? id = some res → ∀ later b, Run m.after later b →
      (∀ m' ∈ later, m'.action.IsCompiled) → (b.step .flush).2.registry.supply.Lasts →
      (∀ m' ∈ later ++ past, m'.Stays k) → (b.step .flush).1 = .done →
        (thread ∈ res.targets → res.WasSent k (⟨b, .flush⟩ :: (later ++ m :: past))) ∧
        (thread ∉ res.targets → ((b.step .flush).2.registry.resource? id).isSome →
          ∀ e ∈ sent k (⟨b, .flush⟩ :: (later ++ m :: past)), e.id ≠ id)

namespace Run

variable {config : Config} {supply : Supply} {past : List Moment} {b : Broadcast} {k : Nat}

/-- Once a flush has succeeded, all that was queued for a consumer that stays has been sent. -/
theorem sent_of_flush (h : Run (.opened config supply) past b)
    (hstays : ∀ m ∈ past, m.Stays k) (hdone : (b.step .flush).1 = .done) :
    pushed k (⟨b, .flush⟩ :: past) = (queued k (⟨b, .flush⟩ :: past)).map Outgoing.record ∧
      sent k (⟨b, .flush⟩ :: past) =
        (queued k (⟨b, .flush⟩ :: past)).filterMap Outgoing.envelope? := by
  have hstays' : ∀ m ∈ (⟨b, .flush⟩ : Moment) :: past, m.Stays k :=
    List.forall_mem_cons.mpr ⟨trivial, hstays⟩
  obtain ⟨⟨underway, hconveys⟩, -⟩ := h.conveys hstays
  have hempty : (b.step .flush).2.registry.outboxAt k = [] := by
    cases hlink : b.registry.links[k]? with
    | none =>
      exact Registry.outboxAt_of_le ((b.length_flush).trans_le (List.getElem?_eq_none_iff.mp hlink))
    | some link =>
      obtain ⟨link', hlink', -, hsent⟩ := Broadcast.step_flush hlink (hconveys.carries link hlink)
      rw [Registry.outboxAt_of_getElem? hlink', hsent hdone]
  obtain ⟨-, -, hrecords, henvelopes⟩ := (h.snoc .flush).conveys hstays'
  rw [hempty] at hrecords henvelopes
  exact ⟨by simpa using hrecords, by simpa using henvelopes⟩

/-- Once a later flush has succeeded and the consumer on a thread has stayed, what was live has been
sent to it if the thread is among its targets. If it is not, nothing of it has been sent there as long
as it lives. -/
theorem sent_to_targets (h : Run (.opened config supply) past b)
    (hc : ∀ m ∈ past, m.action.IsCompiled) (hl : b.registry.supply.Lasts) {id : ResourceId}
    {res : Resource} {thread : Thread} (hres : b.registry.resource? id = some res)
    (hk : b.registry.threads[k]? = some thread) {later : List Moment} {b' : Broadcast}
    (hlater : Run b later b') (hclater : ∀ m ∈ later, m.action.IsCompiled)
    (hl' : (b'.step .flush).2.registry.supply.Lasts) (hstays : ∀ m ∈ later ++ past, m.Stays k)
    (hdone : (b'.step .flush).1 = .done) :
    (thread ∈ res.targets → res.WasSent k (⟨b', .flush⟩ :: (later ++ past))) ∧
      (thread ∉ res.targets → ((b'.step .flush).2.registry.resource? id).isSome →
        ∀ e ∈ sent k (⟨b', .flush⟩ :: (later ++ past)), e.id ≠ id) := by
  have hrun := h.append hlater
  have hcrun : ∀ m ∈ later ++ past, m.action.IsCompiled := List.forall_mem_append.mpr ⟨hclater, hc⟩
  have hcend : ∀ m ∈ (⟨b', .flush⟩ : Moment) :: (later ++ past), m.action.IsCompiled :=
    List.forall_mem_cons.mpr ⟨trivial, hcrun⟩
  obtain ⟨hrecords, henvelopes⟩ := hrun.sent_of_flush hstays hdone
  have htargets := (h.isAddressed hc hl).mem_targets_iff hres hk
  refine ⟨fun hmem => ?_, fun hmem hlive e he heq => hmem (htargets.mpr ?_)⟩
  · have hlogs := (h.heralds hc hl k).logs
    obtain ⟨e, tick, he, rfl⟩ := Outgoing.mem_created.mp
      (Outgoing.created_of_standing ((hlogs.standing id).mpr ⟨res, hres, htargets.mp hmem⟩))
    have hqueued := queued_subset_append k (⟨b', .flush⟩ :: later) _ he
    refine ⟨e, tick, hlogs.announced e tick he res hres, ?_, ?_⟩
    · rw [henvelopes]
      exact List.mem_filterMap.mpr ⟨_, hqueued, rfl⟩
    · rw [hrecords]
      exact List.mem_map_of_mem hqueued
  · obtain ⟨res', hres'⟩ := Option.isSome_iff_exists.mp hlive
    have hlogs := ((hrun.snoc .flush).heralds hcend hl' k).logs
    rw [henvelopes] at he
    have hcreated : id ∈ Outgoing.created (queued k (⟨b', .flush⟩ :: _)) :=
      List.mem_map.mpr ⟨e, he, heq⟩
    obtain ⟨binding, hbinding, hlink⟩ := (hlogs.created id hcreated).2 res' hres'
    have hissued := ((h.wellFormed hc hl).numbered hres).2
    obtain ⟨res₁, hres₁, hbindings⟩ :=
      (h.keeps_targets (hlater.snoc .flush) hcend hl').2 id res' hres' hissued
    cases hres.symm.trans hres₁
    exact ⟨binding, hbindings ▸ hbinding, hlink⟩

/-- An opaque resource that is asked for on a thread is new and targeted at that thread only, or it is
what is cached, which reaches the thread exactly if it is targeted at it. Anything else is a failure.
This holds while fewer than `2 ^ 32 - 1` numbers have been given out. -/
theorem reaches_targets (h : Run (.opened config supply) past b)
    (hc : ∀ m ∈ past, m.action.IsCompiled) (thread : Thread) (type : String) (p : Payload)
    (options : Options)
    (hl : (b.step (.createOpaque thread type p options)).2.registry.supply.Lasts) :
    (⟨b, .createOpaque thread type p options⟩ : Moment).Aims past thread type p options := by
  have hone : (Action.createOpaque thread type p options).IsCompiled := trivial
  have hlasts := hl.mono (b.issued_le_step hone)
  have hi := h.indexesLive hc hlasts
  refine ⟨fun hrefused => ?_, fun k hlinkTo hthere huncached => ?_,
    fun hlinkTo hthere x hcached => ?_, ?_⟩
  · have hstep := Broadcast.onRegistry_of_refused
      (Registry.ends_createOpaque_refused p options hrefused) .created
    exact ⟨congrArg Prod.snd hstep, congrArg Prod.fst hstep⟩
  · have hends := Registry.ends_createOpaque_dispatches p hlinkTo hthere huncached
    rcases (Broadcast.onRegistry_ends hends .created).1 with ⟨id, hanswer, rfl, hmade⟩ | ⟨e, -, hno⟩
    · exact ⟨hanswer, hmade⟩
    · exact hno.elim
  · obtain ⟨res, hres, htype, hkey⟩ := hi.of_cached? hcached
    obtain ⟨hsame, ⟨-, hanswer⟩ | ⟨hnot, -⟩⟩ :=
      Broadcast.onRegistry_eq (Registry.ends_createOpaque_cached thread p hcached)
    · exact ⟨hanswer, hsame, res, hres, htype, hkey⟩
    · exact absurd ⟨hlinkTo, hthere⟩ hnot
  · intro k id res hlinkTo _ hres later b' hlater hclater hl' hstays hdone
    have hcmade : ∀ m ∈ (⟨b, .createOpaque thread type p options⟩ : Moment) :: past,
        m.action.IsCompiled := List.forall_mem_cons.mpr ⟨hone, hc⟩
    have hstays' : ∀ m ∈ later ++ ⟨b, .createOpaque thread type p options⟩ :: past, m.Stays k := by
      rw [List.forall_mem_append] at hstays ⊢
      exact ⟨hstays.1, List.forall_mem_cons.mpr ⟨trivial, hstays.2⟩⟩
    have hk : (b.step (.createOpaque thread type p options)).2.registry.threads[k]? =
        some thread := by
      obtain ⟨more, hmore⟩ := (Broadcast.isAddressed_step hone (h.wellFormed hc hlasts) hl
        (h.isAddressed hc hlasts)).2
      have hat := Registry.getElem?_threads_of_linkTo? hlinkTo
      rw [← hmore, List.getElem?_append_left (List.getElem?_eq_some_iff.mp hat).1]
      exact hat
    exact (h.snoc _).sent_to_targets hcmade hl hres hk hlater hclater hl' hstays' hdone

end Run

namespace Samples

/-- A picture was made for the drawing loop, under a key, and the host loop follows as well. -/
def pictured : List Moment × Broadcast :=
  (Broadcast.opened ⟨.game, 4⟩ ⟨0, .initial⟩).play
    [.connect .render,
      .connect .main,
      .registerType "image",
      .createOpaque .render "image" (.number 5) { cacheKey? := some (.text "sky") }]

theorem isCompiled_pictured : ∀ m ∈ pictured.1, m.action.IsCompiled :=
  Broadcast.isCompiled_play _ (by simp [Action.IsCompiled])

/-- A picture is asked for on the host loop. -/
def picture (key : String) : Moment :=
  ⟨pictured.2, .createOpaque .main "image" (.number 6) { cacheKey? := some (.text key) }⟩

/-- Under another key the host loop gets a picture of its own, and a flush sends it there. -/
theorem reaches_targets_pictured :
    (picture "sea").after.registry.supply.Lasts ∧
      (picture "sea").Aims pictured.1 .main "image" (.number 6) { cacheKey? := some (.text "sea") } ∧
      (picture "sea").answer = .created 2 ∧ ∃ res, (picture "sea").after.registry.resource? 2 = some res ∧
        res.targets = [.main] ∧
        res.WasSent 1 (⟨(picture "sea").after, .flush⟩ :: picture "sea" :: pictured.1) := by
  have hlasts : (picture "sea").after.registry.supply.Lasts := by decide +kernel
  have haims := Run.reaches_targets (.play _ _) isCompiled_pictured .main "image" (.number 6)
    { cacheKey? := some (.text "sea") } hlasts
  have hpicture : ((picture "sea").after.registry.resource? 2).map Resource.targets =
      some [.main] := by decide +kernel
  obtain ⟨res, hres, htargets⟩ := Option.map_eq_some_iff.mp hpicture
  refine ⟨hlasts, haims, by decide +kernel, res, hres, htargets, ?_⟩
  refine (haims.reaches 1 2 res (by decide +kernel) (by decide +kernel) hres [] _ .nil ?_ ?_ ?_ ?_).1
    (htargets ▸ List.mem_singleton_self _)
  · exact fun m hm => nomatch hm
  · decide +kernel
  · decide +kernel
  · decide +kernel

/-- Under the same key the host loop is handed the picture that the drawing loop has, and a flush that
succeeds sends it nothing. -/
theorem pictured_elsewhere :
    (picture "sky").before.registry.linkTo? .main = some 1 ∧ (picture "sky").answer = .created 1 ∧
      ((picture "sky").after.registry.resource? 1).map Resource.targets = some [.render] ∧
      ((picture "sky").after.step .flush).1 = .done ∧
      sent 1 (⟨(picture "sky").after, .flush⟩ :: picture "sky" :: pictured.1) = [] := by
  decide +kernel

end Samples

end Framecast
