import Framecast.Proofs.Feed.Replay

/-!
# What a consumer knows was announced

Everything that a consumer has or expects was announced in the log of its link, and
a number is announced once. This holds in every run: a consumer whose update fails
loses the rest of its records, and one that goes away loses the envelopes that are
under way, but neither makes anything up.
-/

namespace Framecast

open Outgoing (IsLog)

namespace Outgoing

variable {log : List Outgoing} {e e' : Envelope} {tick tick' : Tick}

/-- A log announces a number once. -/
theorem IsLog.envelope_unique (h : IsLog log) (he : .create e tick ∈ log)
    (he' : .create e' tick' ∈ log) (hid : e.id = e'.id) : e = e' := by
  obtain ⟨first, rest, rfl⟩ := List.append_of_mem he
  rcases List.mem_append.mp he' with hmem | hmem
  · obtain ⟨start, between, rfl⟩ := List.append_of_mem hmem
    have hsplit : IsLog (start ++ .create e' tick' :: (between ++ .create e tick :: rest)) := by
      simpa using h
    have hnot : e'.id ∉ created (between ++ .create e tick :: rest) := hsplit.not_created
    exact absurd (mem_created.mpr ⟨e, tick, by simp, hid⟩) hnot
  · rcases List.mem_cons.mp hmem with heq | hmem
    · cases heq
      rfl
    · exact absurd (mem_created.mpr ⟨e', tick', hmem, hid.symm⟩) h.not_created

end Outgoing

namespace Connection

variable {c : Connection} {log : List Outgoing}

/-- Everything that a consumer has, expects, or is being sent was announced. -/
structure Trusts (c : Connection) (log : List Outgoing) : Prop where
  /-- What is under way was announced. -/
  carried : ∀ e ∈ c.wire.envelopes.toList, ∃ tick, .create e tick ∈ log
  /-- What is expected was announced. -/
  expected : ∀ (id : ResourceId) (e : Envelope), c.replica.pending[id]? = some e →
    e.id = id ∧ ∃ tick, .create e tick ∈ log
  /-- What is there was announced. -/
  had : ∀ id found, c.replica.resource? id = some found →
    ∃ e tick, .create e tick ∈ log ∧ e.id = id ∧ found.Shows e

/-- A consumer goes on trusting a log that grows. -/
theorem Trusts.grow (h : c.Trusts log) {log' : List Outgoing} (hlog : log ⊆ log') :
    c.Trusts log' := by
  refine ⟨fun e he => ?_, fun id e he => ?_, fun id found hfound => ?_⟩
  · obtain ⟨tick, hmem⟩ := h.carried e he
    exact ⟨tick, hlog hmem⟩
  · obtain ⟨hid, tick, hmem⟩ := h.expected id e he
    exact ⟨hid, tick, hlog hmem⟩
  · obtain ⟨e, tick, hmem, hrest⟩ := h.had id found hfound
    exact ⟨e, tick, hlog hmem, hrest⟩

/-- Envelopes that were announced are kept. -/
theorem Trusts.receive {pending : Std.TreeMap ResourceId Envelope}
    (h : ∀ (id : ResourceId) (e : Envelope), pending[id]? = some e →
      e.id = id ∧ ∃ tick, .create e tick ∈ log) {envelopes : List Envelope}
    (hall : ∀ e ∈ envelopes, ∃ tick, .create e tick ∈ log) (id : ResourceId) (e : Envelope)
    (he : (envelopes.foldl keepEnvelope pending)[id]? = some e) :
    e.id = id ∧ ∃ tick, .create e tick ∈ log := by
  rcases Replica.of_getElem?_keepEnvelopes he with hbefore | ⟨hmem, hid⟩
  · exact h id e hbefore
  · exact ⟨hid, hall e hmem⟩

/-- One resource more is trusted if it was announced. -/
theorem Trusts.insert (h : c.Trusts log) {after : Connection} {found : LocalResource}
    {e : Envelope} {tick : Tick} (hmem : .create e tick ∈ log) (hshows : found.Shows e)
    (hwire : after.wire.envelopes = c.wire.envelopes)
    (hpending : after.replica.pending = c.replica.pending)
    (hresources : after.replica.resources = c.replica.resources.insert found.id found) :
    after.Trusts log := by
  refine ⟨hwire ▸ h.carried, hpending ▸ h.expected, fun id found' hfound => ?_⟩
  unfold Replica.resource? at hfound
  rw [hresources, Std.TreeMap.getElem?_insert] at hfound
  simp only [Std.LawfulEqOrd.compare_eq_iff_eq] at hfound
  split at hfound
  · rename_i hid
    cases hfound
    exact ⟨e, tick, hmem, hshows.id.symm.trans hid, hshows⟩
  · exact h.had id found' hfound

/-- What is erased need not be trusted. -/
theorem Trusts.erase_pending (h : c.Trusts log) (id : ResourceId) :
    (c.mapReplica fun r => { r with pending := r.pending.erase id }).Trusts log := by
  refine ⟨h.carried, fun x e he => ?_, h.had⟩
  have he : (c.replica.pending.erase id)[x]? = some e := he
  rw [Std.TreeMap.getElem?_erase] at he
  split at he
  · cases he
  · exact h.expected x e he

/-- Applying a record takes over what was announced, also where it fails. -/
theorem Trusts.ends_applyRecord (h : c.Trusts log) (record : Record) :
    Ends (applyRecord record) c (fun _ after => after.Trusts log)
      (fun _ after => after.Trusts log) := by
  unfold applyRecord
  split
  · unfold applyCreate
    rw [Ends.bind_iff, Ends.get_iff]
    split
    · exact ⟨h.carried, h.expected, h.had⟩
    · rename_i e he
      obtain ⟨-, tick, hmem⟩ := h.expected _ e he
      have hrest := h.erase_pending record.id
      rw [Ends.bind_iff, Ends.set_iff]
      generalize c.mapReplica _ = c at hrest
      unfold loadResource
      rw [Ends.bind_iff, Ends.get_iff]
      have hsettled (result : Except String Product) (notice : Notice) :
          ((c.mapReplica (·.note notice)).settleResult (.ofEnvelope e) result).Trusts log := by
        obtain ⟨res, hshows, hresources, hpending, hcourse⟩ :=
          settleResult_insert (c.mapReplica (·.note notice)) (.ofEnvelope e) result
        obtain ⟨acks, hwire⟩ := hcourse.wire
        have hkept : (c.mapReplica (·.note notice)).Trusts log := ⟨hrest.1, hrest.2, hrest.3⟩
        exact hkept.insert hmem (hshows e ⟨rfl, rfl, rfl, rfl, rfl⟩) (by rw [hwire]) hpending
          hresources
      have hbuiltIn : (c.settleResult (.ofEnvelope e) (.ok .unit)).Trusts log := by
        obtain ⟨res, hshows, hresources, hpending, hcourse⟩ :=
          settleResult_insert c (.ofEnvelope e) (.ok .unit)
        obtain ⟨acks, hwire⟩ := hcourse.wire
        exact hrest.insert hmem (hshows e ⟨rfl, rfl, rfl, rfl, rfl⟩) (by rw [hwire]) hpending
          hresources
      split
      · exact hrest.insert hmem (show (LocalResource.ofEnvelope e).Shows e from ⟨rfl, rfl, rfl, rfl, rfl⟩)
          rfl rfl rfl
      · split
        · exact hsettled _ _
        · split
          · exact hbuiltIn
          · exact hrest
  · rw [Ends.modify_iff]
    have hpending := h.erase_pending record.id
    refine ⟨?_, ?_, ?_⟩
    · unfold applyDispose mapReplica
      dsimp only
      exact h.carried
    · intro x e he
      apply hpending.expected x e
      rw [← he]
      unfold applyDispose mapReplica unload
      dsimp only
      split
      · rfl
      · split <;> rfl
    · intro x found hfound
      have hback : c.replica.resource? x = some found := by
        unfold applyDispose mapReplica unload Replica.resource? at hfound
        dsimp only at hfound
        split at hfound
        · exact hfound
        · have herase : (c.replica.resources.erase record.id)[x]? = some found := by
            split at hfound <;> exact hfound
          rw [Std.TreeMap.getElem?_erase] at herase
          split at herase
          · cases herase
          · exact herase
      exact h.had x found hback

/-- An update takes over what was announced, also where it fails. -/
theorem Trusts.ends_update (h : c.Trusts log) (tick : Tick) :
    Ends (update tick) c (fun _ after => after.Trusts log) (fun _ after => after.Trusts log) := by
  unfold update
  rw [Ends.bind_iff, Ends.modify_iff, Ends.bind_iff, Ends.get_iff]
  dsimp only
  rw [Ends.bind_iff, Ends.set_iff]
  apply Ends.forM
  · exact fun record _ c hc => hc.ends_applyRecord record
  · refine ⟨fun e he => ?_, fun id e he => ?_, h.had⟩
    · cases he
    · exact Trusts.receive h.expected h.carried id e he

end Connection

namespace Wire

variable {wire after : Wire} {thread : Thread} {e : Envelope}

/-- What is put on a wire adds no other envelope. -/
theorem mem_envelopes_deliver {d : Delivery} (h : wire.deliver thread d = .ok after)
    (he : e ∈ after.envelopes.toList) : e ∈ wire.envelopes.toList ∨ d = .envelope e := by
  unfold deliver at h
  split at h
  · split at h
    · cases h
      rw [Array.toList_push, List.mem_append, List.mem_singleton] at he
      rcases he with he | rfl
      · exact .inl he
      · exact .inr rfl
    · cases h
  · split at h
    · cases h
      exact .inl he
    · cases h

/-- Putting several things on a wire adds no other envelope, also where it fails. -/
theorem mem_envelopes_deliverAll {ds : List Delivery}
    (he : e ∈ (wire.deliverAll thread ds).1.envelopes.toList) :
    e ∈ wire.envelopes.toList ∨ .envelope e ∈ ds := by
  induction ds generalizing wire with
  | nil => exact .inl he
  | cons d rest ih =>
    simp only [deliverAll] at he
    split at he
    · rename_i mid hmid
      rcases ih he with he | he
      · rcases mem_envelopes_deliver hmid he with he | rfl
        · exact .inl he
        · exact .inr List.mem_cons_self
      · exact .inr (List.mem_cons_of_mem _ he)
    · exact .inl he

end Wire

/-- Only the envelope of a creation is sent ahead of a record. -/
theorem Outgoing.envelope_mem_deliveries {o : Outgoing} {e : Envelope}
    (h : .envelope e ∈ o.deliveries) : ∃ tick, o = .create e tick := by
  cases o with
  | create e' tick =>
    rcases List.mem_cons.mp h with heq | h
    · cases heq
      exact ⟨tick, rfl⟩
    · cases List.mem_singleton.mp h
  | dispose id tick => cases List.mem_singleton.mp h

/-- What becomes of the outbox and the envelopes of a link in a flush, whether it succeeds or not: the
outbox is kept or gone, and only envelopes from it are put on the wire. -/
structure Link.Sends (link link' : Link) : Prop where
  /-- The outbox is kept or gone. -/
  outbox : link'.outbox = link.outbox ∨ link'.outbox = #[]
  /-- An envelope was on the wire or comes from the outbox. -/
  envelopes : ∀ e ∈ link'.wire.envelopes.toList, e ∈ link.wire.envelopes.toList ∨
    ∃ tick, .create e tick ∈ link.outbox.toList
  /-- Nothing of an outbox that is kept is put on the wire. -/
  stays : link'.outbox ≠ #[] → link'.wire.envelopes = link.wire.envelopes

namespace Registry

/-- A link is flushed so. -/
theorem sends_flushLink (link : Link) : link.Sends (flushLink link).1 := by
  unfold flushLink
  split
  · exact ⟨.inl rfl, fun _ he => .inl he, fun _ => rfl⟩
  · refine ⟨.inr rfl, fun e he => ?_, fun hkept => absurd rfl hkept⟩
    rcases Wire.mem_envelopes_deliverAll he with he | he
    · exact .inl he
    · obtain ⟨o, ho, hmem⟩ := List.mem_flatMap.mp he
      obtain ⟨tick, rfl⟩ := Outgoing.envelope_mem_deliveries hmem
      exact .inr ⟨tick, ho⟩

end Registry

namespace Broadcast

variable {b b' : Broadcast} {action : Action} {j k : Nat} {log : List Outgoing}

/-- In a flush a link is flushed or passed over, whether the flush succeeds or not. Until then only its
snapshots and answers change. -/
theorem flush_link {link : Link} (hlink : b.registry.links[k]? = some link) :
    ∃ mid link', (b.step .flush).2.registry.links[k]? = some link' ∧ mid.outbox = link.outbox ∧
      mid.wire.envelopes = link.wire.envelopes ∧
        (link' = mid ∨ link' = (Registry.flushLink mid).1) := by
  have hbefore : ∀ retired, b.registry.processAcks.Reframed retired → ∃ mid : Link,
      retired.links[k]? = some mid ∧ mid.outbox = link.outbox ∧
        mid.wire.envelopes = link.wire.envelopes := by
    intro retired hretired
    have hmid := congrArg (·[k]?) hretired.course
    simp only [List.getElem?_map, hlink, Option.map_some] at hmid
    obtain ⟨mid, hmid, heq⟩ := Option.map_eq_some_iff.mp hmid
    have houtbox : mid.course.outbox = link.course.outbox := congrArg Link.outbox heq
    have henvelopes : mid.course.wire.envelopes = link.course.wire.envelopes :=
      congrArg (fun l : Link => l.wire.envelopes) heq
    exact ⟨mid, hmid, houtbox, henvelopes⟩
  apply onRegistry_after (P := fun after => ∃ mid link', after.links[k]? = some link' ∧
    mid.outbox = link.outbox ∧ mid.wire.envelopes = link.wire.envelopes ∧
      (link' = mid ∨ link' = (Registry.flushLink mid).1))
  have hsent : ∀ retired, b.registry.processAcks.Reframed retired → ∃ mid link',
      (Registry.flushLinks retired.links).1[k]? = some link' ∧ mid.outbox = link.outbox ∧
        mid.wire.envelopes = link.wire.envelopes ∧
          (link' = mid ∨ link' = (Registry.flushLink mid).1) := by
    intro retired hretired
    obtain ⟨mid, hmid, houtbox, henvelopes⟩ := hbefore retired hretired
    obtain ⟨link', hlink', hcases⟩ := Registry.getElem?_flushLinks hmid
    exact ⟨mid, link', hlink', houtbox, henvelopes, hcases.imp And.left And.left⟩
  apply (Registry.ends_flush b.registry).imp
  · rintro _ after ⟨retired, hretired, -, rfl⟩
    exact hsent retired hretired
  · rintro _ after ⟨retired, hretired, rfl | rfl⟩
    · obtain ⟨mid, hmid, houtbox, henvelopes⟩ := hbefore _ hretired
      exact ⟨mid, mid, hmid, houtbox, henvelopes, .inl rfl⟩
    · exact hsent retired hretired

/-- In a flush every link keeps its outbox or has it sent, whether the flush succeeds or not. -/
theorem sends_flush {link : Link} (hlink : b.registry.links[k]? = some link) :
    ∃ link', (b.step .flush).2.registry.links[k]? = some link' ∧ link.Sends link' := by
  obtain ⟨mid, link', hlink', houtbox, henvelopes, rfl | rfl⟩ := flush_link hlink
  · exact ⟨_, hlink', .inl houtbox, fun e he => .inl (henvelopes ▸ he), fun _ => henvelopes⟩
  · have hsends := Registry.sends_flushLink mid
    refine ⟨_, hlink', houtbox ▸ hsends.outbox, fun e he => ?_, fun hkept => ?_⟩
    · rw [← houtbox, ← henvelopes]
      exact hsends.envelopes e he
    · exact (hsends.stays hkept).trans henvelopes

/-- A flush leaves what waits or drops all of it from the outbox. -/
theorem outboxAt_flush_or (b : Broadcast) (k : Nat) :
    (b.step .flush).2.registry.outboxAt k = b.registry.outboxAt k ∨
      (b.step .flush).2.registry.outboxAt k = [] := by
  cases hlink : b.registry.links[k]? with
  | none =>
    have hk : b.registry.links.length ≤ k := List.getElem?_eq_none_iff.mp hlink
    exact .inr (Registry.outboxAt_of_le (by rwa [b.length_flush]))
  | some link =>
    obtain ⟨link', hlink', hsends⟩ := sends_flush hlink
    unfold Registry.outboxAt
    rw [hlink, hlink']
    exact hsends.outbox.imp (congrArg Array.toList) (congrArg Array.toList)

/-- An action that goes over the wires queues nothing. -/
theorem queues_eq_nil_of_external (b : Broadcast) (h : action.isInternal = false) (k : Nat) :
    Moment.queues ⟨b, action⟩ k = [] := by
  apply Moment.queues_eq_nil
  by_cases hflush : action = .flush
  · subst hflush
    exact b.outboxAt_flush_or k
  · exact .inl (b.outboxAt_step h hflush k)

/-- The consumers trust the log of a link. -/
structure Heralds (b : Broadcast) (k : Nat) (log : List Outgoing) : Prop where
  /-- Every link has a replica at its far end. -/
  sizes : b.replicas.size = b.registry.links.length
  /-- Every live resource is bound to links that there are, and to each of them once. -/
  linked : b.registry.IsLinked
  /-- The log is that of the link. -/
  logs : b.registry.Logs k log
  /-- What waits to be sent is the end of the log. -/
  waits : ∃ sent, log = sent ++ b.registry.outboxAt k
  /-- The consumer trusts the log. -/
  trusts : ∀ c, b.connection? k = some c → c.Trusts log

namespace Heralds

/-- An action on the resources of the producer continues the log. -/
theorem internal (h : b.Heralds k log) (hinternal : action.isInternal = true)
    (hc : action.IsCompiled) (hw : b.registry.WellFormed)
    (hl : (b.step action).2.registry.supply.Lasts) :
    (b.step action).2.Heralds k (log ++ Moment.queues ⟨b, action⟩ k) := by
  obtain ⟨sent, hsent⟩ := h.waits
  have hlog : log ++ Moment.queues ⟨b, action⟩ k =
      sent ++ (b.step action).2.registry.outboxAt k := by
    rw [hsent, (Moment.outboxAt_internal b hinternal k).1, List.append_assoc]
  have htransits := transits_step (b := b) hinternal
  obtain ⟨-, hlinked, hlogs⟩ := (changes_step hinternal hc hw hl).keep
    (P := fun s => s.IsLinked ∧ s.Logs k (sent ++ s.outboxAt k)) hw hl
    (fun _ _ _ _ hw₁ _ hl₂ hedit hkept =>
      ⟨hedit.isLinked hkept.1, hedit.logs hw₁ hl₂ hkept.1 hkept.2⟩)
    ⟨h.linked, hsent ▸ h.logs⟩
  have hreplicas := replicas_step (b := b) hinternal
  refine ⟨by rw [hreplicas, length_links_internal hinternal, h.sizes], hlinked, hlog ▸ hlogs,
    ⟨sent, hlog⟩, fun c hc => ?_⟩
  obtain ⟨replica, link', hreplica, hlink', rfl⟩ := connection?_eq_some.mp hc
  rw [hreplicas] at hreplica
  have hlink := congrArg (·[k]?) htransits
  simp only [List.getElem?_map, hlink', Option.map_some] at hlink
  obtain ⟨link, hlink, heq⟩ := Option.map_eq_some_iff.mp hlink.symm
  have hbefore := (h.trusts _ (connection?_eq_some.mpr ⟨replica, link, hreplica, hlink, rfl⟩)).grow
    (List.subset_append_left log (Moment.queues ⟨b, action⟩ k))
  have henvelopes : link.wire.transit.envelopes = link'.wire.transit.envelopes :=
    congrArg Wire.envelopes heq
  exact ⟨fun e he => hbefore.carried e (henvelopes ▸ he), hbefore.expected, hbefore.had⟩

/-- An action that goes over the wires leaves the log. -/
theorem external (h : b.Heralds k log) (hexternal : action.isInternal = false)
    (htrusts : ∀ c, (b.step action).2.connection? k = some c → c.Trusts log) :
    (b.step action).2.Heralds k (log ++ Moment.queues ⟨b, action⟩ k) := by
  have hsame : b.registry.SameBodies (b.step action).2.registry := sameBodies_step hexternal
  rw [b.queues_eq_nil_of_external hexternal, List.append_nil]
  refine ⟨sizes_step action h.sizes, hsame.isLinked (length_links_step hexternal) h.linked,
    h.logs.of_body hsame.issued.ge hsame.resources, ?_, htrusts⟩
  obtain ⟨sent, hsent⟩ := h.waits
  by_cases hflush : action = .flush
  · subst hflush
    rcases b.outboxAt_flush_or k with heq | heq
    · exact ⟨sent, by rw [heq, hsent]⟩
    · exact ⟨log, by rw [heq, List.append_nil]⟩
  · exact ⟨sent, by rw [b.outboxAt_step hexternal hflush, hsent]⟩

/-- An operation of a consumer that takes over only what was announced leaves the log. -/
theorem onConnection (h : b.Heralds k log) {α : Type} (m : ConnectionM α)
    (hm : ∀ c : Connection, c.Trusts log →
      Ends m c (fun _ after => after.Trusts log) (fun _ after => after.Trusts log)) :
    ∀ c, (b.onConnection j m).2.connection? k = some c → c.Trusts log := by
  have hset (c after : Connection) (hc : b.connection? j = some c)
      (hafter : c.Trusts log → after.Trusts log) :
      ∀ c, (b.setConnection j after).connection? k = some c → c.Trusts log := by
    intro c' hc'
    rw [connection?_setConnection] at hc'
    split at hc'
    · rename_i hjk
      subst hjk
      rw [hc] at hc'
      cases hc'
      exact hafter (h.trusts c hc)
    · exact h.trusts c' hc'
  rcases b.onConnection_cases j m with
    ⟨-, heq⟩ | ⟨c, hc, ⟨_, after, hrun, heq⟩ | ⟨_, after, hrun, heq⟩⟩
  · rw [heq]
    exact h.trusts
  · rw [heq]
    exact hset c after hc fun hc => (hm c hc).of_ok hrun
  · rw [heq]
    exact hset c after hc fun hc => (hm c hc).of_error hrun

/-- A new link has a consumer at its far end that knows of nothing. -/
theorem connect (h : b.Heralds k log) (thread : Thread) :
    (b.step (.connect thread)).2.Heralds k (log ++ Moment.queues ⟨b, .connect thread⟩ k) := by
  rcases b.step_connect thread with ⟨wire, hwire, hstep⟩ | ⟨e, hstep⟩
  · refine h.external rfl fun c hconn => ?_
    rw [hstep] at hconn
    obtain ⟨replica, link, hreplica, hlink, rfl⟩ := connection?_eq_some.mp hconn
    rw [Array.getElem?_push, h.sizes] at hreplica
    rw [List.getElem?_append] at hlink
    split at hreplica
    · rename_i hnew
      cases hreplica
      rw [hnew, if_neg (Nat.lt_irrefl _), Nat.sub_self, List.getElem?_cons_zero] at hlink
      cases hlink
      have hmirrors := Replica.mirrors_create thread
      refine ⟨fun e he => ?_, fun id e he => ?_, fun id found hfound => ?_⟩
      · have hsent := (Wire.carries_create hwire).envelopes
        rw [hsent] at he
        cases he
      · obtain ⟨-, tick, hmem⟩ := (hmirrors.expects id e).mp he
        cases hmem
      · obtain ⟨e, tick, hmem, -⟩ := hmirrors.reflects.announced id found hfound
        cases hmem
    · have hk := (Array.getElem?_eq_some_iff.mp hreplica).1
      rw [h.sizes] at hk
      rw [if_pos hk] at hlink
      exact h.trusts _ (connection?_eq_some.mpr ⟨replica, link, hreplica, hlink, rfl⟩)
  · refine h.external rfl ?_
    rw [hstep]
    exact h.trusts

/-- An action that leaves the replicas alone, and puts only what was announced on a wire, continues
the log. -/
theorem relink (h : b.Heralds k log) (hexternal : action.isInternal = false)
    (hreplicas : (b.step action).2.replicas = b.replicas)
    (hlength : (b.step action).2.registry.links.length = b.registry.links.length)
    (henvelopes : ∀ link link', b.registry.links[k]? = some link →
      (b.step action).2.registry.links[k]? = some link' →
        ∀ e ∈ link'.wire.envelopes.toList, e ∈ link.wire.envelopes.toList ∨
          ∃ tick, .create e tick ∈ log) :
    (b.step action).2.Heralds k (log ++ Moment.queues ⟨b, action⟩ k) := by
  refine h.external hexternal fun c hconn => ?_
  obtain ⟨replica, link', hreplica, hlink', rfl⟩ := connection?_eq_some.mp hconn
  have hk : k < b.registry.links.length := hlength ▸ (List.getElem?_eq_some_iff.mp hlink').1
  have hlink := List.getElem?_eq_getElem hk
  rw [hreplicas] at hreplica
  have hbefore := h.trusts _ (connection?_eq_some.mpr ⟨replica, _, hreplica, hlink, rfl⟩)
  refine ⟨fun e he => ?_, hbefore.expected, hbefore.had⟩
  rcases henvelopes _ link' hlink hlink' e he with he | he
  · exact hbefore.carried e he
  · exact he

/-- A commit puts no envelope on a wire. -/
theorem commit (h : b.Heralds k log) :
    (b.step .commit).2.Heralds k (log ++ Moment.queues ⟨b, .commit⟩ k) := by
  refine h.relink rfl (replicas_onRegistry _ _ _)
    (by simpa using congrArg List.length b.courses_commit) fun link link' hlink hlink' e he => .inl ?_
  have heq := congrArg (·[k]?) b.courses_commit
  simp only [List.getElem?_map, hlink, hlink', Option.map_some, Option.some.injEq] at heq
  have henvelopes : link'.course.wire.envelopes = link.course.wire.envelopes :=
    congrArg (fun l : Link => l.wire.envelopes) heq
  exact henvelopes ▸ he

/-- A flush puts envelopes on a wire that were announced in the log. -/
theorem flush (h : b.Heralds k log) :
    (b.step .flush).2.Heralds k (log ++ Moment.queues ⟨b, .flush⟩ k) := by
  obtain ⟨sent, hsent⟩ := h.waits
  refine h.relink rfl (replicas_onRegistry _ _ _) b.length_flush fun link link' hlink hlink' e he => ?_
  obtain ⟨_, hmid, hsends⟩ := sends_flush hlink
  cases hlink'.symm.trans hmid
  refine (hsends.envelopes e he).imp_right ?_
  rintro ⟨tick, hmem⟩
  refine ⟨tick, hsent ▸ List.mem_append_right _ ?_⟩
  unfold Registry.outboxAt
  rw [hlink]
  exact hmem

/-- A consumer that hangs up takes nothing more from its wire. -/
theorem hangUp (h : b.Heralds k log) (j : Nat) :
    (b.step (.hangUp j)).2.Heralds k (log ++ Moment.queues ⟨b, .hangUp j⟩ k) := by
  refine h.relink rfl rfl (List.length_modify _ _ _) fun link link' hlink hlink' e he => .inl ?_
  have hlink' : (b.registry.links.modify j fun link =>
    { link with wire := link.wire.hangUp })[k]? = some link' := hlink'
  rw [List.getElem?_modify, hlink] at hlink'
  split at hlink'
  · cases hlink'
    cases he
  · cases hlink'
    exact he

/-- Every action continues the log by what it queues. -/
theorem step (h : b.Heralds k log) (hc : action.IsCompiled) (hw : b.registry.WellFormed)
    (hl : (b.step action).2.registry.supply.Lasts) :
    (b.step action).2.Heralds k (log ++ Moment.queues ⟨b, action⟩ k) := by
  cases hinternal : action.isInternal with
  | true => exact h.internal hinternal hc hw hl
  | false =>
    cases action with
    | setTick tick => exact h.external rfl h.trusts
    | connect thread => exact h.connect thread
    | commit => exact h.commit
    | flush => exact h.flush
    | registerLoader j type loader =>
      have htrusts := h.onConnection (j := j)
        (modify fun c => c.mapReplica (·.registerLoader type loader))
        fun c hc => ⟨hc.carried, hc.expected, hc.had⟩
      exact h.external rfl htrusts
    | update j tick =>
      have htrusts := h.onConnection (j := j) (Connection.update tick)
        fun c hc => hc.ends_update tick
      exact h.external rfl htrusts
    | hangUp j => exact h.hangUp j
    | registerType | createOpaque | createInstance | createString | createBuffer | retain |
      dispose | setProp | setPropFromScript | await | processAcks | elsewhere => cases hinternal

end Heralds

end Broadcast

/-- In every run the consumers trust what was queued for them. -/
theorem Run.heralds {config : Config} {supply : Supply} {past : List Moment} {b : Broadcast}
    (h : Run (.opened config supply) past b) (hc : ∀ m ∈ past, m.action.IsCompiled)
    (hl : b.registry.supply.Lasts) (k : Nat) : b.Heralds k (queued k past) := by
  refine h.keeps (P := fun past b => b.Heralds k (queued k past)) hc hl ?_ ?_
  · refine ⟨rfl, ?_, ⟨Outgoing.isLog_nil, fun x => ⟨fun hx => ?_, ?_⟩, ?_, ?_⟩, ⟨[], rfl⟩, ?_⟩
    · intro x res hx
      rw [Broadcast.resource?_opened] at hx
      cases hx
    · cases hx
    · rintro ⟨res, hres, -⟩
      rw [Broadcast.resource?_opened] at hres
      cases hres
    · intro x hx
      cases hx
    · intro e tick he
      cases he
    · intro c hconn
      cases hconn
  · intro past b action h hrest hone hlasts hl ih
    exact ih.step hone (h.wellFormed hrest hlasts) hl

end Framecast
