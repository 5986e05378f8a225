import Framecast.Proofs.Feed.Blocking
import Framecast.Proofs.Run.Segments

/-!
# What a flush can make up for

When a flush finds no room in a ring, the outbox waits, and the consumer makes room by
its next update. If every consumer is there and has taken all that was in its ring, a
flush succeeds exactly if no outbox is larger than a ring. An outbox that has outgrown
its ring is never sent again, whatever is done, since it is only ever sent as a whole.
-/

namespace Framecast

/-- Whether every consumer is there and has taken all that was in its ring. -/
def Registry.IsDrained (r : Registry) : Prop :=
  ∀ link ∈ r.links, link.wire.receiving = true ∧ link.wire.ring.length = 0

namespace Broadcast

variable {b b' : Broadcast} {action : Action} {j k capacity : Nat}

/-- An update takes everything out of its own ring, and nothing out of the others. -/
theorem link_of_update (hrings : b.registry.HasRingsOf capacity)
    (hsizes : b.replicas.size = b.registry.links.length) {tick : Tick} {link' : Link}
    (hlink' : (b.step (.update j tick)).2.registry.links[k]? = some link') :
    ∃ link, b.registry.links[k]? = some link ∧ link'.wire.receiving = link.wire.receiving ∧
      (j = k → link'.wire.ring.length = 0) ∧ (j ≠ k → link'.wire.ring = link.wire.ring) := by
  change (b.onConnection j (Connection.update tick)).2.registry.links[k]? = some link' at hlink'
  rcases b.onConnection_cases j (Connection.update tick) with ⟨hnone, heq⟩ | ⟨c, hc, hcases⟩
  · rw [heq] at hlink'
    refine ⟨link', hlink', rfl, fun hjk => ?_, fun _ => rfl⟩
    subst hjk
    have hj : j < b.replicas.size := hsizes ▸ (List.getElem?_eq_some_iff.mp hlink').1
    have hsome := connection?_eq_some.mpr
      ⟨_, link', Array.getElem?_eq_getElem hj, hlink', rfl⟩
    rw [hnone] at hsome
    cases hsome
  · have hends := Connection.ends_update_wire tick c
    obtain ⟨after, heq, acks, hwire⟩ : ∃ after : Connection,
        (b.onConnection j (Connection.update tick)).2 = b.setConnection j after ∧
          ∃ acks, after.wire = { c.wire with
            frames := c.wire.frames.pickUp.2
            ring := (c.replica.gate.drain c.wire.ring tick).ring
            envelopes := #[], acks } := by
      rcases hcases with ⟨_, after, hrun, heq⟩ | ⟨_, after, hrun, heq⟩
      · exact ⟨after, by rw [heq], hends.of_ok hrun⟩
      · exact ⟨after, by rw [heq], hends.of_error hrun⟩
    obtain ⟨replica, own, -, hown, rfl⟩ := connection?_eq_some.mp hc
    rw [heq] at hlink'
    have hlink' : (b.registry.links.modify j _)[k]? = some link' := hlink'
    rw [List.getElem?_modify] at hlink'
    obtain ⟨link, hlink, rfl⟩ := Option.map_eq_some_iff.mp hlink'
    refine ⟨link, hlink, ?_⟩
    by_cases hjk : j = k
    · subst hjk
      cases hown.symm.trans hlink
      have hdrained := ((hrings own (List.mem_of_getElem? hown)).drain replica.gate tick).2
      rw [if_pos rfl]
      refine ⟨?_, fun _ => ?_, fun hne => absurd rfl hne⟩
      all_goals
        dsimp only
        rw [hwire]
      exact hdrained
    · rw [if_neg hjk]
      exact ⟨rfl, fun heq => absurd heq hjk, fun _ => rfl⟩

/-- How a flush ends when all rings are empty: an outbox is sent if it fits, and all of them are if
all of them fit. -/
structure FlushesFitting (b : Broadcast) (capacity : Nat) : Prop where
  /-- If all outboxes fit, the flush succeeds and nothing waits any more. -/
  fitting : (∀ k, (b.registry.outboxAt k).length ≤ capacity) →
    (b.step .flush).1 = .done ∧ ∀ k, (b.step .flush).2.registry.outboxAt k = []
  /-- If an outbox does not fit, the flush fails, and that outbox goes on waiting. -/
  outgrown : ∀ k, capacity < (b.registry.outboxAt k).length →
    (b.step .flush).1 = .failed (.transport (.ringFull capacity)) ∧
      (b.step .flush).2.registry.outboxAt k = b.registry.outboxAt k

/-- An outbox that is larger than the ring does not fit, however empty the ring is. -/
theorem exists_full_of_outgrown (hrings : b.registry.HasRingsOf capacity)
    (hlarge : capacity < (b.registry.outboxAt k).length) : ∃ link,
      b.registry.links[k]? = some link ∧ link.wire.ring.free < link.outbox.size := by
  cases hlink : b.registry.links[k]? with
  | none =>
    rw [Registry.outboxAt_of_le (List.getElem?_eq_none_iff.mp hlink)] at hlarge
    exact absurd hlarge (Nat.not_lt_zero _)
  | some link =>
    rw [Registry.outboxAt_of_getElem? hlink, Array.length_toList] at hlarge
    have hcapacity := (hrings link (List.mem_of_getElem? hlink)).capacity
    have hfree : link.wire.ring.free ≤ link.wire.ring.capacity.toNat := Nat.sub_le _ _
    exact ⟨link, rfl, by omega⟩

/-- When all rings are empty, what fits is flushed. -/
theorem flushesFitting_of_drained (hwired : b.registry.IsWired)
    (hrings : b.registry.HasRingsOf capacity) (hdrained : b.registry.IsDrained) :
    b.FlushesFitting capacity := by
  have hanswer := (step_flush_links hwired hrings).1
  have hroom {link : Link} (hlink : link ∈ b.registry.links) :
      link.wire.ring.capacity.toNat = capacity ∧ link.wire.ring.free = capacity := by
    have hcapacity := (hrings link hlink).capacity
    refine ⟨hcapacity, ?_⟩
    unfold RecordRing.free
    rw [(hdrained link hlink).2, hcapacity, Nat.sub_zero]
  refine ⟨fun hfits => ?_, fun k hlarge => ?_⟩
  · have hopen : ∀ link ∈ b.registry.links, link.blocks? = none := by
      intro link hlink
      obtain ⟨k, hk⟩ := List.mem_iff_getElem?.mp hlink
      have hsize := hfits k
      rw [Registry.outboxAt_of_getElem? hk, Array.length_toList, ← (hroom hlink).2] at hsize
      exact Link.blocks?_eq_none (hdrained link hlink).1 hsize
    refine ⟨by rw [hanswer, List.findSome?_eq_none_iff.mpr hopen], fun k => ?_⟩
    cases hlink : b.registry.links[k]? with
    | none =>
      apply Registry.outboxAt_of_le
      rw [b.length_flush]
      exact List.getElem?_eq_none_iff.mp hlink
    | some link =>
      have hahead : (b.registry.links.take k).findSome? Link.blocks? = none :=
        List.findSome?_eq_none_iff.mpr fun other hother => hopen other (List.mem_of_mem_take hother)
      exact (clears_flush hwired hrings hlink hahead
        (hopen link (List.mem_of_getElem? hlink))).outbox
  · obtain ⟨link, hlink, hfull⟩ := exists_full_of_outgrown hrings hlarge
    refine ⟨?_, (skips_flush_of_full hwired hrings hlink hfull).outbox⟩
    cases hfirst : b.registry.links.findSome? Link.blocks? with
    | none =>
      have hown := List.findSome?_eq_none_iff.mp hfirst link (List.mem_of_getElem? hlink)
      unfold Link.blocks? at hown
      rw [if_pos hfull] at hown
      cases hown
    | some e =>
      obtain ⟨first, hmem, hblocks⟩ := List.exists_of_findSome?_eq_some hfirst
      have hcause : e = .transport (.ringFull capacity) := by
        unfold Link.blocks? at hblocks
        split at hblocks
        · rw [(hroom hmem).1] at hblocks
          exact (Option.some.inj hblocks).symm
        · rw [if_neg fun h => by simp [(hdrained first hmem).1] at h] at hblocks
          cases hblocks
      rw [hanswer, hfirst, hcause]

/-- No action sends an outbox that has outgrown its ring. -/
theorem outgrown_step (hwired : b.registry.IsWired) (hrings : b.registry.HasRingsOf capacity)
    (hlarge : capacity < (b.registry.outboxAt k).length) :
    capacity < ((b.step action).2.registry.outboxAt k).length := by
  cases hinternal : action.isInternal with
  | true =>
    rw [(Moment.outboxAt_internal b hinternal k).1, List.length_append]
    omega
  | false =>
    by_cases hflush : action = .flush
    · subst hflush
      obtain ⟨link, hlink, hfull⟩ := exists_full_of_outgrown hrings hlarge
      have hkept : (b.step .flush).2.registry.outboxAt k = b.registry.outboxAt k :=
        (skips_flush_of_full hwired hrings hlink hfull).outbox
      rwa [hkept]
    · rwa [b.outboxAt_step hinternal hflush k]

end Broadcast

namespace Run

variable {config : Config} {supply : Supply} {past later : List Moment} {b b' : Broadcast} {k : Nat}

/-- An outbox that has outgrown its ring is never sent again, whatever is done. -/
theorem stays_outgrown (h : Run (.opened config supply) past b) (hlater : Run b later b')
    (hlarge : RecordRing.roundedCapacity config.ringCapacity < (b.registry.outboxAt k).length) :
    RecordRing.roundedCapacity config.ringCapacity < (b'.registry.outboxAt k).length := by
  induction hlater with
  | nil => exact hlarge
  | snoc hlater action ih =>
    have hrun := h.append hlater
    exact Broadcast.outgrown_step hrun.isWired hrun.hasRingsOf ih

/-- What waits goes on waiting through updates. -/
theorem outboxAt_updates (hlater : Run b later b')
    (honly : ∀ m ∈ later, ∃ j tick, m.action = .update j tick) (k : Nat) :
    b'.registry.outboxAt k = b.registry.outboxAt k := by
  induction hlater with
  | nil => rfl
  | @snoc later b' _ action ih =>
    obtain ⟨⟨j, tick, rfl⟩, hrest⟩ := List.forall_mem_cons.mp honly
    exact (b'.outboxAt_step rfl (fun h => by cases h) k).trans (ih hrest)

/-- Updates of all consumers whose rings are not empty drain all rings. -/
theorem isDrained (h : Run (.opened config supply) past b)
    (hreceiving : ∀ link ∈ b.registry.links, link.wire.receiving = true)
    (hlater : Run b later b') (honly : ∀ m ∈ later, ∃ j tick, m.action = .update j tick)
    (hall : ∀ k link, b.registry.links[k]? = some link →
      link.wire.ring.length = 0 ∨ ∃ m ∈ later, ∃ tick, m.action = .update k tick) :
    b'.registry.IsDrained := by
  have hkept : ∀ k link', b'.registry.links[k]? = some link' →
      ∃ link, b.registry.links[k]? = some link ∧
        link'.wire.receiving = link.wire.receiving ∧
        ((link.wire.ring.length = 0 ∨ ∃ m ∈ later, ∃ tick, m.action = .update k tick) →
          link'.wire.ring.length = 0) := by
    clear hall
    induction hlater with
    | nil =>
      intro k link hlink
      refine ⟨link, hlink, rfl, fun hempty => hempty.resolve_right ?_⟩
      rintro ⟨m, hm, -⟩
      cases hm
    | @snoc later b₁ hlater action ih =>
      obtain ⟨⟨j, tick, rfl⟩, hrest⟩ := List.forall_mem_cons.mp honly
      have hrun := h.append hlater
      intro k link₂ hlink₂
      obtain ⟨link₁, hlink₁, hreceiving₁, hown, hother⟩ :=
        Broadcast.link_of_update hrun.hasRingsOf hrun.sizes hlink₂
      obtain ⟨link, hlink, hreceiving, hempty⟩ := ih hrest k link₁ hlink₁
      refine ⟨link, hlink, hreceiving₁.trans hreceiving, fun hbefore => ?_⟩
      by_cases hjk : j = k
      · exact hown hjk
      · rw [hother hjk]
        apply hempty
        refine hbefore.imp_right ?_
        rintro ⟨m, hm, tick', hm'⟩
        rcases List.mem_cons.mp hm with rfl | hm
        · cases hm'
          exact absurd rfl hjk
        · exact ⟨m, hm, tick', hm'⟩
  intro link' hlink'
  obtain ⟨k, hk⟩ := List.mem_iff_getElem?.mp hlink'
  obtain ⟨link, hlink, hsame, hempty⟩ := hkept k link' hk
  exact ⟨hsame.trans (hreceiving link (List.mem_of_getElem? hlink)), hempty (hall k link hlink)⟩

/-- Whatever was done, if every consumer is there and those whose rings are not empty are updated,
all rings are empty and what waits goes on waiting. A flush then succeeds and leaves nothing waiting
if no outbox is larger than the rings, and otherwise fails and leaves what does not fit. -/
theorem flushes_fitting (h : Run (.opened config supply) past b)
    (hreceiving : ∀ link ∈ b.registry.links, link.wire.receiving = true)
    (hlater : Run b later b') (honly : ∀ m ∈ later, ∃ j tick, m.action = .update j tick)
    (hall : ∀ k link, b.registry.links[k]? = some link →
      link.wire.ring.length = 0 ∨ ∃ m ∈ later, ∃ tick, m.action = .update k tick) :
    b'.registry.IsDrained ∧ (∀ k, b'.registry.outboxAt k = b.registry.outboxAt k) ∧
      b'.FlushesFitting (RecordRing.roundedCapacity config.ringCapacity) := by
  have hrun := h.append hlater
  have hdrained := h.isDrained hreceiving hlater honly hall
  exact ⟨hdrained, hlater.outboxAt_updates honly,
    Broadcast.flushesFitting_of_drained hrun.isWired hrun.hasRingsOf hdrained⟩

end Run

namespace Samples

/-- A ring for two records that holds two, and a third node that waits. -/
def waiting : List Moment × Broadcast :=
  (Broadcast.opened ⟨.game, 2⟩ ⟨0, .initial⟩).play
    [.connect .render,
      .createInstance ⟨0, node⟩ [] {},
      .createInstance ⟨0, node⟩ [] {},
      .flush,
      .createInstance ⟨0, node⟩ [] {}]

/-- The state in which the consumer has taken the two. -/
def fetched : Broadcast := (waiting.2.step (.update 0 0)).2

/-- The third node fits, and is sent once the consumer has taken the other two. -/
theorem flushes_fetched :
    (waiting.2.step .flush).1 = .failed (.transport (.ringFull 2)) ∧
      (fetched.registry.outboxAt 0).map Outgoing.record = [⟨.create, 0, 3⟩] ∧
      (fetched.step .flush).1 = .done ∧
      ∀ k, (fetched.step .flush).2.registry.outboxAt k = [] := by
  have hrun : Run (.opened ⟨.game, 2⟩ ⟨0, .initial⟩) waiting.1 waiting.2 := .play _ _
  have hlater : Run waiting.2 [⟨waiting.2, .update 0 0⟩] fetched := .snoc .nil (.update 0 0)
  have hreceiving : ∀ link ∈ waiting.2.registry.links, link.wire.receiving = true := by
    decide +kernel
  have hone : waiting.2.registry.links.length = 1 := by decide +kernel
  have hsame : fetched.registry.links.length = 1 := by decide +kernel
  obtain ⟨-, -, hfitting⟩ := Run.flushes_fitting hrun hreceiving hlater
    (by simp) fun k link hlink => by
      have hk := (List.getElem?_eq_some_iff.mp hlink).1
      obtain rfl : k = 0 := by omega
      exact .inr ⟨_, List.mem_singleton_self _, 0, rfl⟩
  refine ⟨by decide +kernel, by decide +kernel, hfitting.fitting fun k => ?_⟩
  cases k with
  | zero => decide +kernel
  | succ k =>
    rw [Registry.outboxAt_of_le (by omega)]
    exact Nat.zero_le _

/-- Three nodes for a ring that takes two. -/
def outgrown : List Moment × Broadcast :=
  (Broadcast.opened ⟨.game, 2⟩ ⟨0, .initial⟩).play
    [.connect .render,
      .createInstance ⟨0, node⟩ [] {},
      .createInstance ⟨0, node⟩ [] {},
      .createInstance ⟨0, node⟩ [] {}]

/-- The consumer is there and its ring is empty, and yet the nodes are not sent, neither before nor
after an update. -/
theorem outgrown_waits :
    (∀ link ∈ outgrown.2.registry.links,
      link.wire.receiving = true ∧ link.wire.ring.length = 0) ∧
      (outgrown.2.step .flush).1 = .failed (.transport (.ringFull 2)) ∧
      ((outgrown.2.step .flush).2.registry.outboxAt 0).length = 3 ∧
      ((outgrown.2.play [.flush, .update 0 0]).2.step .flush).1 =
        .failed (.transport (.ringFull 2)) ∧
      ((outgrown.2.play [.flush, .update 0 0]).2.step .flush).2.registry.outboxAt 0 ≠ [] :=
  ⟨by decide +kernel, by decide +kernel, by decide +kernel, by decide +kernel, by decide +kernel⟩

end Samples

end Framecast
