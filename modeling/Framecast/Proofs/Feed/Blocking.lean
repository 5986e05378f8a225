import Framecast.Proofs.Feed.Outbox
import Framecast.Proofs.Feed.Rings
import Framecast.Proofs.Frames.Turning

/-!
# What ends a flush

A flush goes through the links in the order in which they were opened, and ends at the
first that blocks: its ring has no room for the whole outbox, or its consumer is gone
and a creation waits for it. The links ahead of that one are sent everything that
waits for them. Those behind it are not reached, whatever room they have.
-/

namespace Framecast

/-- Why a flush ends at a link, if it does. -/
def Link.blocks? (link : Link) : Option ResourceError :=
  if link.wire.ring.free < link.outbox.size then
    some (.transport (.ringFull link.wire.ring.capacity.toNat))
  else if link.wire.receiving = false ∧ link.outbox.toList.filterMap Outgoing.envelope? ≠ [] then
    some (.disconnected link.thread)
  else none

/-- A link whose consumer is there and whose ring has room for the outbox does not block. -/
theorem Link.blocks?_eq_none {link : Link} (hreceiving : link.wire.receiving = true)
    (hroom : link.outbox.size ≤ link.wire.ring.free) : link.blocks? = none := by
  unfold blocks?
  rw [if_neg (Nat.not_lt_of_le hroom), if_neg]
  rintro ⟨hgone, -⟩
  rw [hreceiving] at hgone
  cases hgone

namespace Registry

variable {link : Link} {links : List Link} {queue : List Record} {k capacity : Nat}

/-- A link that does not block is sent everything that waits for it. -/
theorem flushLink_of_unblocked (hring : link.wire.ring.Holds queue) (hnone : link.blocks? = none) :
    ∃ ring : RecordRing, ring.Holds (queue ++ link.outbox.toList.map Outgoing.record) ∧
      flushLink link =
        ({ link with outbox := #[], wire := link.wire.loaded ring link.outbox.toList }, none) := by
  have hfits := hring.fits
  unfold Link.blocks? at hnone
  unfold flushLink
  by_cases hfull : link.wire.ring.free < link.outbox.size
  · rw [if_pos hfull] at hnone
    cases hnone
  · rw [if_neg hfull] at hnone ⊢
    rw [hring.free] at hfull
    have hreach : link.wire.receiving = true ∨
        link.outbox.toList.filterMap Outgoing.envelope? = [] := by
      by_contra hnot
      rw [not_or, Bool.not_eq_true] at hnot
      rw [if_pos hnot] at hnone
      cases hnone
    have hsize : link.outbox.toList.length = link.outbox.size := Array.length_toList
    have hroom : queue.length + link.outbox.toList.length ≤ link.wire.ring.capacity.toNat := by
      omega
    obtain ⟨ring, hholds, -, hdelivered⟩ :=
      Wire.deliverAll_of_room hring link.thread hroom hreach
    exact ⟨ring, hholds, by rw [hdelivered]⟩

/-- Sending an outbox fails if the link blocks, and for the reason that it blocks for. -/
theorem flushLink_snd (hring : link.wire.ring.Holds queue) :
    (flushLink link).2 = link.blocks? := by
  have hfits := hring.fits
  by_cases hfull : link.wire.ring.free < link.outbox.size
  · unfold flushLink Link.blocks?
    rw [if_pos hfull, if_pos hfull]
  · by_cases hgone : link.wire.receiving = false ∧
        link.outbox.toList.filterMap Outgoing.envelope? ≠ []
    · have hsize : link.outbox.toList.length = link.outbox.size := Array.length_toList
      have hroom : queue.length + link.outbox.toList.length ≤ link.wire.ring.capacity.toNat := by
        rw [hring.free] at hfull
        omega
      have hfailed := Wire.deliverAll_of_hungUp hring link.thread hroom hgone.1 hgone.2
      unfold flushLink Link.blocks?
      rw [if_neg hfull, if_neg hfull, if_pos hgone]
      exact hfailed
    · have hnone : link.blocks? = none := by
        unfold Link.blocks?
        rw [if_neg hfull, if_neg hgone]
      obtain ⟨_, -, hflush⟩ := flushLink_of_unblocked hring hnone
      rw [hflush, hnone]

theorem flushLink_of_isEmpty (h : link.outbox.isEmpty = true) : flushLink link = (link, none) := by
  obtain ⟨thread, outbox, wire⟩ := link
  obtain rfl : outbox = #[] := Array.isEmpty_iff.mp h
  rfl

/-- The links behind one that blocks are not reached. -/
theorem flushLinks_cons (link : Link) (rest : List Link) :
    flushLinks (link :: rest) =
      match (flushLink link).2 with
      | some e => ((flushLink link).1 :: rest, some e)
      | none => ((flushLink link).1 :: (flushLinks rest).1, (flushLinks rest).2) := by
  conv_lhs => unfold flushLinks
  split
  · rename_i hempty
    rw [flushLink_of_isEmpty hempty]
  · split
    · rename_i hflush
      rw [hflush]
    · rename_i hflush
      rw [hflush]

/-- Sending the outboxes fails if one of the links blocks, and for the reason that the first of these
blocks for. -/
theorem flushLinks_snd (h : ∀ link ∈ links, link.wire.ring.IsQueueOf capacity) :
    (flushLinks links).2 = links.findSome? Link.blocks? := by
  induction links with
  | nil => rfl
  | cons link rest ih =>
    obtain ⟨hlink, hrest⟩ := List.forall_mem_cons.mp h
    obtain ⟨queue, hring⟩ := hlink.holds
    rw [flushLinks_cons, flushLink_snd hring, List.findSome?_cons]
    cases link.blocks? with
    | some e => rfl
    | none => exact ih hrest

/-- A link is reached if no link ahead of it blocks, and is left alone otherwise. -/
theorem getElem?_flushLinks_eq (h : ∀ link ∈ links, link.wire.ring.IsQueueOf capacity) (k : Nat) :
    (flushLinks links).1[k]? =
      match (links.take k).findSome? Link.blocks? with
      | some _ => links[k]?
      | none => links[k]?.map fun link => (flushLink link).1 := by
  induction links generalizing k with
  | nil =>
    rw [List.take_nil]
    rfl
  | cons link rest ih =>
    obtain ⟨hlink, hrest⟩ := List.forall_mem_cons.mp h
    obtain ⟨queue, hring⟩ := hlink.holds
    rw [flushLinks_cons, flushLink_snd hring]
    cases k with
    | zero => cases link.blocks? <;> rfl
    | succ k =>
      rw [List.take_succ_cons, List.findSome?_cons]
      cases link.blocks? with
      | some e => rfl
      | none => exact ih hrest k

variable {r : Registry}

/-- A flush of a wired registry sends the outboxes of links that are on the course of its own, and
fails only there. -/
theorem ends_flush_links (h : r.IsWired) :
    Ends flush r
      (fun _ after => ∃ links, links.map Link.course = r.links.map Link.course ∧
        (flushLinks links).2 = none ∧ after.links = (flushLinks links).1)
      (fun e after => ∃ links, links.map Link.course = r.links.map Link.course ∧
        (flushLinks links).2 = some e ∧ after.links = (flushLinks links).1) := by
  have hretired := (reframed_retireDisposed r.processAcks).and
    (ends_retireDisposed fun p hp => h.processAcks.fits (mem_postings_of_flush hp))
  unfold flush
  rw [Ends.bind_iff, Ends.modify_iff, Ends.bind_iff]
  refine hretired.imp ?_ fun _ _ h => h.2.elim
  rintro _ retired ⟨hretired, -⟩
  simp only [Ends.bind_iff, Ends.get_iff, Ends.modify_iff]
  split
  · rename_i hsome
    exact ⟨retired.links, hretired.course, hsome, rfl⟩
  · rename_i hnone
    exact ⟨retired.links, hretired.course, hnone, rfl⟩

end Registry

namespace Moment

/-- Whether everything that waits for link `k` is sent: its records go behind those in the ring, its
envelopes behind those under way, and nothing waits any more. -/
structure Clears (m : Moment) (k : Nat) : Prop where
  /-- Nothing waits any more. -/
  outbox : m.after.registry.outboxAt k = []
  /-- All records are in the ring. -/
  records : m.after.registry.recordsAt k =
    m.before.registry.recordsAt k ++ (m.before.registry.outboxAt k).map Outgoing.record
  /-- All envelopes are under way. -/
  envelopes : m.after.registry.envelopesAt k =
    m.before.registry.envelopesAt k ++
      (m.before.registry.outboxAt k).filterMap Outgoing.envelope?

/-- Whether nothing is sent over link `k` and nothing is taken off it. -/
structure Skips (m : Moment) (k : Nat) : Prop where
  /-- What waits goes on waiting. -/
  outbox : m.after.registry.outboxAt k = m.before.registry.outboxAt k
  /-- The ring holds what it did. -/
  records : m.after.registry.recordsAt k = m.before.registry.recordsAt k
  /-- The same envelopes are under way. -/
  envelopes : m.after.registry.envelopesAt k = m.before.registry.envelopesAt k

/-- Nothing goes over a link that stays on its course. -/
theorem Skips.of_course {m : Moment} {k : Nat}
    (h : m.after.registry.links[k]?.map Link.course = m.before.registry.links[k]?.map Link.course) :
    m.Skips k := by
  have hshown {α : Type} (f : Link → List α) (hf : ∀ link, f link.course = f link) :
      (m.after.registry.links[k]?.map f).getD [] =
        (m.before.registry.links[k]?.map f).getD [] := by
    have hmapped := congrArg (fun link? => (Option.map f link?).getD []) h
    simp only [Option.map_map, Function.comp_def, hf] at hmapped
    exact hmapped
  exact ⟨hshown _ fun _ => rfl, hshown _ fun _ => rfl, hshown _ fun _ => rfl⟩

end Moment

namespace Broadcast

variable {b : Broadcast} {link : Link} {e : ResourceError} {k capacity : Nat}

/-- A flush fails if one of the links blocks, for the reason that the first of these blocks for, and
what becomes of a link depends on the links ahead of it. -/
theorem step_flush_links (hwired : b.registry.IsWired) (hrings : b.registry.HasRingsOf capacity) :
    ((b.step .flush).1 =
        match b.registry.links.findSome? Link.blocks? with
        | some e => .failed e
        | none => .done) ∧
      ∀ k link, b.registry.links[k]? = some link → ∃ mid : Link, mid.course = link.course ∧
        (b.step .flush).2.registry.links[k]? =
          match (b.registry.links.take k).findSome? Link.blocks? with
          | some _ => some mid
          | none => some (Registry.flushLink mid).1 := by
  have hends := (onRegistry_ends (Registry.ends_flush_links hwired) fun _ => .done).1
  obtain ⟨links, hcourse, hlinks, hanswer⟩ : ∃ links,
      links.map Link.course = b.registry.links.map Link.course ∧
      (b.step .flush).2.registry.links = (Registry.flushLinks links).1 ∧
      (b.step .flush).1 =
        match (Registry.flushLinks links).2 with
        | some e => .failed e
        | none => .done := by
    rcases hends with ⟨_, hanswer, links, hcourse, hnone, hafter⟩ |
        ⟨e, hanswer, links, hcourse, hsome, hafter⟩
    · exact ⟨links, hcourse, hafter, by rw [hnone]; exact hanswer⟩
    · exact ⟨links, hcourse, hafter, by rw [hsome]; exact hanswer⟩
  have hmid : ({ b.registry with links } : Registry).HasRingsOf capacity :=
    hrings.of_courses hcourse
  have hblocks (n : Nat) : (links.take n).findSome? Link.blocks? =
      (b.registry.links.take n).findSome? Link.blocks? := by
    have htaken := congrArg (fun links => (links.take n).findSome? Link.blocks?) hcourse
    simp only [← List.map_take, List.findSome?_map] at htaken
    exact htaken
  refine ⟨?_, fun k link hlink => ?_⟩
  · have hlength : links.length = b.registry.links.length := by
      simpa using congrArg List.length hcourse
    have hwhole := hblocks links.length
    rw [List.take_length, hlength, List.take_length] at hwhole
    rw [hanswer, Registry.flushLinks_snd hmid, hwhole]
  · have hat := congrArg (·[k]?) hcourse
    simp only [List.getElem?_map, hlink, Option.map_some] at hat
    obtain ⟨mid, hfound, heq⟩ := Option.map_eq_some_iff.mp hat
    refine ⟨mid, heq, ?_⟩
    rw [hlinks, Registry.getElem?_flushLinks_eq hmid, hblocks, hfound]
    rfl

/-- A flush clears a link that does not block, if none ahead of it does. -/
theorem clears_flush (hwired : b.registry.IsWired) (hrings : b.registry.HasRingsOf capacity)
    (hlink : b.registry.links[k]? = some link)
    (hahead : (b.registry.links.take k).findSome? Link.blocks? = none)
    (hown : link.blocks? = none) : Moment.Clears ⟨b, .flush⟩ k := by
  obtain ⟨mid, hcourse, hafter⟩ := (step_flush_links hwired hrings).2 k link hlink
  simp only [hahead] at hafter
  obtain ⟨queue, hring⟩ := (hrings link (List.mem_of_getElem? hlink)).holds
  have hmid : mid.wire.ring.Holds queue := by
    change mid.course.wire.ring.Holds queue
    rw [hcourse]
    exact hring
  have hunblocked : mid.blocks? = none := by
    change mid.course.blocks? = none
    rw [hcourse]
    exact hown
  have houtbox : mid.outbox.toList = b.registry.outboxAt k := by
    rw [Registry.outboxAt_of_getElem? hlink]
    exact congrArg (fun link => link.outbox.toList) hcourse
  have henvelopes : mid.wire.envelopes.toList = b.registry.envelopesAt k := by
    rw [Registry.envelopesAt_of_getElem? hlink]
    exact congrArg (fun link => link.wire.envelopes.toList) hcourse
  obtain ⟨ring, hholds, hflush⟩ := Registry.flushLink_of_unblocked hmid hunblocked
  rw [hflush] at hafter
  refine ⟨Registry.outboxAt_of_getElem? hafter, ?_, ?_⟩
  · rw [houtbox] at hholds
    refine (Registry.recordsAt_of_holds hafter hholds).trans ?_
    exact congrArg (· ++ _) (Registry.recordsAt_of_holds hlink hring).symm
  · refine (Registry.envelopesAt_of_getElem? hafter).trans ?_
    unfold Wire.loaded
    rw [Array.toList_append, henvelopes, houtbox]

/-- A flush that ends at a link skips those behind it. -/
theorem skips_flush_of_blocked (hwired : b.registry.IsWired)
    (hrings : b.registry.HasRingsOf capacity) (hlink : b.registry.links[k]? = some link)
    (hahead : (b.registry.links.take k).findSome? Link.blocks? = some e) :
    (b.step .flush).1 = .failed e ∧ Moment.Skips ⟨b, .flush⟩ k := by
  obtain ⟨hanswer, hlinks⟩ := step_flush_links hwired hrings
  obtain ⟨mid, hcourse, hafter⟩ := hlinks k link hlink
  simp only [hahead] at hafter
  refine ⟨?_, ?_⟩
  · have hfirst : b.registry.links.findSome? Link.blocks? = some e := by
      rw [← List.take_append_drop k b.registry.links, List.findSome?_append, hahead]
      rfl
    rw [hanswer, hfirst]
  · have hsame : (b.step .flush).2.registry.links[k]?.map Link.course =
        b.registry.links[k]?.map Link.course := by
      rw [hlink, hafter, Option.map_some, Option.map_some, hcourse]
    exact .of_course hsame

/-- A flush skips a link whose ring has no room for the outbox. -/
theorem skips_flush_of_full (hwired : b.registry.IsWired)
    (hrings : b.registry.HasRingsOf capacity) (hlink : b.registry.links[k]? = some link)
    (hfull : link.wire.ring.free < link.outbox.size) : Moment.Skips ⟨b, .flush⟩ k := by
  cases hahead : (b.registry.links.take k).findSome? Link.blocks? with
  | some e => exact (skips_flush_of_blocked hwired hrings hlink hahead).2
  | none =>
    obtain ⟨mid, hcourse, hafter⟩ := (step_flush_links hwired hrings).2 k link hlink
    have hmid : mid.course.wire.ring.free < mid.course.outbox.size := hcourse ▸ hfull
    have hkept : (Registry.flushLink mid).1 = mid := by
      unfold Registry.flushLink
      exact congrArg Prod.fst (if_pos hmid)
    simp only [hahead, hkept] at hafter
    have hsame : (b.step .flush).2.registry.links[k]?.map Link.course =
        b.registry.links[k]?.map Link.course := by
      rw [hlink, hafter, Option.map_some, Option.map_some, hcourse]
    exact .of_course hsame

end Broadcast

namespace Run

variable {config : Config} {supply : Supply} {past : List Moment} {b : Broadcast} {k : Nat}

/-- Whatever was done, a flush clears a link whose consumer is there and whose ring has room for the
outbox, however the flush ends, unless a link ahead of it blocks. Then the flush fails for the reason
that the first of these blocks for, and skips the link. -/
theorem clears_unless_blocked (h : Run (.opened config supply) past b) {link : Link}
    (hlink : b.registry.links[k]? = some link) (hreceiving : link.wire.receiving = true)
    (hroom : link.outbox.size ≤ link.wire.ring.free) :
    ((b.registry.links.take k).findSome? Link.blocks? = none → Moment.Clears ⟨b, .flush⟩ k) ∧
      ∀ e, (b.registry.links.take k).findSome? Link.blocks? = some e →
        (b.step .flush).1 = .failed e ∧ Moment.Skips ⟨b, .flush⟩ k := by
  have hwired := h.isWired
  have hrings := h.hasRingsOf
  refine ⟨fun hahead => ?_, fun e hahead => ?_⟩
  · exact Broadcast.clears_flush hwired hrings hlink hahead
      (Link.blocks?_eq_none hreceiving hroom)
  · exact Broadcast.skips_flush_of_blocked hwired hrings hlink hahead

end Run

namespace Samples

/-- Two consumers on rings for one record. The second one has taken its first node, and the first one
has not. -/
def stalled : List Moment × Broadcast :=
  (Broadcast.opened ⟨.game, 1⟩ ⟨0, .initial⟩).play
    [.connect .render,
      .connect .main,
      .createInstance ⟨0, node⟩ [] {},
      .flush,
      .update 1 0,
      .createInstance ⟨0, node⟩ [] {}]

/-- The state in which the first consumer has taken its node as well. -/
def relieved : Broadcast := (stalled.2.step (.update 0 0)).2

/-- Then no link blocks, and the second consumer is sent its second node. -/
theorem clears_relieved :
    (relieved.registry.outboxAt 1).map Outgoing.record = [⟨.create, 0, 2⟩] ∧
      Moment.Clears ⟨relieved, .flush⟩ 1 := by
  have hrun : Run (.opened ⟨.game, 1⟩ ⟨0, .initial⟩) (⟨stalled.2, .update 0 0⟩ :: stalled.1)
      relieved := .snoc (.play _ _) (.update 0 0)
  have hopen : relieved.registry.links[1]?.any (fun link =>
      link.wire.receiving && decide (link.outbox.size ≤ link.wire.ring.free)) = true := by
    decide +kernel
  obtain ⟨link, hlink, hboth⟩ := (Option.any_eq_true _ _).mp hopen
  rw [Bool.and_eq_true, decide_eq_true_eq] at hboth
  have hahead : (relieved.registry.links.take 1).findSome? Link.blocks? = none := by
    decide +kernel
  have hcleared := Run.clears_unless_blocked hrun hlink hboth.1 hboth.2
  exact ⟨by decide +kernel, hcleared.1 hahead⟩

/-- As long as the ring of the first consumer is full, the second one waits for its node, though its
own ring has room. -/
theorem stalled_waits :
    stalled.2.registry.links[1]?.any (fun link =>
        link.wire.receiving && decide (link.outbox.size ≤ link.wire.ring.free)) = true ∧
      (stalled.2.step .flush).1 = .failed (.transport (.ringFull 1)) ∧
      ((stalled.2.step .flush).2.registry.outboxAt 1).map Outgoing.record = [⟨.create, 0, 2⟩] ∧
      (stalled.2.step .flush).2.registry.recordsAt 1 = [] ∧
      ¬Moment.Clears ⟨stalled.2, .flush⟩ 1 :=
  ⟨by decide +kernel, by decide +kernel, by decide +kernel, by decide +kernel,
    fun hclears => absurd hclears.outbox (by decide +kernel)⟩

end Samples

end Framecast
