import Framecast.Proofs.Feed.Heralds
import Framecast.Proofs.Frames.Turning
import Framecast.Proofs.Run.Segments

/-!
# Which commit a consumer has picked up

A commit over a link is handed over to its consumer, whose next update picks it up.
Until then, and until the next commit, nobody writes to the slot that was handed
over, and nobody ever writes to the reader's. So every buffer that the commit posted
to is read as it was posted, all of them at once.
-/

namespace Framecast

/-- What an action makes of the snapshots of link `k`. -/
inductive Broadcast.Turn (b : Broadcast) (k : Nat) : Action → Snapshot.FrameLink → Prop
  /-- A commit posts and hands over. -/
  | committed (hk : k < b.registry.links.length) :
    Turn b k .commit (b.registry.committed.framesAt k)
  /-- A flush posts final bytes. -/
  | flushed : Turn b k .flush (b.registry.processAcks.retiring.framesAt k)
  /-- The consumer takes over what was handed over. -/
  | pickedUp (tick : Tick) : Turn b k (.update k tick) (b.registry.framesAt k).pickUp.2
  /-- Anything else at most allocates new buffers. -/
  | grown {action : Action} {frames : Snapshot.FrameLink} (hflush : action ≠ .flush)
      (hcommit : action = .commit → b.registry.links.length ≤ k)
      (hupdate : ∀ tick, action ≠ .update k tick)
      (hextends : (b.registry.framesAt k).Extends frames) : Turn b k action frames

namespace Broadcast

variable {b : Broadcast} {action : Action} {k : Nat}

/-- Each action turns the snapshots of a link in one of these ways. -/
theorem turn_step (h : b.registry.IsWired) (hsizes : b.replicas.size = b.registry.links.length)
    (hc : action.IsCompiled) (hw : b.registry.WellFormed)
    (hl : (b.step action).2.registry.supply.Lasts) (k : Nat) :
    b.Turn k action ((b.step action).2.registry.framesAt k) := by
  cases hinternal : action.isInternal with
  | true =>
    refine .grown (fun heq => ?_) (fun heq => ?_) (fun tick heq => ?_) ?_
    · subst heq
      cases hinternal
    · subst heq
      cases hinternal
    · subst heq
      cases hinternal
    · exact ((changes_step hinternal hc hw hl).keep
        (P := fun r => (b.registry.framesAt k).Extends (r.framesAt k)) hw hl
        (fun _ _ _ _ hw₁ _ _ hedit h₁ => h₁.trans ((hedit.keepsBuffers hw₁.isKeyed).frames k)) (.refl _)).2
  | false =>
    by_cases hcommit : action = .commit
    · subst hcommit
      rw [step_commit h]
      by_cases hk : k < b.registry.links.length
      · exact .committed hk
      · refine .grown (fun heq => by cases heq) (fun _ => Nat.le_of_not_lt hk)
          (fun tick heq => by cases heq) ?_
        have hnone : b.registry.committed.framesAt k = b.registry.framesAt k := by
          rw [Registry.framesAt_of_le (Nat.le_of_not_lt hk), Registry.framesAt_of_le
            (by rw [Registry.length_committed h]; exact Nat.le_of_not_lt hk)]
        rw [hnone]
        exact .refl _
    · by_cases hflush : action = .flush
      · subst hflush
        rw [framesAt_flush h]
        exact .flushed
      · by_cases hupdate : ∃ tick, action = .update k tick
        · obtain ⟨tick, rfl⟩ := hupdate
          have hpicked : (b.step (.update k tick)).2.registry.framesAt k =
              (b.registry.framesAt k).pickUp.2 := by
            rw [framesAt_update]
            split
            · rfl
            · rename_i hnot
              have hlink : b.registry.links.length ≤ k := by
                refine Nat.le_of_not_lt fun hk => hnot ⟨rfl, ?_⟩
                unfold connection?
                rw [Array.getElem?_eq_getElem (hsizes.symm ▸ hk), List.getElem?_eq_getElem hk]
                rfl
              rw [Registry.framesAt_of_le hlink]
              rfl
          rw [hpicked]
          exact .pickedUp tick
        · refine .grown hflush (fun heq => absurd heq hcommit)
            (fun tick heq => hupdate ⟨tick, heq⟩) ?_
          have hsame : (b.step action).2.registry.framesAt k = b.registry.framesAt k := by
            by_cases hother : ∃ j tick, action = .update j tick
            · obtain ⟨j, tick, rfl⟩ := hother
              rw [framesAt_update, if_neg]
              rintro ⟨rfl, -⟩
              exact hupdate ⟨tick, rfl⟩
            · exact (framesAt_step hinternal hcommit hflush
                fun j tick heq => hother ⟨j, tick, heq⟩).2 k
          rw [hsame]
          exact .refl _

end Broadcast

/-- The commit that was made last over link `k`. -/
def published (k : Nat) : List Moment → Option Moment
  | [] => none
  | m :: past =>
    match m.action with
    | .commit => if k < m.before.registry.links.length then some m else published k past
    | _ => published k past

/-- The commit whose frame consumer `k` has picked up last. An update picks up what was published, if
the flag byte says that something was. -/
def pickedUp (k : Nat) : List Moment → Option Moment
  | [] => none
  | m :: past =>
    match m.action with
    | .update j _ =>
      if j = k ∧ (m.before.registry.framesAt k).flags.changed then published k past
      else pickedUp k past
    | _ => pickedUp k past

/-- Whether a commit was made over link `k` since consumer `k` was updated last. -/
def isDueFrame (k : Nat) : List Moment → Bool
  | [] => false
  | m :: past =>
    match m.action with
    | .commit => decide (k < m.before.registry.links.length) || isDueFrame k past
    | .update j _ => if j = k then false else isDueFrame k past
    | _ => isDueFrame k past

/-- Whether slot `s` of every buffer of a link that a commit posted to holds what was posted. -/
def Moment.Shown (m : Moment) (k : Nat) (frames : Snapshot.FrameLink) (s : Nat) : Prop :=
  ∀ p ∈ m.before.registry.commitPosts, p.link = k →
    p.buffer < frames.buffers.size ∧ frames.slot p.buffer s = p.bytes

/-- Allocating more buffers overwrites nothing that is shown. -/
theorem Moment.Shown.of_extends {m : Moment} {k s : Nat} {frames frames' : Snapshot.FrameLink}
    (h : m.Shown k frames s) (hextends : frames.Extends frames') : m.Shown k frames' s := by
  intro p hp hk
  obtain ⟨hi, hslot⟩ := h p hp hk
  exact ⟨Nat.lt_of_lt_of_le hi hextends.size, (hextends.slot hi s).trans hslot⟩

theorem Moment.Shown.congr {m : Moment} {k s : Nat} {frames frames' : Snapshot.FrameLink}
    (h : m.Shown k frames s) (hsize : frames'.buffers.size = frames.buffers.size)
    (hslot : ∀ i < frames.buffers.size, frames'.slot i s = frames.slot i s) :
    m.Shown k frames' s := by
  intro p hp hk
  obtain ⟨hi, hbytes⟩ := h p hp hk
  exact ⟨hsize ▸ hi, (hslot p.buffer hi).trans hbytes⟩

namespace Registry

variable {r : Registry} {k s : Nat}

/-- Posting snapshots that are due to be written touches the write slot only. -/
theorem IsWired.slot_foldl_post_of_ne (h : r.IsWired) {posts : List Post}
    (hposts : ∀ q ∈ posts, q ∈ r.postings) (hs : s ≠ (r.framesAt k).flags.writeSlot) {i : Nat}
    (hi : i < (r.framesAt k).buffers.size) :
    ((posts.foldl post r).framesAt k).slot i s = (r.framesAt k).slot i s :=
  h.slotAt_unposted hposts hi fun heq => absurd heq hs

/-- A flush keeps the buffers of every link and who owns which slot. -/
theorem IsWired.sameShape_retiring (h : r.IsWired) : r.SameShape r.retiring := by
  have hshape := sameShape_foldl_post fun p hp => h.fits (mem_postings_of_flush hp)
  have hframes (j : Nat) : r.retiring.framesAt j = (r.flushPosts.foldl post r).framesAt j :=
    r.framesAt_on r.flushPosts j
  refine ⟨?_, fun j => ?_, fun j => ?_, fun j i => ?_⟩
  · have hlinks := hshape.links
    rw [foldl_post_eq] at hlinks
    exact hlinks
  · rw [hframes]
    exact hshape.flags j
  · rw [hframes]
    exact hshape.size j
  · rw [hframes]
    exact hshape.length j i

/-- A flush touches the write slot only. -/
theorem IsWired.slot_retiring_of_ne (h : r.IsWired) (hs : s ≠ (r.framesAt k).flags.writeSlot)
    {i : Nat} (hi : i < (r.framesAt k).buffers.size) :
    (r.retiring.framesAt k).slot i s = (r.framesAt k).slot i s := by
  have hframes : r.retiring.framesAt k = (r.flushPosts.foldl post r).framesAt k :=
    r.framesAt_on r.flushPosts k
  rw [hframes]
  exact h.slot_foldl_post_of_ne (fun _ => mem_postings_of_flush) hs hi

theorem IsWired.size_committed (h : r.IsWired) (hk : k < r.links.length) :
    (r.committed.framesAt k).buffers.size = (r.framesAt k).buffers.size := by
  rw [framesAt_committed h hk]
  exact (sameShape_foldl_post fun p hp => h.fits (mem_postings_of_commit hp)).size k

/-- A commit touches the slot only that it hands over. -/
theorem IsWired.slot_committed_of_ne (h : r.IsWired) (hk : k < r.links.length)
    (hs : s ≠ (r.framesAt k).flags.writeSlot) {i : Nat}
    (hi : i < (r.framesAt k).buffers.size) :
    (r.committed.framesAt k).slot i s = (r.framesAt k).slot i s :=
  (slotAt_committed h hk i s).trans
    (h.slot_foldl_post_of_ne (fun _ => mem_postings_of_commit) hs hi)

/-- What a commit posts is in the slot that it hands over. -/
theorem IsWired.slot_committed_of_mem (h : r.IsWired) (hk : k < r.links.length) {p : Post}
    (hp : p ∈ r.commitPosts) (hlink : p.link = k) :
    p.buffer < (r.committed.framesAt k).buffers.size ∧
      (r.committed.framesAt k).slot p.buffer (r.framesAt k).flags.writeSlot = p.bytes := by
  subst hlink
  refine ⟨?_, ?_⟩
  · rw [h.size_committed hk]
    exact h.allocated (mem_postings_of_commit hp)
  · exact (slotAt_committed h hk _ _).trans
      (h.slotAt_posted (fun _ => mem_postings_of_commit) hp)

end Registry

/-- What a consumer reads of a buffer stays, or it is what was handed over last. -/
theorem Broadcast.read_step {b : Broadcast} {action : Action} {k i : Nat}
    (hwired : b.registry.IsWired) (hsizes : b.replicas.size = b.registry.links.length)
    (hc : action.IsCompiled) (hw : b.registry.WellFormed)
    (hl : (b.step action).2.registry.supply.Lasts) (hi : i < (b.registry.framesAt k).buffers.size) :
    ((b.step action).2.registry.framesAt k).read i = (b.registry.framesAt k).read i ∨
      (b.registry.framesAt k).flags.changed = true ∧
        ((b.step action).2.registry.framesAt k).read i =
          (b.registry.framesAt k).slot i (b.registry.framesAt k).flags.tempSlot := by
  have hroles : (b.registry.framesAt k).flags.IsRotation := hwired.turning k
  have hturn := Broadcast.turn_step hwired hsizes hc hw hl k
  generalize (b.step action).2.registry.framesAt k = frames at hturn
  simp only [Snapshot.FrameLink.read_eq_slot]
  cases hturn with
  | committed hk =>
    left
    rw [Registry.flags_committed hwired hk, Snapshot.Flags.readSlot_publish]
    exact hwired.slot_committed_of_ne hk hroles.write_ne_read.symm hi
  | flushed =>
    left
    have hacks : b.registry.processAcks.IsWired := hwired.processAcks
    have hsame := (Registry.quiet_processAcks b.registry).framesAt k
    rw [hacks.sameShape_retiring.flags k, hsame, hacks.slot_retiring_of_ne, hsame]
    · rw [hsame]
      exact hroles.write_ne_read.symm
    · rw [hsame]
      exact hi
  | pickedUp tick =>
    show (b.registry.framesAt k).slot i (b.registry.framesAt k).flags.pickUp.2.readSlot = _ ∨ _ ∧
      (b.registry.framesAt k).slot i (b.registry.framesAt k).flags.pickUp.2.readSlot = _
    rw [Snapshot.Flags.readSlot_pickUp]
    split
    · exact .inr ⟨‹_›, rfl⟩
    · exact .inl rfl
  | grown _ _ _ hextends =>
    left
    rw [hextends.flags]
    exact hextends.slot hi _

/-- What the slots of a link hold of the commits that were made over it. -/
structure Broadcast.Presents (b : Broadcast) (k : Nat) (past : List Moment) : Prop where
  /-- The flag byte says whether a commit has not been picked up. -/
  changed : (b.registry.framesAt k).flags.changed = isDueFrame k past
  /-- If one has not, the parked slot holds it. -/
  handed : isDueFrame k past = true → ∃ m, published k past = some m ∧
    m.Shown k (b.registry.framesAt k) (b.registry.framesAt k).flags.tempSlot
  /-- The reader's slot holds the commit that was picked up last. -/
  shown : ∀ m, pickedUp k past = some m →
    m.Shown k (b.registry.framesAt k) (b.registry.framesAt k).flags.readSlot
  /-- If none has not been picked up, the last one has. -/
  latest : isDueFrame k past = false → pickedUp k past = published k past

namespace Broadcast.Presents

variable {b after : Broadcast} {action : Action} {k : Nat} {past : List Moment}

/-- A commit hands itself over. -/
theorem after_commit (h : b.Presents k past) (hwired : b.registry.IsWired)
    (hk : k < b.registry.links.length)
    (hframes : after.registry.framesAt k = b.registry.committed.framesAt k) :
    after.Presents k (⟨b, .commit⟩ :: past) := by
  have hturning : (b.registry.framesAt k).flags.IsRotation := hwired.turning k
  have hpublished : published k (⟨b, .commit⟩ :: past) = some ⟨b, .commit⟩ := if_pos hk
  have hdue : isDueFrame k (⟨b, .commit⟩ :: past) = true := by
    show (decide (k < b.registry.links.length) || isDueFrame k past) = true
    rw [decide_eq_true hk, Bool.true_or]
  have hflags := Registry.flags_committed hwired hk
  refine ⟨?_, fun _ => ⟨_, hpublished, fun p hp hlink => ?_⟩, fun m hm => ?_, fun hnot => ?_⟩
  · rw [hframes, hflags, Snapshot.Flags.changed_publish, hdue]
  · rw [hframes, hflags, Snapshot.Flags.tempSlot_publish]
    exact hwired.slot_committed_of_mem hk hp hlink
  · rw [hframes, hflags, Snapshot.Flags.readSlot_publish]
    exact (h.shown m hm).congr (hwired.size_committed hk)
      fun i hi => hwired.slot_committed_of_ne hk hturning.write_ne_read.symm hi
  · rw [hdue] at hnot
    cases hnot

/-- A flush writes to neither of the slots that present commits. -/
theorem after_flush (h : b.Presents k past) (hwired : b.registry.IsWired)
    (hframes : after.registry.framesAt k = b.registry.processAcks.retiring.framesAt k) :
    after.Presents k (⟨b, .flush⟩ :: past) := by
  have hturning : (b.registry.framesAt k).flags.IsRotation := hwired.turning k
  have hacks : b.registry.processAcks.IsWired := hwired.processAcks
  have hsame := (Registry.quiet_processAcks b.registry).framesAt k
  have hshape := hacks.sameShape_retiring
  have hflags : (b.registry.processAcks.retiring.framesAt k).flags =
      (b.registry.framesAt k).flags := (hshape.flags k).trans (congrArg Snapshot.FrameLink.flags hsame)
  have hkept (s : Nat) (hs : s ≠ (b.registry.framesAt k).flags.writeSlot) (m : Moment)
      (hm : m.Shown k (b.registry.framesAt k) s) :
      m.Shown k (b.registry.processAcks.retiring.framesAt k) s := by
    rw [← hsame] at hm hs
    exact hm.congr (hshape.size k) fun i hi => hacks.slot_retiring_of_ne hs hi
  refine ⟨?_, fun hdue => ?_, fun m hm => ?_, h.latest⟩
  · rw [hframes, hflags]
    exact h.changed
  · obtain ⟨m, hm, hshown⟩ := h.handed hdue
    rw [hframes, hflags]
    exact ⟨m, hm, hkept _ hturning.write_ne_temp.symm m hshown⟩
  · rw [hframes, hflags]
    exact hkept _ hturning.write_ne_read.symm m (h.shown m hm)

/-- An update of the consumer takes over the last commit. -/
theorem after_update (h : b.Presents k past) (tick : Tick)
    (hframes : after.registry.framesAt k = (b.registry.framesAt k).pickUp.2) :
    after.Presents k (⟨b, .update k tick⟩ :: past) := by
  have hdue : isDueFrame k (⟨b, .update k tick⟩ :: past) = false := if_pos rfl
  have hpicked : pickedUp k (⟨b, .update k tick⟩ :: past) =
      if isDueFrame k past then published k past else pickedUp k past := by
    show (if k = k ∧ (b.registry.framesAt k).flags.changed = true then published k past
      else pickedUp k past) = _
    rw [h.changed]
    simp
  have hlatest : pickedUp k (⟨b, .update k tick⟩ :: past) = published k past := by
    rw [hpicked]
    split
    · rfl
    · rename_i hnot
      exact h.latest (Bool.eq_false_iff.mpr hnot)
  refine ⟨?_, fun hnot => ?_, fun m hm => ?_, fun _ => hlatest⟩
  · rw [hframes, hdue]
    exact Snapshot.Flags.changed_pickUp _
  · rw [hdue] at hnot
    cases hnot
  · rw [hframes]
    show m.Shown k (b.registry.framesAt k) (b.registry.framesAt k).flags.pickUp.2.readSlot
    rw [Snapshot.Flags.readSlot_pickUp, h.changed]
    cases hbefore : isDueFrame k past with
    | true =>
      obtain ⟨m', hm', hshown⟩ := h.handed hbefore
      rw [hlatest, hm'] at hm
      cases hm
      exact hshown
    | false =>
      rw [hpicked, hbefore] at hm
      exact h.shown m hm

/-- Allocating buffers overwrites nothing that presents a commit. -/
theorem after_growth (h : b.Presents k past)
    (hcommit : action = .commit → b.registry.links.length ≤ k)
    (hupdate : ∀ tick, action ≠ .update k tick)
    (hextends : (b.registry.framesAt k).Extends (after.registry.framesAt k)) :
    after.Presents k (⟨b, action⟩ :: past) := by
  have hpublished : published k (⟨b, action⟩ :: past) = published k past := by
    rw [published]
    split
    · exact if_neg (Nat.not_lt_of_le (hcommit ‹_›))
    · rfl
  have hpicked : pickedUp k (⟨b, action⟩ :: past) = pickedUp k past := by
    rw [pickedUp]
    split
    · rename_i j tick heq
      refine if_neg fun hj => hupdate tick ?_
      rw [← hj.1]
      exact heq
    · rfl
  have hdue : isDueFrame k (⟨b, action⟩ :: past) = isDueFrame k past := by
    rw [isDueFrame]
    split
    · rw [decide_eq_false (Nat.not_lt_of_le (hcommit ‹_›)), Bool.false_or]
    · rename_i j tick heq
      refine if_neg fun hj => hupdate tick ?_
      rw [← hj]
      exact heq
    · rfl
  refine ⟨?_, fun hnew => ?_, fun m hm => ?_, fun hnot => ?_⟩
  · rw [hextends.flags, hdue]
    exact h.changed
  · obtain ⟨m, hm, hshown⟩ := h.handed (hdue ▸ hnew)
    rw [hextends.flags, hpublished]
    exact ⟨m, hm, hshown.of_extends hextends⟩
  · rw [hextends.flags]
    exact (h.shown m (hpicked ▸ hm)).of_extends hextends
  · rw [hpicked, hpublished]
    exact h.latest (hdue ▸ hnot)

/-- Every action goes on presenting commits. -/
theorem step (h : b.Presents k past) (hwired : b.registry.IsWired)
    (hsizes : b.replicas.size = b.registry.links.length) (hc : action.IsCompiled)
    (hw : b.registry.WellFormed) (hl : (b.step action).2.registry.supply.Lasts) :
    (b.step action).2.Presents k (⟨b, action⟩ :: past) := by
  have hturn := turn_step hwired hsizes hc hw hl k
  generalize hframes : (b.step action).2.registry.framesAt k = frames at hturn
  cases hturn with
  | committed hk => exact h.after_commit hwired hk hframes
  | flushed => exact h.after_flush hwired hframes
  | pickedUp tick => exact h.after_update tick hframes
  | grown _ hcommit hupdate hextends => exact h.after_growth hcommit hupdate (hframes ▸ hextends)

end Broadcast.Presents

end Framecast
