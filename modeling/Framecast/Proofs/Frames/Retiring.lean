import Framecast.Proofs.Frames.Contents

/-!
# Final bytes

A resource that is removed leaves its buffers behind, each with its final bytes. A flush
retires them, every commit writes them once more, and lets go of a buffer when the write
slot has been each of its three slots. Meanwhile nobody else owns the buffer, and later
nobody is given it again. So a slot that was written with the final bytes holds them
ever after, and from its retirement on every commit publishes them.
-/

namespace Framecast

namespace Registry

variable {r r' : Registry} {p : Post} {k i s : Nat}

/-- A change that writes to no buffer that there was. The slots of a link may turn, more buffers may
be allocated and set aside, and whoever owns a buffer that was there owned it before. -/
structure LeavesSlots (r r' : Registry) : Prop where
  /-- The same buffers are retired. -/
  retired : r'.retired = r.retired
  /-- More buffers may be set aside, and no slot of these has been written. -/
  disposed : ∃ gone, r'.disposed.toList = r.disposed.toList ++ gone ∧ ∀ f ∈ gone, f.written = {}
  /-- No buffer is gone. -/
  size : ∀ k, (r.framesAt k).buffers.size ≤ (r'.framesAt k).buffers.size
  /-- The slots of the buffers that there were hold what they held. -/
  slot : ∀ k, ∀ i < (r.framesAt k).buffers.size, ∀ s, r'.slotAt k i s = r.slotAt k i s
  /-- New owners own new buffers. -/
  owners : ∀ c ∈ r'.claims, c ∈ r.claims ∨ (r.framesAt c.link).buffers.size ≤ c.buffer

theorem KeepsBuffers.leavesSlots (h : r.KeepsBuffers r') : r.LeavesSlots r' :=
  ⟨h.retired, h.disposed, fun k => (h.frames k).size, fun k _ hi s => (h.frames k).slot hi s,
    h.owners⟩

/-- A pickup writes to no buffer. -/
theorem LeavesSlots.of_frames (hretired : r'.retired = r.retired)
    (hdisposed : r'.disposed = r.disposed) (hclaims : r'.claims = r.claims)
    (hframes : ∀ k, r'.framesAt k = r.framesAt k ∨ r'.framesAt k = (r.framesAt k).pickUp.2) :
    r.LeavesSlots r' := by
  refine ⟨hretired, ⟨[], by rw [hdisposed, List.append_nil], by simp⟩, fun k => ?_,
    fun k i _ s => ?_, fun c hc => .inl (hclaims ▸ hc)⟩
  · rcases hframes k with hframes | hframes <;> rw [hframes]
    exact Nat.le_refl _
  · unfold slotAt
    rcases hframes k with hframes | hframes <;> rw [hframes]
    rfl

/-- What was set down about the buffers of removed resources is right: nothing was written yet of
those that wait for a flush, and of those that were retired, a slot that counts as written holds the
final bytes. -/
structure Tallies (r : Registry) : Prop where
  /-- What was set aside counts as unwritten. -/
  aside : ∀ f ∈ r.disposed.toList, f.written = {}
  /-- What counts as written holds the final bytes. -/
  written : ∀ f ∈ r.retired.toList, ∀ s, f.written.contains s = true →
    r.slotAt f.link f.buffer s = f.bytes

/-- The stages that final bytes go through after the flush that retires them. -/
inductive IsRetired (r : Registry) (p : Post) : Prop
  /-- They are written once more by every commit. -/
  | again {f : RetiredBuffer} (hf : f ∈ r.retired.toList) (hpost : f.post = p)
  /-- All slots hold them, and nobody owns the buffer any more. -/
  | done (hallocated : p.buffer < (r.framesAt p.link).buffers.size)
      (hfree : ∀ c ∈ r.claims, c.cell ≠ p.cell)
      (hslots : ∀ s < 3, r.slotAt p.link p.buffer s = p.bytes)

/-- Whether bytes are the final ones of their buffer. -/
def IsFinal (r : Registry) (p : Post) : Prop := p ∈ r.flushPosts ∨ r.IsRetired p

namespace IsFinal

/-- The buffer is there. -/
theorem allocated (h : r.IsFinal p) (hwired : r.IsWired) :
    p.buffer < (r.framesAt p.link).buffers.size := by
  obtain haside | ⟨hf, rfl⟩ | ⟨hallocated, -, -⟩ := h
  · exact hwired.allocated (mem_postings_of_flush haside)
  · exact hwired.allocated (mem_postings.mpr (.inr (.inl ⟨_, hf, rfl⟩)))
  · exact hallocated

/-- Nothing else is written to the buffer. -/
theorem alone (h : r.IsFinal p) (hwired : r.IsWired) {q : Post} (hq : q ∈ r.postings)
    (hcell : q.cell = p.cell) : q = p := by
  obtain haside | ⟨hf, rfl⟩ | ⟨-, hfree, -⟩ := h
  · exact hwired.eq_of_cell hq (mem_postings_of_flush haside) hcell
  · exact hwired.eq_of_cell hq (mem_postings.mpr (.inr (.inl ⟨_, hf, rfl⟩))) hcell
  · exact absurd hcell (hfree _ (claim_of_mem_postings hq))

/-- Whatever is posted, a slot that holds the final bytes goes on holding them. -/
theorem slotAt_foldl_post (h : r.IsFinal p) (hwired : r.IsWired) {posts : List Post}
    (hposts : ∀ q ∈ posts, q ∈ r.postings) (hslot : r.slotAt p.link p.buffer s = p.bytes) :
    (posts.foldl post r).slotAt p.link p.buffer s = p.bytes := by
  by_cases hwrites : s = (r.framesAt p.link).flags.writeSlot ∧ ∃ q ∈ posts, q.cell = p.cell
  · obtain ⟨rfl, q, hq, hcell⟩ := hwrites
    obtain rfl := h.alone hwired (hposts q hq) hcell
    exact hwired.slotAt_posted hposts hq
  · refine (hwired.slotAt_unposted hposts (h.allocated hwired) fun hs q hq hcell => ?_).trans hslot
    exact hwrites ⟨hs, q, hq, hcell⟩

end IsFinal

/-! ### Where no buffer is written to -/

/-- Where no buffer is written to, what was set down stays right. -/
theorem Tallies.leave (h : r.Tallies) (hwired : r.IsWired) (hleaves : r.LeavesSlots r') :
    r'.Tallies := by
  obtain ⟨gone, hdisposed, hgone⟩ := hleaves.disposed
  refine ⟨fun f hf => ?_, fun f hf s hs => ?_⟩
  · rw [hdisposed] at hf
    exact (List.mem_append.mp hf).elim (h.aside f) (hgone f)
  · rw [hleaves.retired] at hf
    have hi := hwired.allocated (mem_postings.mpr (.inr (.inl ⟨f, hf, rfl⟩)))
    exact (hleaves.slot f.link f.buffer hi s).trans (h.written f hf s hs)

/-- What was set aside stays so. -/
theorem LeavesSlots.flushPosts (h : r.LeavesSlots r') (hp : p ∈ r.flushPosts) :
    p ∈ r'.flushPosts := by
  obtain ⟨gone, hdisposed, -⟩ := h.disposed
  unfold Registry.flushPosts at *
  rw [hdisposed, List.map_append]
  exact List.mem_append_left _ hp

/-- Where no buffer is written to, retired bytes stay at their stage. -/
theorem IsRetired.leave (h : r.IsRetired p) (hleaves : r.LeavesSlots r') : r'.IsRetired p := by
  obtain ⟨hf, hpost⟩ | ⟨hallocated, hfree, hslots⟩ := h
  · exact .again (hleaves.retired ▸ hf) hpost
  · refine .done (Nat.lt_of_lt_of_le hallocated (hleaves.size _)) (fun c hc hcell => ?_)
      fun s hs => (hleaves.slot _ _ hallocated s).trans (hslots s hs)
    rcases hleaves.owners c hc with hc | hnew
    · exact hfree c hc hcell
    · obtain ⟨hlink, hbuffer⟩ := Prod.mk.inj hcell
      rw [hlink, hbuffer] at hnew
      exact absurd hallocated (Nat.not_lt.mpr hnew)

theorem IsFinal.leave (h : r.IsFinal p) (hleaves : r.LeavesSlots r') : r'.IsFinal p :=
  h.imp hleaves.flushPosts fun hretired => hretired.leave hleaves

/-! ### Commits -/

/-- After a commit the slots of a retired buffer that were written hold the final bytes, the one that
was handed over included. -/
theorem IsWired.slot_committed_of_retired (h : r.IsWired) {f : RetiredBuffer}
    (hf : f ∈ r.retired.toList)
    (hwritten : ∀ s, f.written.contains s = true →
      (r.framesAt f.link).slot f.buffer s = f.bytes) {s : Nat}
    (hs : (r.refreshed f).written.contains s = true) :
    (r.committed.framesAt f.link).slot f.buffer s = f.bytes := by
  have hpost : f.post ∈ r.commitPosts := List.mem_append_right _ (List.mem_map_of_mem hf)
  have hi : f.buffer < (r.framesAt f.link).buffers.size :=
    h.allocated (mem_postings_of_commit hpost)
  have hk := lt_of_allocated hi
  have hposted := (h.slot_committed_of_mem hk hpost rfl).2
  by_cases hwrite : s = (r.framesAt f.link).flags.writeSlot
  · rw [hwrite]
    exact hposted
  · rw [h.slot_committed_of_ne hk hwrite hi]
    exact hwritten s ((SlotSet.of_contains_insert hs).resolve_left hwrite)

theorem Tallies.committed (h : r.Tallies) (hwired : r.IsWired) : r.committed.Tallies := by
  refine ⟨h.aside, fun f hf s hs => ?_⟩
  obtain ⟨f₀, hf₀, rfl⟩ := List.mem_map.mp (List.mem_filter.mp hf).1
  exact hwired.slot_committed_of_retired hf₀ (h.written f₀ hf₀) hs

/-- A commit lets go of a retired buffer only when all three slots hold the final bytes. -/
theorem IsRetired.committed (h : r.IsRetired p) (hwired : r.IsWired) (htallies : r.Tallies) :
    r.committed.IsRetired p := by
  obtain ⟨hf, rfl⟩ | ⟨hallocated, hfree, hslots⟩ := h
  · rename_i f
    cases hfull : (r.refreshed f).written.isFull with
    | false =>
      refine .again (f := r.refreshed f) (List.mem_filter.mpr ⟨List.mem_map_of_mem hf, ?_⟩) rfl
      rw [hfull]
      rfl
    | true =>
      have hi := hwired.allocated (mem_postings.mpr (.inr (.inl ⟨f, hf, rfl⟩)))
      have hfinished : r.refreshed f ∈ r.finished :=
        List.mem_filter.mpr ⟨List.mem_map_of_mem hf, hfull⟩
      refine .done ?_ (fun c hc => hwired.free_of_finished hfinished c hc) fun s hs =>
        hwired.slot_committed_of_retired hf (htallies.written f hf)
          (SlotSet.contains_of_isFull hfull hs)
      rw [hwired.size_committed (lt_of_allocated hi)]
      exact hi
  · have hk := lt_of_allocated hallocated
    refine .done ?_ (fun c hc => hfree c ?_) fun s hs => ?_
    · rw [hwired.size_committed hk]
      exact hallocated
    · rw [claims_committed]
      exact Multiset.mem_add.mpr (.inl hc)
    · have hfinal : r.IsFinal p := .inr (.done hallocated hfree hslots)
      rw [Registry.slotAt_committed hwired hk]
      exact hfinal.slotAt_foldl_post hwired (fun _ => mem_postings_of_commit) (hslots s hs)

theorem IsFinal.committed (h : r.IsFinal p) (hwired : r.IsWired) (htallies : r.Tallies) :
    r.committed.IsFinal p :=
  h.imp id fun hretired => hretired.committed hwired htallies

/-- Whatever a commit posts, a slot that holds the final bytes goes on holding them. -/
theorem IsFinal.slotAt_committed (h : r.IsFinal p) (hwired : r.IsWired)
    (hslot : r.slotAt p.link p.buffer s = p.bytes) :
    r.committed.slotAt p.link p.buffer s = p.bytes := by
  rw [Registry.slotAt_committed hwired (lt_of_allocated (h.allocated hwired))]
  exact h.slotAt_foldl_post hwired (fun _ => mem_postings_of_commit) hslot

/-- A commit puts retired bytes in the slot that it hands over. -/
theorem IsRetired.slotAt_committed (h : r.IsRetired p) (hwired : r.IsWired) :
    r.committed.slotAt p.link p.buffer (r.framesAt p.link).flags.writeSlot = p.bytes := by
  have hfinal : r.IsFinal p := .inr h
  obtain ⟨hf, rfl⟩ | ⟨-, -, hslots⟩ := h
  · exact (hwired.slot_committed_of_mem (lt_of_allocated (hfinal.allocated hwired))
      (List.mem_append_right _ (List.mem_map_of_mem hf)) rfl).2
  · exact hfinal.slotAt_committed hwired (hslots _ (hwired.turning p.link).write)

/-! ### Flushes -/

theorem retired_retiring (r : Registry) : r.retiring.retired.toList =
    r.retired.toList ++ r.disposed.toList.map r.refreshed := by
  unfold retiring
  simp

/-- What a flush posts is in the write slot afterwards. -/
theorem IsWired.slot_retiring_of_mem (h : r.IsWired) {p : Post} (hp : p ∈ r.flushPosts)
    (hlink : p.link = k) (hbuffer : p.buffer = i) :
    (r.retiring.framesAt k).slot i (r.framesAt k).flags.writeSlot = p.bytes := by
  subst hlink hbuffer
  have hframes : r.retiring.framesAt p.link = (r.flushPosts.foldl post r).framesAt p.link :=
    r.framesAt_on r.flushPosts p.link
  rw [hframes]
  exact h.slotAt_posted (fun _ => mem_postings_of_flush) hp

/-- A buffer that is not set aside keeps all its slots in a flush. -/
theorem IsWired.slot_retiring_of_not_mem (h : r.IsWired) (hi : i < (r.framesAt k).buffers.size)
    (hnot : ∀ q ∈ r.flushPosts, q.cell ≠ (k, i)) (s : Nat) :
    (r.retiring.framesAt k).slot i s = (r.framesAt k).slot i s := by
  have hframes : r.retiring.framesAt k = (r.flushPosts.foldl post r).framesAt k :=
    r.framesAt_on r.flushPosts k
  rw [hframes]
  exact h.slotAt_unposted (fun _ => mem_postings_of_flush) hi fun _ => hnot

/-- What was set down is right after a flush. -/
theorem Tallies.retiring (h : r.Tallies) (hwired : r.IsWired) : r.retiring.Tallies := by
  refine ⟨fun f hf => (List.not_mem_nil hf).elim, fun f hf s hs => ?_⟩
  rw [retired_retiring] at hf
  rcases List.mem_append.mp hf with hold | hnew
  · have hpost : f.post ∈ r.commitPosts := List.mem_append_right _ (List.mem_map_of_mem hold)
    refine (hwired.slot_retiring_of_not_mem (hwired.allocated (mem_postings_of_commit hpost))
      (fun q hq hcell => ?_) s).trans (h.written f hold s hs)
    exact hwired.posts_apart hpost hq hcell.symm
  · obtain ⟨f₀, hf₀, rfl⟩ := List.mem_map.mp hnew
    have hwrite : s = (r.framesAt f₀.link).flags.writeSlot := by
      refine (SlotSet.of_contains_insert hs).resolve_right ?_
      rw [h.aside f₀ hf₀, SlotSet.contains_empty]
      exact Bool.false_ne_true
    rw [hwrite]
    exact hwired.slot_retiring_of_mem (List.mem_map_of_mem hf₀) rfl rfl

/-- A flush retires the final bytes that were set aside. -/
theorem isRetired_of_flush (h : p ∈ r.flushPosts) : r.retiring.IsRetired p := by
  obtain ⟨f, hf, rfl⟩ := List.mem_map.mp h
  refine .again (f := r.refreshed f) ?_ rfl
  rw [retired_retiring]
  exact List.mem_append_right _ (List.mem_map_of_mem hf)

/-- A flush leaves what was retired before it alone. -/
theorem IsRetired.retiring (h : r.IsRetired p) (hwired : r.IsWired) : r.retiring.IsRetired p := by
  obtain ⟨hf, hpost⟩ | ⟨hallocated, hfree, hslots⟩ := h
  · refine .again ?_ hpost
    rw [retired_retiring]
    exact List.mem_append_left _ hf
  · refine .done ?_ (r.claims_retiring ▸ hfree) fun s hs => ?_
    · rw [hwired.sameShape_retiring.size]
      exact hallocated
    · refine (hwired.slot_retiring_of_not_mem hallocated (fun q hq hcell => ?_) s).trans (hslots s hs)
      exact hfree _ (claim_of_mem_postings (mem_postings_of_flush hq)) hcell

theorem IsFinal.retiring (h : r.IsFinal p) (hwired : r.IsWired) : r.retiring.IsFinal p :=
  .inr (h.elim isRetired_of_flush fun hretired => hretired.retiring hwired)

/-- Whatever a flush posts, a slot that holds the final bytes goes on holding them. -/
theorem IsFinal.slotAt_retiring (h : r.IsFinal p) (hwired : r.IsWired)
    (hslot : r.slotAt p.link p.buffer s = p.bytes) :
    r.retiring.slotAt p.link p.buffer s = p.bytes := by
  have hframes : r.retiring.framesAt p.link = (r.flushPosts.foldl post r).framesAt p.link :=
    r.framesAt_on r.flushPosts p.link
  unfold slotAt
  rw [hframes]
  exact h.slotAt_foldl_post hwired (fun _ => mem_postings_of_flush) hslot

end Registry

namespace Broadcast

variable {b : Broadcast} {p : Post} {s : Nat}

/-- Only commits and flushes write to buffers that there were. -/
theorem leavesSlots_step {action : Action} (hkeyed : b.registry.IsKeyed) (hcommit : action ≠ .commit)
    (hflush : action ≠ .flush) : b.registry.LeavesSlots (b.step action).2.registry := by
  cases hinternal : action.isInternal with
  | true => exact (keepsBuffers_step hinternal hkeyed).1.leavesSlots
  | false =>
    obtain ⟨links, tick, heq⟩ := registry_step (b := b) hinternal hcommit hflush
    exact .of_frames (by rw [heq]) (by rw [heq]) (by rw [heq]; rfl)
      (framesAt_step_or hinternal hcommit hflush)

/-- What holds of a wired registry goes on holding whatever is done, if it holds as long as no
buffer is written to, after a commit, and after what was set aside is retired. -/
theorem sustained_step {P : Registry → Prop} (h : P b.registry) (hwired : b.registry.IsWired)
    (hkeyed : b.registry.IsKeyed) (action : Action)
    (hleave : ∀ r r', r.IsWired → r.LeavesSlots r' → P r → P r')
    (hcommitted : ∀ r, r.IsWired → P r → P r.committed)
    (hretiring : ∀ r, r.IsWired → P r → P r.retiring) : P (b.step action).2.registry := by
  by_cases hcommit : action = .commit
  · subst hcommit
    rw [step_commit hwired]
    exact hcommitted _ hwired h
  · by_cases hflush : action = .flush
    · subst hflush
      obtain ⟨links, heq, -⟩ := step_flush_eq hwired
      have hquiet := Registry.quiet_processAcks b.registry
      have hacks := hwired.processAcks
      have hacked := hleave _ _ hwired (Registry.KeepsBuffers.of_quiet hquiet).leavesSlots h
      refine hleave _ _ hacks.retiring ?_ (hretiring _ hacks hacked)
      refine .of_frames (by rw [heq]) (by rw [heq]) (by rw [heq]; rfl) fun k => .inl ?_
      exact framesAt_flush hwired k
    · exact hleave _ _ hwired (leavesSlots_step hkeyed hcommit hflush) h

/-- A commit publishes bytes: it goes well, and hands over a slot that holds them. -/
def Publishes (b : Broadcast) (p : Post) : Prop :=
  (b.step .commit).1 = .done ∧
    let frames := (b.step .commit).2.registry.framesAt p.link
    frames.flags.changed = true ∧ frames.slot p.buffer frames.flags.tempSlot = p.bytes

/-- Retired bytes are published by a commit. -/
theorem publishes_of_isRetired (h : b.registry.IsRetired p) (hwired : b.registry.IsWired) :
    b.Publishes p := by
  have hfinal : b.registry.IsFinal p := .inr h
  have hk := Registry.lt_of_allocated (hfinal.allocated hwired)
  unfold Publishes
  rw [step_commit hwired]
  refine ⟨rfl, ?_⟩
  dsimp only
  rw [Registry.flags_committed hwired hk, Snapshot.Flags.changed_publish,
    Snapshot.Flags.tempSlot_publish]
  exact ⟨rfl, h.slotAt_committed hwired⟩

/-- Whether the bookkeeping about the buffers of removed resources is exact. -/
structure RetiresExactly (b : Broadcast) : Prop where
  /-- A slot that counts as written holds the final bytes, and whatever is done from then on, it goes
  on holding them. -/
  written : ∀ f ∈ b.registry.disposed.toList ++ b.registry.retired.toList,
    ∀ s, f.written.contains s = true → ∀ later b', Run b later b' →
      b'.registry.slotAt f.link f.buffer s = f.bytes
  /-- Nothing but the final bytes is ever to be written to the buffer. -/
  alone : ∀ f ∈ b.registry.disposed.toList ++ b.registry.retired.toList,
    ∀ later b', Run b later b' → ∀ p ∈ b'.registry.postings, p.cell = f.post.cell → p = f.post
  /-- What was set aside stays so until the next flush. -/
  aside : ∀ f ∈ b.registry.disposed.toList, ∀ action ≠ .flush,
    f ∈ (b.step action).2.registry.disposed.toList
  /-- A flush retires what was set aside. -/
  flushed : ∀ f ∈ b.registry.disposed.toList,
    ∃ g ∈ (b.step .flush).2.registry.retired.toList, g.post = f.post
  /-- What is retired stays so, unless all three slots hold the final bytes. -/
  retired : ∀ f ∈ b.registry.retired.toList, ∀ later b', Run b later b' →
    (∃ g ∈ b'.registry.retired.toList, g.post = f.post) ∨
      ∀ s < 3, b'.registry.slotAt f.link f.buffer s = f.bytes
  /-- From its retirement on, every commit publishes the final bytes. -/
  published : ∀ f ∈ b.registry.retired.toList, ∀ later b', Run b later b' → b'.Publishes f.post

end Broadcast

namespace Run

variable {config : Config} {supply : Supply} {past later : List Moment} {b b' : Broadcast}
  {p : Post} {s : Nat}

/-- In every run, what was set down about the buffers of removed resources is right. -/
theorem tallies (h : Run (.opened config supply) past b) : b.registry.Tallies := by
  induction h with
  | nil => exact ⟨fun f hf => (List.not_mem_nil hf).elim, fun f hf => (List.not_mem_nil hf).elim⟩
  | snoc h action ih =>
    exact Broadcast.sustained_step ih h.isWired h.isKeyed action
      (fun _ _ hwired hleaves htallies => htallies.leave hwired hleaves)
      (fun _ hwired htallies => htallies.committed hwired)
      (fun _ hwired htallies => htallies.retiring hwired)

/-- What holds of the registry in a state of a run holds from then on, if it holds as long as no
buffer is written to, after a commit, and after what was set aside is retired. -/
theorem sustained {P : Registry → Prop} (h : Run (.opened config supply) past b)
    (hmore : Run b later b') (hP : P b.registry)
    (hleave : ∀ r r', r.LeavesSlots r' → r.IsWired → P r → P r')
    (hcommitted : ∀ r, r.IsWired → r.Tallies → P r → P r.committed)
    (hretiring : ∀ r, r.IsWired → P r → P r.retiring) : P b'.registry := by
  suffices hboth : b'.registry.Tallies ∧ P b'.registry from hboth.2
  induction hmore with
  | nil => exact ⟨h.tallies, hP⟩
  | snoc hmore action ih =>
    have hrun := h.append hmore
    refine Broadcast.sustained_step (P := fun r => r.Tallies ∧ P r) ih hrun.isWired hrun.isKeyed
      action ?_ ?_ ?_
    · exact fun r r' hwired hleaves ⟨htallies, hP⟩ =>
        ⟨htallies.leave hwired hleaves, hleave r r' hleaves hwired hP⟩
    · exact fun r hwired ⟨htallies, hP⟩ =>
        ⟨htallies.committed hwired, hcommitted r hwired htallies hP⟩
    · exact fun r hwired ⟨htallies, hP⟩ => ⟨htallies.retiring hwired, hretiring r hwired hP⟩

theorem isRetired (h : Run (.opened config supply) past b) (hmore : Run b later b')
    (hp : b.registry.IsRetired p) : b'.registry.IsRetired p :=
  h.sustained hmore (P := fun r => r.IsRetired p) hp (fun _ _ hleaves _ hp => hp.leave hleaves)
    (fun _ hwired htallies hp => hp.committed hwired htallies) fun _ hwired hp => hp.retiring hwired

theorem isFinal (h : Run (.opened config supply) past b) (hmore : Run b later b')
    (hp : b.registry.IsFinal p) : b'.registry.IsFinal p :=
  h.sustained hmore (P := fun r => r.IsFinal p) hp (fun _ _ hleaves _ hp => hp.leave hleaves)
    (fun _ hwired htallies hp => hp.committed hwired htallies) fun _ hwired hp => hp.retiring hwired

/-- A slot that holds final bytes goes on holding them. -/
theorem slotAt_final (h : Run (.opened config supply) past b) (hmore : Run b later b')
    (hp : b.registry.IsFinal p) (hslot : b.registry.slotAt p.link p.buffer s = p.bytes) :
    b'.registry.slotAt p.link p.buffer s = p.bytes := by
  refine (h.sustained hmore (P := fun r => r.IsFinal p ∧ r.slotAt p.link p.buffer s = p.bytes)
    ⟨hp, hslot⟩ ?_ ?_ ?_).2
  · exact fun r r' hleaves hwired ⟨hp, hslot⟩ => ⟨hp.leave hleaves,
      (hleaves.slot p.link p.buffer (hp.allocated hwired) s).trans hslot⟩
  · exact fun r hwired htallies ⟨hp, hslot⟩ => ⟨hp.committed hwired htallies,
      hp.slotAt_committed hwired hslot⟩
  · exact fun r hwired ⟨hp, hslot⟩ => ⟨hp.retiring hwired, hp.slotAt_retiring hwired hslot⟩

/-- In every run, the bookkeeping about the buffers of removed resources is exact. -/
theorem retires_exactly (h : Run (.opened config supply) past b) : b.RetiresExactly := by
  have htallies := h.tallies
  have haside {f : RetiredBuffer} (hf : f ∈ b.registry.disposed.toList) :
      f.post ∈ b.registry.flushPosts := List.mem_map_of_mem hf
  have hretired {f : RetiredBuffer} (hf : f ∈ b.registry.retired.toList) :
      b.registry.IsRetired f.post := .again hf rfl
  have hfinal (f : RetiredBuffer)
      (hf : f ∈ b.registry.disposed.toList ++ b.registry.retired.toList) :
      b.registry.IsFinal f.post :=
    (List.mem_append.mp hf).imp haside hretired
  refine ⟨fun f hf s hs later b' hmore => ?_, fun f hf later b' hmore p hp hcell => ?_,
    fun f hf action hflush => ?_, fun f hf => ?_, fun f hf later b' hmore => ?_,
    fun f hf later b' hmore => ?_⟩
  · refine h.slotAt_final hmore (hfinal f hf) ?_
    rcases List.mem_append.mp hf with hf | hf
    · rw [htallies.aside f hf, SlotSet.contains_empty] at hs
      cases hs
    · exact htallies.written f hf s hs
  · exact (h.isFinal hmore (hfinal f hf)).alone (h.append hmore).isWired hp hcell
  · by_cases hcommit : action = .commit
    · subst hcommit
      rw [Broadcast.step_commit h.isWired]
      exact hf
    · obtain ⟨gone, heq, -⟩ := (Broadcast.leavesSlots_step h.isKeyed hcommit hflush).disposed
      rw [heq]
      exact List.mem_append_left _ hf
  · obtain ⟨links, heq, -⟩ := Broadcast.step_flush_eq h.isWired
    rw [heq, Registry.retired_retiring]
    rw [← (Registry.quiet_processAcks b.registry).disposed] at hf
    exact ⟨_, List.mem_append_right _ (List.mem_map_of_mem hf), rfl⟩
  · obtain ⟨hg, hpost⟩ | ⟨-, -, hslots⟩ := h.isRetired hmore (hretired hf)
    · exact .inl ⟨_, hg, hpost⟩
    · exact .inr hslots
  · exact Broadcast.publishes_of_isRetired (h.isRetired hmore (hretired hf))
      (h.append hmore).isWired

end Run

namespace Samples

/-- Two nodes, the first of which is removed and retired before two commits, and the second is
removed after them. -/
def retiredNode : List Moment × Broadcast :=
  (Broadcast.opened ⟨.game, 8⟩ ⟨0, .initial⟩).play
    [.connect .render,
      .createInstance ⟨0, node⟩ [] {},
      .createInstance ⟨0, node⟩ [] {},
      .flush,
      .dispose 1,
      .flush,
      .commit,
      .commit,
      .dispose 2]

/-- Two slots of the buffers of the first node have been written, and none of those of the second. -/
theorem retires_exactly_retiredNode :
    retiredNode.2.registry.retired =
        #[⟨0, 0, [disposedBit], ⟨true, true, false⟩⟩,
          ⟨0, 1, List.replicate 8 0, ⟨true, true, false⟩⟩] ∧
      retiredNode.2.registry.disposed =
        #[⟨0, 2, [disposedBit], {}⟩, ⟨0, 3, List.replicate 8 0, {}⟩] ∧
      retiredNode.2.RetiresExactly :=
  ⟨by decide +kernel, by decide +kernel, Run.retires_exactly (.play _ _)⟩

end Samples

end Framecast
