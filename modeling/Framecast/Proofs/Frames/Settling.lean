import Framecast.Proofs.Frames.Retiring

/-!
# How a buffer settles

What a buffer is to show is what it was last to be written with. A commit hands that
over, unless the buffer is set aside, and a buffer that is written no more holds it in
all three slots. So what a consumer picks up is what there was to be shown at the
last commit.
-/

namespace Framecast

/-- What buffer `i` of link `k` is to show at the end of a run: the snapshot that it was last to be
written with. -/
def contents (k i : Nat) : List Moment → Option Bytes
  | [] => none
  | m :: past => (m.after.registry.due? k i).or (contents k i past)

/-- How many commits were made. -/
def commits : List Moment → Nat
  | [] => 0
  | m :: past =>
    match m.action with
    | .commit => commits past + 1
    | _ => commits past

/-- What buffer `i` of link `k` was to show when commit `n` was made. -/
def contentsAt (k i n : Nat) : List Moment → Option Bytes
  | [] => none
  | m :: past =>
    match m.action with
    | .commit => if n = commits past + 1 then contents k i past else contentsAt k i n past
    | _ => contentsAt k i n past

section History

variable {k i n n' : Nat} {m : Moment} {past : List Moment} {x : Bytes}

/-- Other actions are no commits. -/
theorem commits_of_ne (h : m.action ≠ .commit) : commits (m :: past) = commits past := by
  rw [commits]
  split
  · exact absurd ‹_› h
  · rfl

/-- Other actions change nothing of what was to be shown at the commits. -/
theorem contentsAt_of_ne (h : m.action ≠ .commit) :
    contentsAt k i n (m :: past) = contentsAt k i n past := by
  rw [contentsAt]
  split
  · exact absurd ‹_› h
  · rfl

theorem commits_of_commit (h : m.action = .commit) : commits (m :: past) = commits past + 1 := by
  rw [commits, h]

/-- At the last commit there was to be shown what there was to be shown just before it. -/
theorem contentsAt_of_commit (h : m.action = .commit) :
    contentsAt k i n (m :: past) =
      if n = commits past + 1 then contents k i past else contentsAt k i n past := by
  rw [contentsAt, h]

/-- A buffer that was to show something at a commit is to show something ever after. -/
theorem contents_of_contentsAt (h : contentsAt k i n past = some x) :
    (contents k i past).isSome := by
  have hgrow (m : Moment) (past : List Moment) (h : (contents k i past).isSome) :
      (contents k i (m :: past)).isSome := by
    rw [contents, Option.isSome_or, h, Bool.or_true]
  induction past with
  | nil => cases h
  | cons m past ih =>
    by_cases hcommit : m.action = .commit
    · rw [contentsAt_of_commit hcommit] at h
      split at h
      · exact hgrow m past (by rw [h]; rfl)
      · exact hgrow m past (ih h)
    · rw [contentsAt_of_ne hcommit] at h
      exact hgrow m past (ih h)

/-- Nothing is known of commits that were not made. -/
theorem le_commits_of_contentsAt (h : contentsAt k i n past = some x) : n ≤ commits past := by
  induction past with
  | nil => cases h
  | cons m past ih =>
    by_cases hcommit : m.action = .commit
    · rw [contentsAt_of_commit hcommit] at h
      rw [commits_of_commit hcommit]
      split at h
      · exact Nat.le_of_eq ‹_›
      · exact (ih h).trans (Nat.le_succ _)
    · rw [contentsAt_of_ne hcommit] at h
      rw [commits_of_ne hcommit]
      exact ih h

/-- What was to be shown at a commit does not change later. -/
theorem contentsAt_append (h : contentsAt k i n past = some x) (later : List Moment) :
    contentsAt k i n (later ++ past) = some x := by
  induction later with
  | nil => exact h
  | cons m later ih =>
    rw [List.cons_append]
    by_cases hcommit : m.action = .commit
    · rw [contentsAt_of_commit hcommit, if_neg]
      · exact ih
      · exact Nat.ne_of_lt (Nat.lt_succ_of_le (le_commits_of_contentsAt ih))
    · rw [contentsAt_of_ne hcommit]
      exact ih

/-- A buffer that was to show something at a commit was to do so at each later one. -/
theorem contentsAt_of_le (h : contentsAt k i n past = some x) (hle : n ≤ n')
    (hn' : n' ≤ commits past) : (contentsAt k i n' past).isSome := by
  induction past with
  | nil => cases h
  | cons m past ih =>
    by_cases hcommit : m.action = .commit
    · rw [contentsAt_of_commit hcommit] at *
      rw [commits_of_commit hcommit] at hn'
      by_cases hlast : n' = commits past + 1
      · rw [if_pos hlast]
        split at h
        · rw [h]
          rfl
        · exact contents_of_contentsAt h
      · rw [if_neg hlast]
        rw [if_neg (by omega)] at h
        exact ih h (by omega)
    · rw [contentsAt_of_ne hcommit] at *
      rw [commits_of_ne hcommit] at hn'
      exact ih h hn'

end History

/-- What the slots of buffer `i` of link `k` hold. -/
structure Broadcast.Settles (b : Broadcast) (k i : Nat) (past : List Moment) : Prop where
  /-- A buffer that is to show something is there. -/
  allocated : (contents k i past).isSome → i < (b.registry.framesAt k).buffers.size
  /-- What the buffer is to be written with is what it is to show. -/
  current : ∀ x, b.registry.due? k i = some x → contents k i past = some x
  /-- All slots of a buffer that is written no more hold what it is to show. -/
  done : b.registry.due? k i = none → ∀ x, contents k i past = some x →
    ∀ s < 3, (b.registry.framesAt k).slot i s = x
  /-- What was handed over and not picked up is what there was to be shown at the last commit. -/
  handed : (b.registry.framesAt k).flags.changed = true →
    ∀ x, contentsAt k i (commits past) past = some x →
      (b.registry.framesAt k).slot i (b.registry.framesAt k).flags.tempSlot = x

namespace Registry

variable {r : Registry} {k i : Nat} {x : Bytes}

theorem IsWired.lt_of_due? (h : r.IsWired) (hdue : r.due? k i = some x) :
    i < (r.framesAt k).buffers.size :=
  h.allocated (h.due?_eq_some.mp hdue)

/-- A buffer that is not to be written keeps all its slots in a commit. -/
theorem IsWired.slot_committed_of_none (h : r.IsWired) (hi : i < (r.framesAt k).buffers.size)
    (hnone : r.due? k i = none) (s : Nat) :
    (r.committed.framesAt k).slot i s = (r.framesAt k).slot i s :=
  (slotAt_committed h (lt_of_allocated hi) i s).trans
    (h.slotAt_unposted (fun _ => mem_postings_of_commit) hi fun _ q hq =>
      due?_eq_none.mp hnone q (mem_postings_of_commit hq))

/-- Unless a buffer is set aside, a commit hands over what it is to be written with. -/
theorem IsWired.slot_committed_of_due? (h : r.IsWired) (hdue : r.due? k i = some x)
    (hnot : ¬r.SetsAside k i) :
    (r.committed.framesAt k).slot i (r.framesAt k).flags.writeSlot = x := by
  have hmem := h.due?_eq_some.mp hdue
  refine (h.slot_committed_of_mem (lt_of_allocated (h.allocated hmem)) ?_ rfl).2
  rcases List.mem_append.mp hmem with hpost | hpost
  · exact hpost
  · obtain ⟨f, hf, heq⟩ := List.mem_map.mp hpost
    obtain ⟨hlink, hbuffer, -⟩ := Post.mk.inj heq
    exact absurd ⟨f, hf, hlink, hbuffer⟩ hnot

/-- What is to be written after a commit was to be written before it. -/
theorem postings_committed_subset : r.committed.postings ⊆ r.postings := by
  intro p hp
  rcases mem_postings.mp hp with hlive | ⟨f, hf, rfl⟩ | haside
  · exact mem_postings.mpr (.inl hlive)
  · obtain ⟨f₀, hf₀, rfl⟩ := List.mem_map.mp (List.mem_filter.mp hf).1
    exact mem_postings.mpr (.inr (.inl ⟨f₀, hf₀, rfl⟩))
  · exact mem_postings.mpr (.inr (.inr haside))

/-- What was to be written before a commit still is, or it was retired and is in every slot now. -/
theorem of_mem_postings {p : Post} (hp : p ∈ r.postings) :
    p ∈ r.committed.postings ∨
      ∃ f ∈ r.retired.toList, f.post = p ∧ (r.refreshed f).written.isFull = true := by
  rcases mem_postings.mp hp with hlive | ⟨f, hf, rfl⟩ | haside
  · exact .inl (mem_postings.mpr (.inl hlive))
  · cases hfull : (r.refreshed f).written.isFull with
    | true => exact .inr ⟨f, hf, rfl, hfull⟩
    | false =>
      refine .inl (mem_postings.mpr (.inr (.inl ⟨r.refreshed f, ?_, rfl⟩)))
      exact List.mem_filter.mpr ⟨List.mem_map_of_mem hf, by rw [hfull]; rfl⟩
  · exact .inl (mem_postings.mpr (.inr (.inr haside)))

/-- What was set aside and is now retired is to be written as before. -/
theorem mem_postings_retiring {p : Post} : p ∈ r.retiring.postings ↔ p ∈ r.postings := by
  have hretired := r.retired_retiring
  have hdisposed : r.retiring.disposed.toList = [] := rfl
  have hlive : r.retiring.resource? = r.resource? := rfl
  rw [mem_postings, mem_postings, hretired, hdisposed, hlive]
  simp only [List.mem_append, List.mem_map, or_and_right, exists_or, List.not_mem_nil, false_and,
    exists_false, or_false, exists_exists_and_eq_and]
  exact Iff.rfl

/-- The same resources, set aside and retired buffers are to be written with the same. -/
theorem mem_postings_congr {r' : Registry} {p : Post}
    (hres : ∀ id, (r'.resource? id).map Resource.posts = (r.resource? id).map Resource.posts)
    (hdisposed : r'.disposed = r.disposed) (hretired : r'.retired = r.retired) :
    p ∈ r'.postings ↔ p ∈ r.postings := by
  have hlive : (∃ id res, r'.resource? id = some res ∧ p ∈ res.posts) ↔
      ∃ id res, r.resource? id = some res ∧ p ∈ res.posts := by
    have hone (r : Registry) (id : ResourceId) :
        (∃ res, r.resource? id = some res ∧ p ∈ res.posts) ↔
          ∃ posts, (r.resource? id).map Resource.posts = some posts ∧ p ∈ posts := by
      cases r.resource? id <;> simp
    refine exists_congr fun id => ?_
    rw [hone, hone, hres]
  rw [mem_postings, mem_postings, hlive, hdisposed, hretired]

/-- After a quiet change the same is to be written. -/
theorem Quiet.mem_postings {r' : Registry} (h : r.Quiet r') {p : Post} :
    p ∈ r'.postings ↔ p ∈ r.postings := by
  refine mem_postings_congr (fun id => ?_) h.disposed h.retired
  have hbody := congrArg (Option.map Resource.posts) (h.resources id)
  rw [Option.map_map, Option.map_map] at hbody
  exact hbody

end Registry

namespace Broadcast.Settles

variable {b : Broadcast} {action : Action} {k i : Nat} {past : List Moment}

/-- An action that writes to no buffer and publishes nothing leaves a buffer settled. -/
theorem calm (h : b.Settles k i past) (hwired' : (b.step action).2.registry.IsWired)
    (hcommit : action ≠ .commit) (hleaves : b.registry.LeavesSlots (b.step action).2.registry)
    (hdue : (b.step action).2.registry.due? k i = none → b.registry.due? k i = none)
    (hflags : ((b.step action).2.registry.framesAt k).flags.changed = true →
      (b.registry.framesAt k).flags.changed = true ∧
        ((b.step action).2.registry.framesAt k).flags.tempSlot =
          (b.registry.framesAt k).flags.tempSlot) :
    (b.step action).2.Settles k i (⟨b, action⟩ :: past) := by
  have hcontents : contents k i (⟨b, action⟩ :: past) =
      ((b.step action).2.registry.due? k i).or (contents k i past) := rfl
  have hslot (hsome : (contents k i past).isSome) (s : Nat) :
      ((b.step action).2.registry.framesAt k).slot i s = (b.registry.framesAt k).slot i s :=
    hleaves.slot k i (h.allocated hsome) s
  refine ⟨fun hsome => ?_, fun x hx => ?_, fun hnone x hx s hs => ?_, fun hchanged x hx => ?_⟩
  · cases hnew : (b.step action).2.registry.due? k i with
    | some x => exact hwired'.lt_of_due? hnew
    | none =>
      rw [hcontents, hnew, Option.none_or] at hsome
      exact Nat.lt_of_lt_of_le (h.allocated hsome) (hleaves.size k)
  · rw [hcontents, hx, Option.some_or]
  · rw [hcontents, hnone, Option.none_or] at hx
    rw [hslot (by rw [hx]; rfl)]
    exact h.done (hdue hnone) x hx s hs
  · obtain ⟨hbefore, htemp⟩ := hflags hchanged
    rw [commits_of_ne hcommit, contentsAt_of_ne hcommit] at hx
    rw [htemp, hslot (contents_of_contentsAt hx)]
    exact h.handed hbefore x hx

/-- A commit leaves a buffer settled that is not set aside. -/
theorem committed (h : b.Settles k i past) (hwired : b.registry.IsWired)
    (hwired' : (b.step .commit).2.registry.IsWired) (htallies : b.registry.Tallies)
    (hnot : ¬b.registry.SetsAside k i) :
    (b.step .commit).2.Settles k i (⟨b, .commit⟩ :: past) := by
  have hstep : (b.step .commit).2.registry = b.registry.committed := by
    rw [Broadcast.step_commit hwired]
  rw [hstep] at hwired'
  have hcontents : contents k i (⟨b, .commit⟩ :: past) = contents k i past := by
    show ((b.step .commit).2.registry.due? k i).or (contents k i past) = _
    rw [hstep]
    cases hdue : b.registry.committed.due? k i with
    | none => rfl
    | some x =>
      have hbefore := Registry.postings_committed_subset (hwired'.due?_eq_some.mp hdue)
      rw [Option.some_or, h.current x (hwired.due?_eq_some.mpr hbefore)]
  have hshown (x : Bytes) (hx : contents k i past = some x) :
      (b.registry.committed.framesAt k).slot i (b.registry.framesAt k).flags.writeSlot = x := by
    cases hdue : b.registry.due? k i with
    | none =>
      rw [hwired.slot_committed_of_none (h.allocated (by rw [hx]; rfl)) hdue]
      exact h.done hdue x hx _ (hwired.turning k).write
    | some y =>
      rw [hwired.slot_committed_of_due? hdue hnot]
      exact Option.some.inj ((h.current y hdue).symm.trans hx)
  refine ⟨fun hsome => ?_, fun x hx => ?_, fun hnone x hx s hs => ?_, fun hchanged x hx => ?_⟩
  · rw [hcontents] at hsome
    have hi := h.allocated hsome
    rw [hstep, hwired.size_committed (Registry.lt_of_allocated hi)]
    exact hi
  · rw [hstep] at hx
    rw [hcontents]
    exact h.current x (hwired.due?_eq_some.mpr
      (Registry.postings_committed_subset (hwired'.due?_eq_some.mp hx)))
  · rw [hstep] at hnone ⊢
    rw [hcontents] at hx
    cases hdue : b.registry.due? k i with
    | none =>
      rw [hwired.slot_committed_of_none (h.allocated (by rw [hx]; rfl)) hdue]
      exact h.done hdue x hx s hs
    | some y =>
      obtain rfl := Option.some.inj ((h.current y hdue).symm.trans hx)
      rcases Registry.of_mem_postings (hwired.due?_eq_some.mp hdue) with hmem | ⟨f, hf, heq, hfull⟩
      · exact absurd rfl (Registry.due?_eq_none.mp hnone _ hmem)
      · obtain ⟨hlink, hbuffer, hbytes⟩ := Post.mk.inj heq
        subst hlink hbuffer
        exact (hwired.slot_committed_of_retired hf (htallies.written f hf)
          (SlotSet.contains_of_isFull hfull hs)).trans hbytes
  · rw [commits_of_commit rfl, contentsAt_of_commit rfl, if_pos rfl] at hx
    have hi := h.allocated (by rw [hx]; rfl)
    rw [hstep, Registry.flags_committed hwired (Registry.lt_of_allocated hi),
      Snapshot.Flags.tempSlot_publish]
    exact hshown x hx

/-- A flush leaves a buffer settled. -/
theorem flushed (h : b.Settles k i past) (hwired : b.registry.IsWired)
    (hwired' : (b.step .flush).2.registry.IsWired) :
    (b.step .flush).2.Settles k i (⟨b, .flush⟩ :: past) := by
  have hquiet := Registry.quiet_processAcks b.registry
  have hacks : b.registry.processAcks.IsWired := hwired.processAcks
  have hframes : ((b.step .flush).2.registry.framesAt k) =
      b.registry.processAcks.retiring.framesAt k := Broadcast.framesAt_flush hwired k
  obtain ⟨links, hstep, -⟩ := Broadcast.step_flush_eq hwired
  have hpostings (p : Post) : p ∈ (b.step .flush).2.registry.postings ↔ p ∈ b.registry.postings := by
    rw [← hquiet.mem_postings, ← Registry.mem_postings_retiring (r := b.registry.processAcks), hstep]
    exact Registry.mem_postings_congr (fun _ => rfl) rfl rfl
  have hdue (x : Bytes) :
      (b.step .flush).2.registry.due? k i = some x ↔ b.registry.due? k i = some x := by
    rw [hwired'.due?_eq_some, hwired.due?_eq_some, hpostings]
  have hcontents : contents k i (⟨b, .flush⟩ :: past) = contents k i past := by
    show ((b.step .flush).2.registry.due? k i).or (contents k i past) = _
    cases hnew : (b.step .flush).2.registry.due? k i with
    | none => rfl
    | some x => rw [Option.some_or, h.current x ((hdue x).mp hnew)]
  have hsize : (b.registry.processAcks.retiring.framesAt k).buffers.size =
      (b.registry.framesAt k).buffers.size := by
    rw [hacks.sameShape_retiring.size k, hquiet.framesAt]
  have hflags : (b.registry.processAcks.retiring.framesAt k).flags = (b.registry.framesAt k).flags := by
    rw [hacks.sameShape_retiring.flags k, hquiet.framesAt]
  refine ⟨fun hsome => ?_, fun x hx => ?_, fun hnone x hx s hs => ?_, fun hchanged x hx => ?_⟩
  · rw [hframes, hsize]
    exact h.allocated (hcontents ▸ hsome)
  · rw [hcontents]
    exact h.current x ((hdue x).mp hx)
  · have hbefore : b.registry.due? k i = none := by
      rw [Option.eq_none_iff_forall_ne_some] at hnone ⊢
      exact fun y hy => hnone y ((hdue y).mpr hy)
    rw [hcontents] at hx
    rw [hframes, hacks.slot_retiring_of_not_mem, hquiet.framesAt]
    · exact h.done hbefore x hx s hs
    · rw [hquiet.framesAt]
      exact h.allocated (by rw [hx]; rfl)
    · intro q hq
      exact Registry.due?_eq_none.mp hbefore q
        (hquiet.mem_postings.mp (Registry.mem_postings_of_flush hq))
  · rw [hframes, hflags] at hchanged
    rw [commits_of_ne (by simp), contentsAt_of_ne (by simp)] at hx
    have hi := h.allocated (contents_of_contentsAt hx)
    rw [hframes, hflags, hacks.slot_retiring_of_ne, hquiet.framesAt]
    · exact h.handed hchanged x hx
    · rw [hquiet.framesAt]
      exact (hwired.turning k).write_ne_temp.symm
    · rw [hquiet.framesAt]
      exact hi

/-- Every action leaves a buffer settled, but for a commit while it is set aside. -/
theorem step (h : b.Settles k i past) (hwired : b.registry.IsWired) (hc : action.IsCompiled)
    (hw : b.registry.WellFormed) (hl : (b.step action).2.registry.supply.Lasts)
    (htallies : b.registry.Tallies) (hnot : action = .commit → ¬b.registry.SetsAside k i) :
    (b.step action).2.Settles k i (⟨b, action⟩ :: past) := by
  have hwired' := Broadcast.isWired_step hwired hw.isKeyed action
  cases hinternal : action.isInternal with
  | true =>
    have hhands := Broadcast.handsOn_step hinternal hc hw hl
    have hleaves := (Broadcast.keepsBuffers_step hinternal hw.isKeyed).1.leavesSlots
    refine h.calm hwired' (fun heq => ?_) hleaves hhands.due?_eq_none fun hchanged => ?_
    · subst heq
      cases hinternal
    · rw [(hhands.frames k).flags] at hchanged ⊢
      exact ⟨hchanged, rfl⟩
  | false =>
    by_cases hcommit : action = .commit
    · subst hcommit
      exact h.committed hwired hwired' htallies (hnot rfl)
    · by_cases hflush : action = .flush
      · subst hflush
        exact h.flushed hwired hwired'
      · obtain ⟨links, tick, hstep⟩ := Broadcast.registry_step (b := b) hinternal hcommit hflush
        have hdue : (b.step action).2.registry.due? k i = b.registry.due? k i := by
          rw [hstep]
          rfl
        refine h.calm hwired' hcommit (Broadcast.leavesSlots_step hw.isKeyed hcommit hflush)
          (fun hnone => hdue ▸ hnone) fun hchanged => ?_
        rcases Broadcast.framesAt_step_or hinternal hcommit hflush k with hframes | hframes
        · rw [hframes] at hchanged ⊢
          exact ⟨hchanged, rfl⟩
        · rw [hframes] at hchanged
          have hnone := Snapshot.Flags.changed_pickUp (b.registry.framesAt k).flags
          exact absurd hchanged (Bool.eq_false_iff.mp hnone)

/-- What a consumer reads stays, or it becomes what there was to be shown at the last commit. -/
theorem read_step {x : Bytes} (h : b.Settles k i past) (hwired : b.registry.IsWired)
    (hsizes : b.replicas.size = b.registry.links.length) (hc : action.IsCompiled)
    (hw : b.registry.WellFormed) (hl : (b.step action).2.registry.supply.Lasts)
    (hx : contentsAt k i (commits past) past = some x) :
    ((b.step action).2.registry.framesAt k).read i = (b.registry.framesAt k).read i ∨
      ((b.step action).2.registry.framesAt k).read i = x := by
  have hi := h.allocated (contents_of_contentsAt hx)
  rcases Broadcast.read_step hwired hsizes hc hw hl hi with hsame | ⟨hchanged, hread⟩
  · exact .inl hsame
  · exact .inr (hread.trans (h.handed hchanged x hx))

end Broadcast.Settles

end Framecast
