import Framecast.Proofs.Frames.Posting
import Framecast.Proofs.Operation.Answers

/-!
# What a commit and a flush post

A commit posts the bytes of every instance and the final bytes of every retired
buffer, and then publishes on each link. A flush posts the final bytes of the
buffers that were set aside, and retires them. Neither changes anything else of a
link's snapshots, and neither touches a resource.
-/

namespace Framecast

namespace Registry

variable {r r' : Registry} {p : Post}

/-- Writing a retired buffer again changes snapshots only. -/
theorem ends_refreshRetired (b : RetiredBuffer) (r : Registry) :
    Ends (refreshRetired b) r
      (fun again after => r.Fits b.post ∧ after = r.post b.post ∧
        again = { b with written := b.written.insert (r.framesAt b.link).flags.writeSlot })
      (fun _ after => ¬r.Fits b.post ∧ after = r) := by
  unfold refreshRetired
  rw [Ends.bind_iff]
  apply (ends_copyTo b.link b.buffer b.bytes r).imp
  · rintro _ after ⟨hfits, rfl, rfl⟩
    exact ⟨hfits, rfl, rfl⟩
  · exact fun _ _ h => h

/-- A step that only posts keeps a registry in which only snapshots differ. -/
theorem reframed_copyTo (link buffer : Nat) (bytes : Bytes) (h : r.Reframed r') :
    Ends (copyTo link buffer bytes) r' (fun _ after => r.Reframed after)
      (fun _ after => r.Reframed after) := by
  apply (ends_copyTo link buffer bytes r').imp
  · rintro _ after ⟨-, -, rfl⟩
    exact h.trans (reframed_post r' _)
  · rintro _ after ⟨-, rfl⟩
    exact h

/-- Writing a retired buffer again keeps a registry in which only snapshots differ. -/
theorem reframed_refreshRetired (b : RetiredBuffer) (h : r.Reframed r') :
    Ends (refreshRetired b) r' (fun _ after => r.Reframed after)
      (fun _ after => r.Reframed after) := by
  apply (ends_refreshRetired b r').imp
  · rintro _ after ⟨-, rfl, -⟩
    exact h.trans (reframed_post r' _)
  · rintro _ after ⟨-, rfl⟩
    exact h

/-- However a commit ends, only snapshots and retired buffers have changed. -/
theorem reframed_commit (r : Registry) :
    Ends commit r (fun _ after => r.Reframed after) (fun _ after => r.Reframed after) := by
  unfold commit
  rw [Ends.bind_iff, Ends.get_iff, Ends.bind_iff]
  refine (Ends.forM (P := fun after => r.Reframed after) ?_ (.refl r)).imp ?_ fun _ _ h => h
  · intro res _ s hs
    unfold commitResource
    split
    · exact hs
    · apply Ends.forM (P := fun after => r.Reframed after) _ hs
      intro b _ s hs
      split
      · rw [Ends.discard_iff]
        exact reframed_copyTo _ _ _ hs
      · exact hs
  · intro _ copied hcopied
    unfold commitRetired
    rw [Ends.bind_iff, Ends.bind_iff, Ends.get_iff, Ends.bind_iff]
    apply (Ends.mapM (P := fun after => r.Reframed after)
      (fun b _ s hs => reframed_refreshRetired b hs) hcopied).imp
    · intro written s hs
      rw [Ends.modify_iff, Ends.modify_iff]
      refine hs.trans ⟨⟨_, _, _, rfl⟩, ?_⟩
      rw [List.map_map]
      rfl
    · exact fun _ _ h => h

/-- However the retiring ends, only snapshots and retired buffers have changed. -/
theorem reframed_retireDisposed (r : Registry) :
    Ends retireDisposed r (fun _ after => r.Reframed after) (fun _ after => r.Reframed after) := by
  unfold retireDisposed
  rw [Ends.bind_iff, Ends.get_iff, Ends.bind_iff, Ends.modify_iff]
  apply Ends.forM (P := fun after => r.Reframed after)
  · intro b _ s hs
    rw [Ends.bind_iff]
    apply (reframed_refreshRetired b hs).imp
    · intro again after hafter
      rw [Ends.modify_iff]
      exact hafter.trans ⟨⟨_, _, _, rfl⟩, rfl⟩
    · exact fun _ _ h => h
  · exact ⟨⟨_, _, _, rfl⟩, rfl⟩

/-- How a flush ends: only snapshots and retired buffers change until the outboxes are sent. -/
theorem ends_flush (r : Registry) :
    Ends flush r
      (fun _ after => ∃ retired, r.processAcks.Reframed retired ∧
        (flushLinks retired.links).2 = none ∧
        after = { retired with links := (flushLinks retired.links).1 })
      (fun _ after => ∃ retired, r.processAcks.Reframed retired ∧
        (after = retired ∨ after = { retired with links := (flushLinks retired.links).1 })) := by
  unfold flush
  rw [Ends.bind_iff, Ends.modify_iff, Ends.bind_iff]
  apply (reframed_retireDisposed r.processAcks).imp
  · intro _ retired hretired
    simp only [Ends.bind_iff, Ends.get_iff, Ends.modify_iff]
    split
    · exact ⟨retired, hretired, .inr rfl⟩
    · rename_i hnone
      exact ⟨retired, hretired, hnone, rfl⟩
  · exact fun _ after hafter => ⟨after, hafter, .inl rfl⟩

/-- The snapshots that a commit writes. -/
def commitPosts (r : Registry) : List Post :=
  r.live.flatMap Resource.posts ++ r.retired.toList.map RetiredBuffer.post

/-- A retired buffer that was written once more. -/
def refreshed (r : Registry) (b : RetiredBuffer) : RetiredBuffer :=
  { b with written := b.written.insert (r.framesAt b.link).flags.writeSlot }

/-- What is refreshed is the same however many snapshots that fit are posted. -/
theorem SameShape.refreshed (h : r.SameShape r') (b : RetiredBuffer) :
    r'.refreshed b = r.refreshed b := by
  unfold Registry.refreshed
  rw [h.flags]

/-- Posting several snapshots that fit and doing something after each. -/
theorem ends_commitBindings {bindings : List Binding} {bytes : Bytes}
    (h : ∀ p ∈ bindings.filterMap fun b => b.data?.map fun buffer => (⟨b.link, buffer, bytes⟩ : Post),
      r.Fits p) :
    Ends (bindings.forM fun b =>
        match b.data? with
        | some buffer => discard (copyTo b.link buffer bytes)
        | none => pure ()) r
      (fun _ after => after = (bindings.filterMap fun b =>
        b.data?.map fun buffer => (⟨b.link, buffer, bytes⟩ : Post)).foldl post r)
      (fun _ _ => False) := by
  induction bindings generalizing r with
  | nil => rfl
  | cons b rest ih =>
    rw [List.forM_eq_forM, List.forM_cons, Ends.bind_iff, ← List.forM_eq_forM]
    cases hb : b.data? with
    | none =>
      simp only [List.filterMap_cons, hb, Option.map_none] at h ⊢
      rw [Ends.pure_iff]
      exact ih h
    | some buffer =>
      simp only [List.filterMap_cons, hb, Option.map_some] at h ⊢
      rw [Ends.discard_iff]
      have hfits := h _ List.mem_cons_self
      apply (ends_copyTo b.link buffer bytes r).imp
      · rintro _ after ⟨-, -, rfl⟩
        exact ih fun p hp => (sameShape_post hfits).fits (h p (List.mem_cons_of_mem _ hp))
      · exact fun _ _ hbad => hbad.1 hfits

/-- The bytes of a resource are posted, if they fit. -/
theorem ends_commitResource {res : Resource} (h : ∀ p ∈ res.posts, r.Fits p) :
    Ends (commitResource res) r (fun _ after => after = res.posts.foldl post r)
      (fun _ _ => False) := by
  unfold commitResource
  unfold Resource.posts at *
  cases hs : res.storage with
  | payload p => rfl
  | fields schema bytes =>
    rw [hs] at h
    exact ends_commitBindings h

/-- The bytes of all resources are posted, if they fit. -/
theorem ends_forM_commitResource {live : List Resource}
    (h : ∀ p ∈ live.flatMap Resource.posts, r.Fits p) :
    Ends (live.forM commitResource) r
      (fun _ after => after = (live.flatMap Resource.posts).foldl post r) (fun _ _ => False) := by
  induction live generalizing r with
  | nil => rfl
  | cons res rest ih =>
    rw [List.forM_eq_forM, List.forM_cons, Ends.bind_iff, ← List.forM_eq_forM]
    rw [List.flatMap_cons] at h ⊢
    have hfirst : ∀ p ∈ res.posts, r.Fits p := fun p hp => h p (List.mem_append_left _ hp)
    apply (ends_commitResource hfirst).imp
    · rintro _ after rfl
      rw [List.foldl_append]
      exact ih fun p hp => (sameShape_foldl_post hfirst).fits (h p (List.mem_append_right _ hp))
    · exact fun _ _ h => h

/-- Retired buffers are written again, if their final bytes fit. -/
theorem ends_mapM_refreshRetired {retired : List RetiredBuffer}
    (h : ∀ p ∈ retired.map RetiredBuffer.post, r.Fits p) :
    Ends (retired.mapM refreshRetired) r
      (fun written after => written = retired.map r.refreshed ∧
        after = (retired.map RetiredBuffer.post).foldl post r)
      (fun _ _ => False) := by
  induction retired generalizing r with
  | nil => exact ⟨rfl, rfl⟩
  | cons b rest ih =>
    rw [List.mapM_cons, Ends.bind_iff]
    rw [List.map_cons] at h ⊢
    have hfits := h _ List.mem_cons_self
    apply (ends_refreshRetired b r).imp
    · rintro _ after ⟨-, rfl, rfl⟩
      have hshape := sameShape_post hfits
      rw [Ends.bind_iff]
      apply (ih fun p hp => hshape.fits (h p (List.mem_cons_of_mem _ hp))).imp
      · rintro _ after ⟨rfl, rfl⟩
        rw [Ends.pure_iff]
        refine ⟨?_, rfl⟩
        rw [funext hshape.refreshed]
        rfl
      · exact fun _ _ h => h
    · exact fun _ _ hbad => hbad.1 hfits

/-- What a commit leaves, if everything fits: all snapshots are posted and published. -/
def committed (r : Registry) : Registry :=
  { r with
    links := (r.commitPosts.foldl Post.on r.links).map publishLink
    retired := ((r.retired.toList.map r.refreshed).filter fun b => !b.written.isFull).toArray }

/-- A commit goes well if everything fits. -/
theorem ends_commit (h : ∀ p ∈ r.commitPosts, r.Fits p) :
    Ends commit r (fun _ after => after = r.committed) (fun _ _ => False) := by
  unfold commit
  simp only [Ends.bind_iff, Ends.get_iff]
  have hlive : ∀ p ∈ r.live.flatMap Resource.posts, r.Fits p :=
    fun p hp => h p (List.mem_append_left _ hp)
  apply (ends_forM_commitResource hlive).imp
  · rintro _ copied rfl
    unfold commitRetired
    simp only [Ends.bind_iff, Ends.get_iff]
    have hshape := sameShape_foldl_post hlive
    have hretired : ((r.live.flatMap Resource.posts).foldl post r).retired = r.retired := by
      rw [foldl_post_eq]
    rw [hretired]
    apply (ends_mapM_refreshRetired fun p hp =>
      hshape.fits (h p (List.mem_append_right _ hp))).imp
    · rintro _ written ⟨rfl, rfl⟩
      rw [Ends.modify_iff, Ends.modify_iff, ← List.foldl_append]
      rw [funext hshape.refreshed, foldl_post_eq]
      rfl
    · exact fun _ _ h => h
  · exact fun _ _ h => h

/-- The snapshots that a flush writes. -/
def flushPosts (r : Registry) : List Post := r.disposed.toList.map RetiredBuffer.post

/-- What the retiring leaves, if everything fits: what was set aside is posted and retired. -/
def retiring (r : Registry) : Registry :=
  { r with
    links := r.flushPosts.foldl Post.on r.links
    disposed := #[]
    retired := r.retired ++ (r.disposed.toList.map r.refreshed).toArray }

/-- The retiring goes well if everything fits. -/
theorem ends_retireDisposed (h : ∀ p ∈ r.flushPosts, r.Fits p) :
    Ends retireDisposed r (fun _ after => after = r.retiring) (fun _ _ => False) := by
  unfold retireDisposed
  rw [Ends.bind_iff, Ends.get_iff, Ends.bind_iff, Ends.modify_iff]
  have hloop : ∀ (waiting : List RetiredBuffer) (r : Registry),
      (∀ p ∈ waiting.map RetiredBuffer.post, r.Fits p) →
      Ends (waiting.forM fun b => do
          let b ← refreshRetired b
          modify fun r => { r with retired := r.retired.push b }) r
        (fun _ after => after =
          { r with
            links := (waiting.map RetiredBuffer.post).foldl Post.on r.links
            retired := r.retired ++ (waiting.map r.refreshed).toArray })
        (fun _ _ => False) := by
    intro waiting
    induction waiting with
    | nil =>
      intro r _
      show r = _
      simp
    | cons b rest ih =>
      intro r hfits
      rw [List.forM_eq_forM, List.forM_cons, Ends.bind_iff, ← List.forM_eq_forM, Ends.bind_iff]
      rw [List.map_cons] at hfits
      have hfirst := hfits _ List.mem_cons_self
      have hshape := sameShape_post hfirst
      apply (ends_refreshRetired b r).imp
      · rintro _ after ⟨-, rfl, rfl⟩
        rw [Ends.modify_iff]
        apply (ih _ fun p hp => ?_).imp
        · rintro _ after rfl
          show { r with
            links := (rest.map RetiredBuffer.post).foldl Post.on (r.post b.post).links
            retired := r.retired.push (r.refreshed b) ++
              (rest.map (r.post b.post).refreshed).toArray } = _
          have hretired : r.retired.push (r.refreshed b) ++ (rest.map r.refreshed).toArray =
              r.retired ++ ((b :: rest).map r.refreshed).toArray := by simp
          rw [funext hshape.refreshed, hretired]
          rfl
        · exact fun _ _ h => h
        · exact hshape.fits (hfits p (List.mem_cons_of_mem _ hp))
      · exact fun _ _ hbad => hbad.1 hfirst
  exact hloop r.disposed.toList { r with disposed := #[] } h

end Registry

end Framecast
