import Framecast.Registry.Frame
import Framecast.Proofs.Ends
import Framecast.Proofs.Frames.Rotation

/-!
# Posting snapshots

A commit posts the bytes of every instance, and a flush and a commit post final
bytes, each into the write slot of one buffer. Posting touches no other slot, and
a snapshot that fits its buffer can be posted at any time, whatever else is posted.
-/

namespace Framecast

/-- A snapshot on its way into a buffer. -/
structure Post where
  /-- The position of the link. -/
  link : Nat
  /-- The number of the buffer on that link. -/
  buffer : Nat
  /-- The snapshot. -/
  bytes : Bytes

/-- The snapshot that is written when a retired buffer is written again. -/
def RetiredBuffer.post (b : RetiredBuffer) : Post := ⟨b.link, b.buffer, b.bytes⟩

/-- The snapshots that a commit writes of one resource. -/
def Resource.posts (res : Resource) : List Post :=
  match res.storage with
  | .payload _ => []
  | .fields _ bytes => res.bindings.filterMap fun b => b.data?.map fun buffer => ⟨b.link, buffer, bytes⟩

/-- A link without its snapshots. -/
def Link.unframed (link : Link) : Link := link.mapFrames fun _ => .initial

/-- The links after a snapshot was posted. -/
def Post.on (links : List Link) (p : Post) : List Link :=
  links.modify p.link (·.mapFrames (·.put p.buffer p.bytes))

namespace Registry

variable {r r' r'' : Registry} {p q : Post} {k : Nat}

/-- The registry after a snapshot was posted. -/
def post (r : Registry) (p : Post) : Registry := { r with links := Post.on r.links p }

/-- Posting leaves everything but the links alone. -/
theorem foldl_post_eq (posts : List Post) (r : Registry) :
    posts.foldl post r = { r with links := posts.foldl Post.on r.links } := by
  induction posts generalizing r with
  | nil => rfl
  | cons p rest ih =>
    rw [List.foldl_cons, ih]
    rfl

/-- Whether a snapshot is as long as the slots of its buffer. -/
def Fits (r : Registry) (p : Post) : Prop :=
  p.bytes.length = (r.framesAt p.link).length p.buffer

/-- How copying a snapshot ends: it is posted if it fits, and otherwise nothing happens. -/
theorem ends_copyTo (link buffer : Nat) (bytes : Bytes) (r : Registry) :
    Ends (copyTo link buffer bytes) r
      (fun slot after => r.Fits ⟨link, buffer, bytes⟩ ∧ slot = (r.framesAt link).flags.writeSlot ∧
        after = r.post ⟨link, buffer, bytes⟩)
      (fun _ after => ¬r.Fits ⟨link, buffer, bytes⟩ ∧ after = r) := by
  unfold copyTo
  rw [Ends.bind_iff, Ends.get_iff]
  unfold Snapshot.FrameLink.slotFor
  by_cases h : r.Fits ⟨link, buffer, bytes⟩
  · have hlength : bytes.length = ((r.framesAt link).buffers[buffer]?.map
        Snapshot.TripleBuffer.length).getD 0 := h
    simp only [if_pos hlength]
    exact ⟨h, rfl, rfl⟩
  · have hlength : ¬bytes.length = ((r.framesAt link).buffers[buffer]?.map
        Snapshot.TripleBuffer.length).getD 0 := h
    simp only [if_neg hlength]
    exact ⟨h, rfl⟩

/-- A registry that differs only in its snapshots and in the buffers that are written again. -/
structure Reframed (r r' : Registry) : Prop where
  /-- Nothing but links and buffers differs. -/
  rest : ∃ links disposed retired, r' = { r with links, disposed, retired }
  /-- The links differ in their snapshots only. -/
  links : r'.links.map Link.unframed = r.links.map Link.unframed

namespace Reframed

protected theorem refl (r : Registry) : r.Reframed r :=
  ⟨⟨r.links, r.disposed, r.retired, rfl⟩, rfl⟩

protected theorem trans (h : r.Reframed r') (h' : r'.Reframed r'') : r.Reframed r'' := by
  obtain ⟨⟨_, _, _, rfl⟩, hlinks⟩ := h
  obtain ⟨⟨links, disposed, retired, rfl⟩, hlinks'⟩ := h'
  exact ⟨⟨links, disposed, retired, rfl⟩, hlinks'.trans hlinks⟩

theorem resources (h : r.Reframed r') : r'.resources = r.resources := by
  obtain ⟨⟨_, _, _, rfl⟩, -⟩ := h
  rfl

theorem supply (h : r.Reframed r') : r'.supply = r.supply := by
  obtain ⟨⟨_, _, _, rfl⟩, -⟩ := h
  rfl

end Reframed

/-- Changing the snapshots of a link changes nothing else. -/
theorem reframed_modifyLink (r : Registry) (k : Nat)
    (f : Snapshot.FrameLink → Snapshot.FrameLink) :
    r.Reframed (r.modifyLink k (·.mapFrames f)) := by
  refine ⟨⟨_, r.disposed, r.retired, rfl⟩, ?_⟩
  apply List.ext_getElem?
  intro j
  show ((r.links.modify k _).map Link.unframed)[j]? = _
  rw [List.getElem?_map, List.getElem?_map, List.getElem?_modify]
  split
  · cases r.links[j]? <;> rfl
  · simp

theorem reframed_post (r : Registry) (p : Post) : r.Reframed (r.post p) :=
  reframed_modifyLink r p.link _

/-- The snapshots of a link after one more was posted. -/
theorem framesAt_post (r : Registry) (p : Post) (k : Nat) (hk : k < r.links.length) :
    (r.post p).framesAt k =
      if p.link = k then (r.framesAt k).put p.buffer p.bytes else r.framesAt k := by
  unfold post Post.on framesAt
  simp only [List.getElem?_modify, List.getElem?_eq_getElem hk, Option.map_eq_map, Option.map_some]
  by_cases h : p.link = k
  · rw [if_pos h, if_pos h]
    rfl
  · rw [if_neg h, if_neg h]

@[simp] theorem length_links_post (r : Registry) (p : Post) :
    (r.post p).links.length = r.links.length := by
  unfold post Post.on
  simp

/-- What slot `s` of buffer `i` on link `k` holds. -/
def slotAt (r : Registry) (k i s : Nat) : Bytes := (r.framesAt k).slot i s

/-- What is the same however many snapshots that fit are posted: the links, who owns which slot,
and the number and the lengths of the buffers. -/
structure SameShape (r r' : Registry) : Prop where
  /-- There are as many links. -/
  links : r'.links.length = r.links.length
  /-- Each role has the slot that it had. -/
  flags : ∀ k, (r'.framesAt k).flags = (r.framesAt k).flags
  /-- There are as many buffers. -/
  size : ∀ k, (r'.framesAt k).buffers.size = (r.framesAt k).buffers.size
  /-- The buffers are as long. -/
  length : ∀ k i, (r'.framesAt k).length i = (r.framesAt k).length i

namespace SameShape

protected theorem refl (r : Registry) : r.SameShape r :=
  ⟨rfl, fun _ => rfl, fun _ => rfl, fun _ _ => rfl⟩

protected theorem trans (h : r.SameShape r') (h' : r'.SameShape r'') : r.SameShape r'' :=
  ⟨h'.links.trans h.links, fun k => (h'.flags k).trans (h.flags k),
    fun k => (h'.size k).trans (h.size k), fun k i => (h'.length k i).trans (h.length k i)⟩

theorem fits (h : r.SameShape r') (hq : r.Fits q) : r'.Fits q := by
  unfold Fits at *
  rw [hq, h.length]

end SameShape

/-- The snapshots at a position are those of the link there. -/
theorem framesAt_congr {k : Nat} (h : (r'.links[k]?).map (·.wire.frames) =
    (r.links[k]?).map (·.wire.frames)) : r'.framesAt k = r.framesAt k := by
  unfold framesAt
  cases hlink : r.links[k]? with
  | none =>
    rw [hlink, Option.map_none, Option.map_eq_none_iff] at h
    rw [h]
  | some link =>
    rw [hlink, Option.map_some] at h
    obtain ⟨link', hlink', heq⟩ := Option.map_eq_some_iff.mp h
    rw [hlink']
    exact heq

theorem framesAt_of_le (hk : r.links.length ≤ k) : r.framesAt k = .initial := by
  unfold framesAt
  rw [List.getElem?_eq_none hk]

/-- Posting what fits keeps the shape. -/
theorem sameShape_post (h : r.Fits p) : r.SameShape (r.post p) := by
  have hframes (k : Nat) (hk : r.links.length ≤ k) : (r.post p).framesAt k = r.framesAt k := by
    rw [framesAt_of_le hk, framesAt_of_le (by simpa using hk)]
  refine ⟨by simp, fun k => ?_, fun k => ?_, fun k i => ?_⟩
  all_goals rcases Nat.lt_or_ge k r.links.length with hk | hk
  all_goals first | rw [hframes k hk] | rw [framesAt_post r p k hk]
  · split <;> rfl
  · split
    · exact Array.size_modify
    · rfl
  · split
    · rename_i hlink
      subst hlink
      exact Snapshot.FrameLink.length_put h i
    · rfl

/-- Snapshots that fit are posted one after another without changing the shape. -/
theorem sameShape_foldl_post {posts : List Post} (h : ∀ p ∈ posts, r.Fits p) :
    r.SameShape (posts.foldl post r) := by
  induction posts generalizing r with
  | nil => exact .refl r
  | cons p rest ih =>
    have hfirst := sameShape_post (h p List.mem_cons_self)
    exact hfirst.trans (ih fun q hq => hfirst.fits (h q (List.mem_cons_of_mem _ hq)))

/-- Posting overwrites one slot of one buffer. -/
theorem slotAt_post (r : Registry) (p : Post) (i s : Nat) (hk : k < r.links.length)
    (hw : (r.framesAt k).flags.writeSlot < 3) (hi : i < (r.framesAt k).buffers.size) :
    (r.post p).slotAt k i s =
      if p.link = k ∧ p.buffer = i ∧ s = (r.framesAt k).flags.writeSlot then p.bytes
      else r.slotAt k i s := by
  unfold slotAt
  rw [framesAt_post r p k hk]
  by_cases hlink : p.link = k
  · rw [if_pos hlink, Snapshot.FrameLink.slot_put _ _ _ _ _ hw]
    by_cases hbuffer : p.buffer = i
    · subst hbuffer
      simp [hlink, hi]
    · simp [hbuffer, Ne.symm hbuffer]
  · simp [hlink]

/-- Slots other than the write slot are not overwritten. -/
theorem slotAt_foldl_post_of_ne {posts : List Post} (h : ∀ p ∈ posts, r.Fits p) {i s : Nat}
    (hk : k < r.links.length) (hw : (r.framesAt k).flags.writeSlot < 3)
    (hi : i < (r.framesAt k).buffers.size) (hs : s ≠ (r.framesAt k).flags.writeSlot) :
    (posts.foldl post r).slotAt k i s = r.slotAt k i s := by
  induction posts generalizing r with
  | nil => rfl
  | cons p rest ih =>
    have hfirst := sameShape_post (h p List.mem_cons_self)
    rw [List.foldl_cons, ih fun q hq => hfirst.fits (h q (List.mem_cons_of_mem _ hq)),
      slotAt_post r p i s hk hw hi, if_neg fun heq => hs heq.2.2]
    · rwa [hfirst.links]
    · rwa [hfirst.flags]
    · rwa [hfirst.size]
    · rwa [hfirst.flags]

/-- A buffer that nothing is posted to keeps what it holds. -/
theorem slotAt_foldl_post_of_not_mem {posts : List Post} (h : ∀ p ∈ posts, r.Fits p) {i s : Nat}
    (hk : k < r.links.length) (hw : (r.framesAt k).flags.writeSlot < 3)
    (hi : i < (r.framesAt k).buffers.size) (hnot : ∀ p ∈ posts, ¬(p.link = k ∧ p.buffer = i)) :
    (posts.foldl post r).slotAt k i s = r.slotAt k i s := by
  induction posts generalizing r with
  | nil => rfl
  | cons p rest ih =>
    have hfirst := sameShape_post (h p List.mem_cons_self)
    rw [List.foldl_cons, ih (fun q hq => hfirst.fits (h q (List.mem_cons_of_mem _ hq)))
        (by rwa [hfirst.links]) (by rwa [hfirst.flags]) (by rwa [hfirst.size])
        (fun q hq => hnot q (List.mem_cons_of_mem _ hq)),
      slotAt_post r p i s hk hw hi, if_neg]
    exact fun heq => hnot p List.mem_cons_self ⟨heq.1, heq.2.1⟩

/-- The write slot of a buffer holds what was posted to it, if only that was. -/
theorem slotAt_foldl_post_of_mem {posts : List Post} (h : ∀ p ∈ posts, r.Fits p) {i : Nat}
    {bytes : Bytes} (hk : k < r.links.length) (hw : (r.framesAt k).flags.writeSlot < 3)
    (hi : i < (r.framesAt k).buffers.size) (hmem : (⟨k, i, bytes⟩ : Post) ∈ posts)
    (honly : ∀ p ∈ posts, p.link = k → p.buffer = i → p.bytes = bytes) :
    (posts.foldl post r).slotAt k i (r.framesAt k).flags.writeSlot = bytes := by
  induction posts generalizing r with
  | nil => cases hmem
  | cons p rest ih =>
    have hfirst := sameShape_post (h p List.mem_cons_self)
    have hrest : ∀ q ∈ rest, (r.post p).Fits q :=
      fun q hq => hfirst.fits (h q (List.mem_cons_of_mem _ hq))
    have hk' : k < (r.post p).links.length := by rwa [hfirst.links]
    have hw' : ((r.post p).framesAt k).flags.writeSlot < 3 := by rwa [hfirst.flags]
    have hi' : i < ((r.post p).framesAt k).buffers.size := by rwa [hfirst.size]
    by_cases hlater : (⟨k, i, bytes⟩ : Post) ∈ rest
    · have hih := ih hrest hk' hw' hi' hlater fun q hq => honly q (List.mem_cons_of_mem _ hq)
      rwa [hfirst.flags] at hih
    · rcases List.mem_cons.mp hmem with rfl | hmem
      · -- whatever follows goes elsewhere, for it would have to be the same snapshot
        rw [List.foldl_cons, slotAt_foldl_post_of_not_mem hrest hk' hw' hi', slotAt_post r _ i _ hk hw hi,
          if_pos ⟨rfl, rfl, rfl⟩]
        rintro ⟨l, b, bs⟩ hq ⟨rfl, rfl⟩
        have hbytes : bs = bytes := honly _ (List.mem_cons_of_mem _ hq) rfl rfl
        exact hlater (hbytes ▸ hq)
      · exact absurd hmem hlater

end Registry

end Framecast
