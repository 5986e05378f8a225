import Framecast.Proofs.Frames.Pickup

/-!
# What a buffer is to show

While an instance lives, its buffer is to be written with its working bytes on every
commit. From its removal on it is to be written with the final bytes, until every
slot holds them. No operation forgets a buffer on the way: what was to be written
stays so until a commit lets go of it, and then all three slots are the same.
-/

namespace Framecast

namespace SlotSet

variable {s : SlotSet} {i j : Nat}

@[simp] theorem contains_empty (i : Nat) : ({} : SlotSet).contains i = false := by
  unfold contains
  split <;> rfl

/-- What is in a set with one more slot was there or is that slot. -/
theorem of_contains_insert (h : (s.insert i).contains j = true) : j = i ∨ s.contains j = true := by
  match i, j with
  | 0, 0 | 1, 1 | 2, 2 => exact .inl rfl
  | 0, 1 | 0, 2 | 1, 0 | 1, 2 | 2, 0 | 2, 1 => exact .inr h
  | 0, _ + 3 | 1, _ + 3 | 2, _ + 3 => cases h
  | _ + 3, _ => exact .inr h

/-- A full set has all three slots. -/
theorem contains_of_isFull (h : s.isFull = true) (hj : j < 3) : s.contains j = true := by
  simp only [isFull, Bool.and_eq_true] at h
  obtain ⟨⟨hfirst, hsecond⟩, hthird⟩ := h
  match j, hj with
  | 0, _ => exact hfirst
  | 1, _ => exact hsecond
  | 2, _ => exact hthird

end SlotSet

/-- What is posted of a resource goes on being posted to the same buffers, whatever becomes of its
bytes, and however many buffers it is given besides. -/
theorem Resource.Evolves.posts {res res' : Resource} (h : res.Evolves res') {p : Post}
    (hp : p ∈ res.posts) : ∃ q ∈ res'.posts, q.cell = p.cell := by
  have hstorage := h.storage
  unfold Resource.posts at *
  cases hs : res.storage with
  | payload _ =>
    rw [hs] at hp
    cases hp
  | fields schema bytes =>
    rw [hs] at hp hstorage
    obtain ⟨bytes', hs', -⟩ := hstorage
    obtain ⟨binding, hbinding, hpost⟩ := List.mem_filterMap.mp hp
    obtain ⟨buffer, hdata, rfl⟩ := Option.map_eq_some_iff.mp hpost
    rw [hs']
    refine ⟨⟨binding.link, buffer, bytes'⟩, List.mem_filterMap.mpr ⟨binding, ?_, ?_⟩, rfl⟩
    · exact h.bindings.subset hbinding
    · rw [hdata]
      rfl

/-- What is posted of a resource is set aside with its final bytes when it is removed. -/
theorem Resource.finals_of_posts {res : Resource} {p : Post} (hp : p ∈ res.posts) :
    ∃ f ∈ res.bindings.flatMap (·.finals res.storage), f.post = p := by
  unfold Resource.posts at hp
  cases hs : res.storage with
  | payload _ =>
    rw [hs] at hp
    cases hp
  | fields schema bytes =>
    rw [hs] at hp
    obtain ⟨binding, hbinding, hpost⟩ := List.mem_filterMap.mp hp
    obtain ⟨buffer, hdata, rfl⟩ := Option.map_eq_some_iff.mp hpost
    refine ⟨⟨binding.link, buffer, bytes, {}⟩, List.mem_flatMap.mpr ⟨binding, hbinding, ?_⟩, rfl⟩
    unfold Binding.finals
    rw [hdata]
    exact List.mem_cons_of_mem _ List.mem_cons_self

namespace Registry

variable {r r' r'' : Registry} {k i : Nat} {p : Post} {x : Bytes}

/-- What is to be written: the bytes of live instances, and the final bytes of what was retired or
set aside. -/
theorem mem_postings : p ∈ r.postings ↔
    (∃ id res, r.resource? id = some res ∧ p ∈ res.posts) ∨
      (∃ f ∈ r.retired.toList, f.post = p) ∨ ∃ f ∈ r.disposed.toList, f.post = p := by
  unfold postings commitPosts flushPosts
  simp only [List.mem_append, List.mem_flatMap, List.mem_map, mem_live, or_assoc]
  refine or_congr ⟨?_, ?_⟩ Iff.rfl
  · rintro ⟨res, ⟨id, hres⟩, hp⟩
    exact ⟨id, res, hres, hp⟩
  · rintro ⟨id, res, hres, hp⟩
    exact ⟨res, ⟨id, hres⟩, hp⟩

/-- The snapshot that buffer `i` of link `k` is to be written with: the working bytes of the instance
that owns the buffer, or the final bytes of the one that did. -/
def due? (r : Registry) (k i : Nat) : Option Bytes :=
  (r.postings.find? fun p => p.cell == (k, i)).map Post.bytes

/-- A buffer is to be written with one snapshot. -/
theorem IsWired.due?_eq_some (h : r.IsWired) :
    r.due? k i = some x ↔ (⟨k, i, x⟩ : Post) ∈ r.postings := by
  unfold due?
  constructor
  · intro hdue
    obtain ⟨p, hfind, rfl⟩ := Option.map_eq_some_iff.mp hdue
    have hcell : p.cell = (k, i) := by simpa using List.find?_some hfind
    obtain ⟨rfl, rfl⟩ := Prod.mk.inj hcell
    exact List.mem_of_find?_eq_some hfind
  · intro hmem
    have hsome : (r.postings.find? fun p => p.cell == (k, i)).isSome :=
      List.find?_isSome.mpr ⟨_, hmem, by simp [Post.cell]⟩
    obtain ⟨p, hfind⟩ := Option.isSome_iff_exists.mp hsome
    have hcell : p.cell = (k, i) := by simpa using List.find?_some hfind
    rw [hfind, h.eq_of_cell (List.mem_of_find?_eq_some hfind) hmem hcell]
    rfl

theorem due?_eq_none : r.due? k i = none ↔ ∀ p ∈ r.postings, p.cell ≠ (k, i) := by
  unfold due?
  simp

/-- Whether a buffer is set aside: its instance is gone, and no flush has retired it yet. -/
def SetsAside (r : Registry) (k i : Nat) : Prop :=
  ∃ f ∈ r.disposed.toList, f.link = k ∧ f.buffer = i

instance (r : Registry) (k i : Nat) : Decidable (r.SetsAside k i) :=
  inferInstanceAs (Decidable (∃ f ∈ r.disposed.toList, f.link = k ∧ f.buffer = i))

/-- A change after which every buffer that was to be written still is, and buffers may have been set
aside that were not written since. -/
structure HandsOn (r r' : Registry) : Prop where
  /-- What was to be written still is, perhaps with other bytes. -/
  due : ∀ p ∈ r.postings, ∃ q ∈ r'.postings, q.cell = p.cell
  /-- The same buffers are retired. -/
  retired : r'.retired = r.retired
  /-- More buffers may be set aside, and no slot of these has been written. -/
  disposed : ∃ gone, r'.disposed.toList = r.disposed.toList ++ gone ∧ ∀ f ∈ gone, f.written = {}
  /-- Links only get more buffers. -/
  frames : ∀ k, (r.framesAt k).Extends (r'.framesAt k)

namespace HandsOn

protected theorem refl (r : Registry) : r.HandsOn r :=
  ⟨fun p hp => ⟨p, hp, rfl⟩, rfl, ⟨[], by simp, by simp⟩, fun _ => .refl _⟩

/-- Two changes are one. -/
protected theorem trans (h : r.HandsOn r') (h' : r'.HandsOn r'') : r.HandsOn r'' := by
  refine ⟨fun p hp => ?_, h'.retired.trans h.retired, ?_, fun k => (h.frames k).trans (h'.frames k)⟩
  · obtain ⟨q, hq, hcell⟩ := h.due p hp
    obtain ⟨q', hq', hcell'⟩ := h'.due q hq
    exact ⟨q', hq', hcell'.trans hcell⟩
  · obtain ⟨gone, heq, hgone⟩ := h.disposed
    obtain ⟨gone', heq', hgone'⟩ := h'.disposed
    refine ⟨gone ++ gone', by rw [heq', heq, List.append_assoc], fun f hf => ?_⟩
    rcases List.mem_append.mp hf with hf | hf
    · exact hgone f hf
    · exact hgone' f hf

/-- What is not to be written after a change was not to be written before it. -/
theorem due?_eq_none (h : r.HandsOn r') (hnone : r'.due? k i = none) : r.due? k i = none := by
  rw [Registry.due?_eq_none] at *
  intro p hp hcell
  obtain ⟨q, hq, heq⟩ := h.due p hp
  exact hnone q hq (heq.trans hcell)

/-- Buffers are handed on if every resource goes on or has its buffers set aside. -/
theorem of_fates
    (hres : ∀ id res, r.resource? id = some res →
      (∃ res', r'.resource? id = some res' ∧ res.Evolves res') ∨
        res.bindings.flatMap (·.finals res.storage) ⊆ r'.disposed.toList)
    (hretired : r'.retired = r.retired)
    (hdisposed : ∃ gone, r'.disposed.toList = r.disposed.toList ++ gone ∧ ∀ f ∈ gone, f.written = {})
    (hframes : ∀ k, (r.framesAt k).Extends (r'.framesAt k)) : r.HandsOn r' := by
  refine ⟨fun p hp => ?_, hretired, hdisposed, hframes⟩
  rcases mem_postings.mp hp with ⟨id, res, hfound, hp⟩ | ⟨f, hf, rfl⟩ | ⟨f, hf, rfl⟩
  · rcases hres id res hfound with ⟨res', hfound', hevolves⟩ | hgone
    · obtain ⟨q, hq, hcell⟩ := hevolves.posts hp
      exact ⟨q, mem_postings.mpr (.inl ⟨id, res', hfound', hq⟩), hcell⟩
    · obtain ⟨f, hf, rfl⟩ := Resource.finals_of_posts hp
      exact ⟨f.post, mem_postings.mpr (.inr (.inr ⟨f, hgone hf, rfl⟩)), rfl⟩
  · exact ⟨f.post, mem_postings.mpr (.inr (.inl ⟨f, hretired ▸ hf, rfl⟩)), rfl⟩
  · obtain ⟨gone, heq, -⟩ := hdisposed
    exact ⟨f.post, mem_postings.mpr
      (.inr (.inr ⟨f, heq ▸ List.mem_append_left _ hf, rfl⟩)), rfl⟩

end HandsOn

end Registry

namespace Edit

variable {strict : Prop} {writer : ResourceId} {b b' : Book}

/-- A live resource goes on, or it is removed and its buffers are set aside. -/
theorem fate (h : Edit strict writer b b') (hw : b.registry.WellFormed)
    (hl : b'.registry.supply.Lasts) {x : ResourceId} {res : Resource}
    (hx : b.registry.resource? x = some res) :
    (∃ res', b'.registry.resource? x = some res' ∧ res.Evolves res') ∨
      res.bindings.flatMap (·.finals res.storage) ⊆ b'.registry.disposed.toList := by
  have hcounted {r : Registry} {id : ResourceId} {res' : Resource} (f : Resource → Resource)
      (hf : ∀ res : Resource, res.Evolves (f res)) (hx : r.resource? x = some res') :
      ∃ after, (r.modifyResource id f).resource? x = some after ∧ res'.Evolves after := by
    rw [Registry.resource?_modifyResource]
    split
    · rename_i hid
      exact ⟨f res', by rw [← hid, hx]; rfl, hf res'⟩
    · exact ⟨res', hx, .refl _⟩
  cases h with
  | quiet h =>
    have hbody := h.resources x
    rw [hx, Option.map_some] at hbody
    obtain ⟨res', hres', heq⟩ := Option.map_eq_some_iff.mp hbody
    exact .inl ⟨res', hres', .of_body heq⟩
  | @enter r _ _ type storage options =>
    refine .inl ⟨res, ?_, .refl _⟩
    have hother : x ≠ r.supply.nextId := Registry.ne_nextId (hw.numbered hx).2 hl.of_draw
    show (r.insert type storage options).2.resource? x = _
    rw [Registry.resource?_insert, if_neg hother]
    exact hx
  | retain => exact .inl (hcounted _ (fun res => .counted res _) hx)
  | release => exact .inl (hcounted _ (fun res => .counted res _) hx)
  | drop => exact .inl ⟨res, hx, .refl _⟩
  | @store r _ _ _ res₀ schema bytes part prop h hstorage hprop hpart _ _ =>
    left
    show ∃ res', (r.storeBytes writer prop part).resource? x = _ ∧ _
    rw [Registry.resource?_storeBytes h hstorage prop part]
    split
    · rename_i hid
      obtain rfl : res₀ = res := Option.some.inj (h.symm.trans (hid ▸ hx))
      exact ⟨_, rfl, .stored (hw.sound h) hstorage hprop hpart⟩
    · exact ⟨res, hx, .refl _⟩
  | @ship r _ _ id res₀ j link load h hlink _ _ _ =>
    left
    show ∃ res', (r.resources.insert id _)[x]? = _ ∧ _
    rw [Registry.getElem?_insert]
    split
    · rename_i hid
      obtain rfl : res₀ = res := Option.some.inj (h.symm.trans (hid ▸ hx))
      exact ⟨_, rfl, .bound res₀ _ _⟩
    · exact ⟨res, hx, .refl _⟩
  | @remove r _ _ id res₀ h _ =>
    show (∃ res', (r.remove res₀).resource? x = _ ∧ _) ∨ _ ⊆ (r.remove res₀).disposed.toList
    rw [Registry.resource?_remove, hw.keyed h]
    split
    · rename_i hid
      obtain rfl : res₀ = res := Option.some.inj (h.symm.trans (hid ▸ hx))
      obtain ⟨_, heq⟩ := Registry.remove_eq res₀ r
      rw [heq]
      exact .inr (by simp)
    · exact .inl ⟨res, hx, .refl _⟩

/-- Elementary changes hand every buffer on. -/
theorem handsOn (h : Edit strict writer b b') (hw : b.registry.WellFormed)
    (hl : b'.registry.supply.Lasts) : b.registry.HandsOn b'.registry := by
  have hkeeps := h.keepsBuffers hw.isKeyed
  exact .of_fates (fun id res hres => h.fate hw hl hres) hkeeps.retired hkeeps.disposed
    hkeeps.frames

end Edit

namespace Broadcast

variable {b : Broadcast} {action : Action}

/-- An action that goes over the wires, but no commit and no flush, changes nothing of a registry
but its links and its tick. -/
theorem registry_step (h : action.isInternal = false) (hcommit : action ≠ .commit)
    (hflush : action ≠ .flush) :
    ∃ links tick, (b.step action).2.registry = { b.registry with links, tick } := by
  have honConnection {α : Type} (k : Nat) (m : ConnectionM α) :
      ∃ links tick, (b.onConnection k m).2.registry = { b.registry with links, tick } := by
    unfold onConnection
    split
    · exact ⟨_, _, rfl⟩
    · split <;> exact ⟨_, _, rfl⟩
  cases action with
  | setTick tick => exact ⟨_, _, rfl⟩
  | connect thread =>
    rcases b.step_connect thread with ⟨wire, -, hstep⟩ | ⟨e, hstep⟩
    · rw [hstep]
      exact ⟨_, _, rfl⟩
    · rw [hstep]
      exact ⟨_, _, rfl⟩
  | registerLoader j type loader => exact honConnection j _
  | update j tick => exact honConnection j _
  | hangUp j => exact ⟨_, _, rfl⟩
  | commit => exact absurd rfl hcommit
  | flush => exact absurd rfl hflush
  | registerType | createOpaque | createInstance | createString | createBuffer | retain |
    dispose | setProp | setPropFromScript | await | processAcks | elsewhere => cases h

/-- An action that concerns the producer alone hands every buffer on. -/
theorem handsOn_step (h : action.isInternal = true) (hc : action.IsCompiled)
    (hw : b.registry.WellFormed) (hl : (b.step action).2.registry.supply.Lasts) :
    b.registry.HandsOn (b.step action).2.registry :=
  ((changes_step h hc hw hl).keep (P := fun r => b.registry.HandsOn r) hw hl
    (fun _ _ _ _ hw₁ _ hl₂ hedit h₁ => h₁.trans (hedit.handsOn hw₁ hl₂)) (.refl _)).2

end Broadcast

end Framecast
