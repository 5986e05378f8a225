import Framecast.Proofs.Registry.Removal
import Framecast.Registry.Cascade

/-!
# What dropping references does

A reference that is dropped lowers a count by one, and enters the worklist what it was
the last one on. Dropping changes nothing else, and as many resources stay live; only
a removal leaves one less.
-/

namespace Framecast

/-- The resource with some references less on it; the count stops at zero. -/
def Resource.lowered (n : Nat) (res : Resource) : Resource :=
  { res with refCount := res.refCount - n }

theorem Resource.lowered_lowered (m n : Nat) (res : Resource) :
    (res.lowered m).lowered n = res.lowered (m + n) := by
  unfold lowered
  rw [Nat.sub_sub]

@[simp] theorem Resource.lowered_zero (res : Resource) : res.lowered 0 = res := rfl

namespace Registry

variable {r : Registry} {id : ResourceId} {res : Resource}

theorem dropHeld_of_none {state : Registry × List ResourceId} {held : HeldRef}
    (h : state.1.resource? held.id = none) : dropHeld state held = state := by
  unfold dropHeld
  rw [h]

/-- A dropped reference lowers one count by one. -/
theorem resource?_dropHeld (state : Registry × List ResourceId) (one : HeldRef)
    (x : ResourceId) : (dropHeld state one).1.resource? x =
      if x = one.id then (state.1.resource? x).map (Resource.lowered 1)
      else state.1.resource? x := by
  unfold dropHeld
  cases h : state.1.resource? one.id with
  | none =>
    dsimp only
    split
    · rename_i hx
      rw [hx, h]
      rfl
    · rfl
  | some target =>
    dsimp only
    have hlookup := resource?_modifyResource state.1 one.id Resource.released x
    split
    all_goals
      refine hlookup.trans ?_
      split
      · rename_i hx
        rw [hx]
        rfl
      · rfl

/-- A dropped reference enters what it was the last one on. -/
theorem mem_dropHeld (state : Registry × List ResourceId) (one : HeldRef) (x : ResourceId) :
    x ∈ (dropHeld state one).2 ↔
      x ∈ state.2 ∨ x = one.id ∧ ∃ res, state.1.resource? x = some res ∧ res.refCount ≤ 1 := by
  unfold dropHeld
  cases h : state.1.resource? one.id with
  | none =>
    dsimp only
    constructor
    · exact .inl
    · rintro (hx | ⟨rfl, res, hres, -⟩)
      · exact hx
      · rw [h] at hres
        cases hres
  | some target =>
    have hcount : target.released.refCount = target.refCount - 1 := rfl
    dsimp only
    split
    · constructor
      · intro hx
        rcases List.mem_cons.mp hx with rfl | hx
        · exact .inr ⟨rfl, target, h, by omega⟩
        · exact .inl hx
      · rintro (hx | ⟨rfl, -⟩)
        · exact List.mem_cons_of_mem _ hx
        · exact List.mem_cons_self
    · constructor
      · exact .inl
      · rintro (hx | ⟨rfl, res, hres, hle⟩)
        · exact hx
        · rw [h] at hres
          cases hres
          omega

/-- Dropping a reference changes the resources only. -/
theorem dropHeld_eq (state : Registry × List ResourceId) (one : HeldRef) :
    ∃ resources, (dropHeld state one).1 = { state.1 with resources } := by
  unfold dropHeld
  split
  · obtain ⟨resources, h⟩ := modifyResource_eq state.1 one.id Resource.released
    dsimp only
    split <;> exact ⟨resources, h⟩
  · exact ⟨state.1.resources, rfl⟩

/-- Dropping references changes the resources only. -/
theorem foldl_dropHeld_eq (held : List HeldRef) (state : Registry × List ResourceId) :
    ∃ resources, (held.foldl dropHeld state).1 = { state.1 with resources } := by
  induction held generalizing state with
  | nil => exact ⟨state.1.resources, rfl⟩
  | cons one held ih =>
    obtain ⟨resources, hone⟩ := dropHeld_eq state one
    obtain ⟨resources', hrest⟩ := ih (dropHeld state one)
    rw [hone] at hrest
    exact ⟨resources', hrest⟩

/-- Dropped references lower each count by as many as were on it. -/
theorem resource?_foldl_dropHeld (held : List HeldRef) (state : Registry × List ResourceId)
    (x : ResourceId) : (held.foldl dropHeld state).1.resource? x =
      (state.1.resource? x).map (Resource.lowered ((held.map HeldRef.id).count x)) := by
  induction held generalizing state with
  | nil =>
    cases h : state.1.resource? x <;> simp [h]
  | cons one held ih =>
    rw [List.foldl_cons, ih, resource?_dropHeld, List.map_cons, List.count_cons]
    by_cases hx : x = one.id
    · rw [if_pos hx, if_pos (by simp [hx]), Option.map_map]
      congr 1
      funext res
      rw [Function.comp_apply, Resource.lowered_lowered, Nat.add_comm]
    · rw [if_neg hx, if_neg (by simpa using Ne.symm hx), Nat.add_zero]

/-- Dropped references enter what they were the last ones on. -/
theorem mem_foldl_dropHeld (held : List HeldRef) (state : Registry × List ResourceId)
    (x : ResourceId) : x ∈ (held.foldl dropHeld state).2 ↔
      x ∈ state.2 ∨ 0 < (held.map HeldRef.id).count x ∧
        ∃ res, state.1.resource? x = some res ∧ res.refCount ≤ (held.map HeldRef.id).count x := by
  induction held generalizing state with
  | nil => simp
  | cons one held ih =>
    rw [List.foldl_cons, ih, mem_dropHeld, resource?_dropHeld, List.map_cons, List.count_cons]
    by_cases hx : x = one.id
    · have hself : (one.id == x) = true := by simp [hx]
      rw [if_pos hx, if_pos hself]
      cases h : state.1.resource? x with
      | none => simp
      | some res =>
        have hcount : (res.lowered 1).refCount = res.refCount - 1 := rfl
        simp only [hx, true_and, Option.map_some, Option.some.injEq, exists_eq_left', hcount]
        rw [or_assoc]
        exact or_congr_right (by omega)
    · have hother : ¬(one.id == x) = true := by simpa using Ne.symm hx
      rw [if_neg hx, if_neg hother, Nat.add_zero]
      simp [hx]

/-- Where there is a resource, there are not none. -/
theorem size_pos {res : Resource} {id : ResourceId} (h : r.resource? id = some res) :
    0 < r.size := by
  unfold resource? at h
  unfold size
  rw [Nat.pos_iff_ne_zero]
  intro hzero
  have hempty : r.resources.isEmpty = true := by
    rw [Std.TreeMap.isEmpty_eq_size_eq_zero, hzero]
    rfl
  rw [Std.TreeMap.getElem?_of_isEmpty hempty] at h
  cases h

/-- Where there are some, there is a resource. -/
theorem exists_of_size_ne_zero (h : r.size ≠ 0) : ∃ id res, r.resource? id = some res := by
  by_contra hnone
  apply h
  have hempty : r.resources.isEmpty = true := by
    rw [Std.TreeMap.isEmpty_iff_forall_not_mem]
    intro id hmem
    exact hnone ⟨id, r.resources[id], Std.TreeMap.getElem?_eq_some_getElem hmem⟩
  unfold size
  rwa [Std.TreeMap.isEmpty_eq_size_eq_zero, beq_iff_eq] at hempty

/-- A removal leaves one resource less. -/
theorem size_remove (hkeyed : r.IsKeyed) (h : r.resource? id = some res) :
    r.size = (r.remove res).size + 1 := by
  obtain ⟨_, heq⟩ := remove_eq res r
  have hmem : r.resources.contains res.id = true := by
    rw [Std.TreeMap.contains_eq_isSome_getElem?, hkeyed id res h]
    exact Option.isSome_iff_exists.mpr ⟨res, h⟩
  have hpos := size_pos h
  rw [heq]
  show r.resources.size = (r.resources.erase res.id).size + 1
  rw [Std.TreeMap.size_erase, if_pos hmem]
  unfold size at hpos
  omega

/-- Changing a resource leaves as many resources. -/
theorem size_modifyResource (r : Registry) (id : ResourceId) (f : Resource → Resource) :
    (r.modifyResource id f).size = r.size := by
  cases h : r.resource? id with
  | none => rw [modifyResource_of_none h]
  | some target =>
    have hmem : r.resources.contains id = true := by
      rw [Std.TreeMap.contains_eq_isSome_getElem?]
      exact Option.isSome_iff_exists.mpr ⟨target, h⟩
    rw [modifyResource_of_some h]
    show (r.resources.insert id _).size = _
    rw [Std.TreeMap.size_insert, if_pos hmem]
    rfl

/-- Dropping a held reference leaves as many resources. -/
theorem size_dropHeld (state : Registry × List ResourceId) (held : HeldRef) :
    (dropHeld state held).1.size = state.1.size := by
  unfold dropHeld
  split
  · dsimp only
    split
    · exact size_modifyResource _ _ _
    · exact size_modifyResource _ _ _
  · rfl

/-- Dropping references leaves as many resources. -/
theorem size_foldl_dropHeld (held : List HeldRef) (state : Registry × List ResourceId) :
    (held.foldl dropHeld state).1.size = state.1.size := by
  induction held generalizing state with
  | nil => rfl
  | cons one rest ih => rw [List.foldl_cons, ih, size_dropHeld]

end Registry

end Framecast
