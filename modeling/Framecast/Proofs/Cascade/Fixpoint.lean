import Mathlib.Algebra.Order.BigOperators.Group.Finset
import Mathlib.Order.Bounds.Defs
import Framecast.Proofs.Cascade.Rounds

/-!
# A cascade removes a least fixpoint

A set of numbers is closed if it contains the resource that is disposed of and every
live resource whose references all come from slots of the set. What a cascade has
removed so far is a part of every closed set, and so is its worklist; whatever is
missing from a closed set is on the worklist. Once that is empty, what was removed is
the least closed set, in whatever order it was removed.
-/

namespace Framecast

/-- The numbers of some resources. -/
def numbers (gone : List Resource) : Finset ResourceId := (gone.map Resource.id).toFinset

theorem numbers_append (gone : List Resource) (res : Resource) :
    numbers (gone ++ [res]) = insert res.id (numbers gone) := by
  ext x
  simp [numbers]

namespace Registry

/-- The number of slots of some live resources that hold another. -/
def slots (r : Registry) (holders : Finset ResourceId) (x : ResourceId) : Nat :=
  ∑ holder ∈ holders, ((r.resource? holder).map fun res => (retainersIn x res).length).getD 0

/-- A set with a number and with every live resource that is held through slots of the set, by as
many of them at least as there are references on it. -/
structure IsClosed (r : Registry) (id : ResourceId) (ids : Finset ResourceId) : Prop where
  /-- The number is one of the set. -/
  start : id ∈ ids
  /-- What only the set holds is in it. -/
  held : ∀ x res, r.resource? x = some res → 0 < r.slots ids x → res.refCount ≤ r.slots ids x →
    x ∈ ids

variable {r s after : Registry} {id x : ResourceId} {res root old : Resource}
  {gone : List Resource} {worklist rest : List ResourceId}

theorem slots_mono {ids ids' : Finset ResourceId} (h : ids ⊆ ids') (x : ResourceId) :
    r.slots ids x ≤ r.slots ids' x := Finset.sum_le_sum_of_subset h

/-- The slots of one more resource. -/
theorem slots_insert {ids : Finset ResourceId} {holder : ResourceId} (hnew : holder ∉ ids)
    (h : r.resource? holder = some res) (x : ResourceId) :
    r.slots (Insert.insert holder ids) x = (retainersIn x res).length + r.slots ids x := by
  unfold slots
  rw [Finset.sum_insert hnew, h]
  rfl

/-- The slots of what is gone, and of one more resource. -/
theorem slots_append (hnew : old.id ∉ numbers gone) (hold : r.resource? old.id = some old)
    (x : ResourceId) : r.slots (numbers (gone ++ [old])) x =
      (retainersIn x old).length + r.slots (numbers gone) x := by
  rw [numbers_append]
  exact slots_insert hnew hold x

/-- How far the disposal of a resource has come: some resources are gone, as they were at first,
and a worklist is left. -/
structure Working (r : Registry) (id : ResourceId) (gone : List Resource)
    (worklist : List ResourceId) (s : Registry) : Prop where
  /-- What is gone was live. -/
  found : ∀ res ∈ gone, r.resource? res.id = some res
  /-- Nothing is gone twice. -/
  nodup : (gone.map Resource.id).Nodup
  /-- What is left has lost the references that were given back. -/
  lookup : ∀ x, s.resource? x =
    if x ∈ numbers gone then none
    else (r.resource? x).map
      (Resource.lowered ((if x = id then 1 else 0) + r.slots (numbers gone) x))
  /-- The resource is gone or about to go. -/
  start : id ∈ numbers gone ∨ id ∈ worklist
  /-- What only the others held is about to go. -/
  due : ∀ x res, r.resource? x = some res → x ≠ id → x ∉ numbers gone →
    0 < r.slots (numbers gone) x → res.refCount ≤ r.slots (numbers gone) x → x ∈ worklist
  /-- Only what has to go is gone, or about to go. -/
  forced : ∀ ids, r.IsClosed id ids → numbers gone ⊆ ids ∧ ∀ x ∈ worklist, x ∈ ids

namespace Working

/-- A disposal starts with the resource that it is about. -/
theorem init (r : Registry) (id : ResourceId) :
    r.Working id [] [id] (r.modifyResource id Resource.released) := by
  have hslots (x : ResourceId) : r.slots (numbers []) x = 0 := Finset.sum_empty
  refine ⟨fun res hres => ?_, List.nodup_nil, fun x => ?_, .inr (List.mem_singleton_self id),
    fun x res _ _ _ hpos => ?_, fun ids hclosed => ⟨Finset.empty_subset _, fun x hx => ?_⟩⟩
  · cases hres
  · have hnone : x ∉ numbers [] := List.not_mem_nil
    rw [resource?_modifyResource, if_neg hnone, hslots]
    by_cases hx : x = id
    · rw [if_pos hx, if_pos hx, hx]
      rfl
    · rw [if_neg hx, if_neg hx]
      cases r.resource? x <;> rfl
  · rw [hslots] at hpos
    omega
  · rw [List.mem_singleton.mp hx]
    exact hclosed.start

/-- What is live has been so, with the references that were given back since. -/
theorem origin (h : r.Working id gone worklist s) (hres : s.resource? x = some res) :
    x ∉ numbers gone ∧ ∃ old, r.resource? x = some old ∧
      res = old.lowered ((if x = id then 1 else 0) + r.slots (numbers gone) x) := by
  rw [h.lookup] at hres
  split at hres
  · cases hres
  · obtain ⟨old, hold, rfl⟩ := Option.map_eq_some_iff.mp hres
    exact ⟨‹_›, old, hold, rfl⟩

/-- What is gone already may be passed over. -/
theorem skip (h : r.Working id gone (x :: rest) s) (hroot : r.resource? id = some root)
    (hx : s.resource? x = none) : r.Working id gone rest s := by
  have hgone {old : Resource} (hold : r.resource? x = some old) : x ∈ numbers gone := by
    by_contra hnew
    rw [h.lookup, if_neg hnew, hold] at hx
    cases hx
  refine ⟨h.found, h.nodup, h.lookup, ?_, fun y res hres hy hnew hpos hle => ?_,
    fun ids hclosed => ⟨(h.forced ids hclosed).1, fun y hy =>
      (h.forced ids hclosed).2 y (List.mem_cons_of_mem _ hy)⟩⟩
  · rcases h.start with hid | hid
    · exact .inl hid
    · rcases List.mem_cons.mp hid with rfl | hid
      · exact .inl (hgone hroot)
      · exact .inr hid
  · rcases List.mem_cons.mp (h.due y res hres hy hnew hpos hle) with rfl | hrest
    · exact absurd (hgone hres) hnew
    · exact hrest

/-- A round gives back, of every resource that is left, the references from one more resource. -/
theorem lookup_round (h : r.Working id gone (old.id :: rest) s) (hold : r.resource? old.id = some old)
    (hnew : old.id ∉ numbers gone) (n : Nat) (y : ResourceId) :
    (s.round (old.lowered n) rest).1.resource? y =
      if y ∈ numbers (gone ++ [old]) then none
      else (r.resource? y).map
        (Resource.lowered ((if y = id then 1 else 0) + r.slots (numbers (gone ++ [old])) y)) := by
  have hround : (s.round (old.lowered n) rest).1.resource? y = if y = old.id then none
      else (s.resource? y).map (Resource.lowered (retainersIn y old).length) :=
    resource?_round s (old.lowered n) rest y
  rw [hround, h.lookup, slots_append hnew hold, numbers_append]
  by_cases hy : y = old.id
  · rw [if_pos hy, if_pos (Finset.mem_insert.mpr (.inl hy))]
  · rw [if_neg hy]
    by_cases hgone : y ∈ numbers gone
    · rw [if_pos hgone, if_pos (Finset.mem_insert_of_mem hgone)]
      rfl
    · rw [if_neg hgone, if_neg fun hone => (Finset.mem_insert.mp hone).elim hy hgone, Option.map_map]
      congr 1
      funext one
      rw [Function.comp_apply, Resource.lowered_lowered, Nat.add_assoc, Nat.add_comm (r.slots _ _)]

/-- What is held only by what is gone after a round was about to go, or is entered by the round. -/
theorem due_round (h : r.Working id gone (old.id :: rest) s) (hold : r.resource? old.id = some old)
    (hnew : old.id ∉ numbers gone) (n : Nat) {y : ResourceId} (hres : r.resource? y = some res)
    (hy : y ≠ id) (hleft : y ∉ numbers (gone ++ [old]))
    (hpos : 0 < r.slots (numbers (gone ++ [old])) y)
    (hle : res.refCount ≤ r.slots (numbers (gone ++ [old])) y) :
    y ∈ (s.round (old.lowered n) rest).2 := by
  rw [numbers_append, Finset.mem_insert, not_or] at hleft
  rw [slots_append hnew hold] at hpos hle
  refine (mem_round s (old.lowered n) rest y).mpr ?_
  by_cases hbefore : 0 < r.slots (numbers gone) y ∧ res.refCount ≤ r.slots (numbers gone) y
  · refine .inl (List.mem_of_ne_of_mem hleft.1 ?_)
    exact h.due y res hres hy hleft.2 hbefore.1 hbefore.2
  · have hlookup := h.lookup y
    rw [if_neg hleft.2, hres, if_neg hy, Nat.zero_add] at hlookup
    have hless : res.refCount - r.slots (numbers gone) y ≤ (retainersIn y old).length := by omega
    have hone : 0 < (retainersIn y old).length := by omega
    exact .inr ⟨hleft.1, hone, _, hlookup, hless⟩

/-- What a round enters is in every closed set that has what is gone then. -/
theorem forced_round (h : r.Working id gone (old.id :: rest) s) (hold : r.resource? old.id = some old)
    (hnew : old.id ∉ numbers gone) (n : Nat) {ids : Finset ResourceId} (hclosed : r.IsClosed id ids)
    (hall : numbers (gone ++ [old]) ⊆ ids) {y : ResourceId}
    (hy : y ∈ (s.round (old.lowered n) rest).2) : y ∈ ids := by
  rcases (mem_round s (old.lowered n) rest y).mp hy with hy | ⟨-, hpos, res', hres', hle⟩
  · exact (h.forced ids hclosed).2 y (List.mem_cons_of_mem _ hy)
  · obtain ⟨-, one, hone, rfl⟩ := h.origin hres'
    by_cases hself : y = id
    · rw [hself]
      exact hclosed.start
    · have hpos : 0 < (retainersIn y old).length := hpos
      have hle : one.refCount - ((if y = id then 1 else 0) + r.slots (numbers gone) y) ≤
          (retainersIn y old).length := hle
      have hmono := slots_mono (r := r) hall y
      rw [if_neg hself] at hle
      rw [slots_append hnew hold] at hmono
      exact hclosed.held y one hone (by omega) (by omega)

/-- A round takes one more resource away, and enters what had its last references from it. -/
theorem take (h : r.Working id gone (old.id :: rest) s) (hold : r.resource? old.id = some old)
    (hnew : old.id ∉ numbers gone) (n : Nat) :
    r.Working id (gone ++ [old]) (s.round (old.lowered n) rest).2
      (s.round (old.lowered n) rest).1 := by
  refine ⟨fun one hone => ?_, ?_, h.lookup_round hold hnew n, ?_,
    fun y one hone hy hleft hpos hle => h.due_round hold hnew n hone hy hleft hpos hle,
    fun ids hclosed => ?_⟩
  · rcases List.mem_append.mp hone with hone | hone
    · exact h.found one hone
    · rw [List.mem_singleton.mp hone]
      exact hold
  · rw [List.map_append]
    refine List.nodup_append.mpr ⟨h.nodup, List.nodup_singleton _, ?_⟩
    rintro y hy z hz rfl
    rw [List.mem_singleton.mp hz] at hy
    exact hnew (List.mem_toFinset.mpr hy)
  · rw [numbers_append]
    rcases h.start with hstart | hstart
    · exact .inl (Finset.mem_insert_of_mem hstart)
    · rcases List.mem_cons.mp hstart with rfl | hstart
      · exact .inl (Finset.mem_insert_self _ _)
      · exact .inr ((mem_round s _ rest _).mpr (.inl hstart))
  · obtain ⟨hgone, hwork⟩ := h.forced ids hclosed
    have hall : numbers (gone ++ [old]) ⊆ ids := by
      rw [numbers_append]
      exact Finset.insert_subset (hwork _ List.mem_cons_self) hgone
    exact ⟨hall, fun y hy => h.forced_round hold hnew n hclosed hall hy⟩

end Working

/-- A worklist that is worked off has taken the least closed set away, and whatever every round keeps
holds in the end. -/
theorem Works.working {P : List Resource → Registry → Prop} (h : Works worklist s after)
    (hkeyed : r.IsKeyed) (hroot : r.resource? id = some root)
    (hw : r.Working id gone worklist s) (hP : P gone s)
    (hround : ∀ gone s old n rest, r.resource? old.id = some old → P gone s →
      P (gone ++ [old]) (s.round (old.lowered n) rest).1) :
    ∃ gone', r.Working id gone' [] after ∧ P gone' after := by
  induction h generalizing gone with
  | done => exact ⟨gone, hw, hP⟩
  | skip hx _ ih => exact ih (hw.skip hroot hx) hP
  | @take s after x res rest hx _ ih =>
    obtain ⟨hnew, old, hold, rfl⟩ := hw.origin hx
    obtain rfl : old.id = x := hkeyed x old hold
    exact ih (hw.take hold hnew _) (hround gone s old _ rest hold hP)

/-- What is live after a disposal that goes through to the end was live and holds what it held. -/
theorem origin_of_destroy (hkeyed : r.IsKeyed) (hroot : r.resource? id = some root)
    (hx : ((r.modifyResource id Resource.released).destroy id).resource? x = some res) :
    ∃ old, r.resource? x = some old ∧ res.storage = old.storage := by
  have hworks := works_destroy (hkeyed.modifyResource id Resource.released fun _ => rfl) id
  obtain ⟨gone, hworking, -⟩ := hworks.working (P := fun _ _ => True) hkeyed hroot (.init r id)
    trivial fun _ _ _ _ _ _ _ => trivial
  obtain ⟨-, old, hold, rfl⟩ := hworking.origin hx
  exact ⟨old, hold, rfl⟩

end Registry

end Framecast
