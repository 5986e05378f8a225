import Mathlib.Algebra.Order.Group.Multiset
import Mathlib.Data.List.Perm.Basic
import Framecast.Proofs.Storage.Holdings
import Framecast.Registry.Retainer

/-!
# The live resources of a registry

Looking a resource up after a change, and the list of all live resources as the
sum of what look-ups find. What resources hold is counted over that list, and the
retainers of a resource are the slots that hold it.
-/

namespace Framecast

namespace Registry

variable {r r' : Registry} {id x : ResourceId} {res : Resource}

/-- A resource that was entered is found, and others are found as before. -/
theorem getElem?_insert (resources : Std.TreeMap ResourceId Resource) (id x : ResourceId)
    (res : Resource) : (resources.insert id res)[x]? = if x = id then some res else resources[x]? := by
  rw [Std.TreeMap.getElem?_insert]
  simp only [Std.LawfulEqOrd.compare_eq_iff_eq, @eq_comm _ id]

/-- A resource that was taken out is not found, and others are found as before. -/
theorem getElem?_erase (resources : Std.TreeMap ResourceId Resource) (id x : ResourceId) :
    (resources.erase id)[x]? = if x = id then none else resources[x]? := by
  rw [Std.TreeMap.getElem?_erase]
  simp only [Std.LawfulEqOrd.compare_eq_iff_eq, @eq_comm _ id]

/-- Changing a live resource enters the changed one in its place. -/
theorem modifyResource_of_some (h : r.resource? id = some res) (f : Resource → Resource) :
    r.modifyResource id f = { r with resources := r.resources.insert id (f res) } := by
  unfold modifyResource
  unfold resource? at h
  rw [h]

/-- Changing a resource that is not there changes nothing. -/
theorem modifyResource_of_none (h : r.resource? id = none) (f : Resource → Resource) :
    r.modifyResource id f = r := by
  unfold modifyResource
  unfold resource? at h
  rw [h]

/-- Changing a resource leaves everything but the resources alone. -/
theorem modifyResource_eq (r : Registry) (id : ResourceId) (f : Resource → Resource) :
    ∃ resources, r.modifyResource id f = { r with resources } := by
  cases h : r.resource? id with
  | none => exact ⟨r.resources, modifyResource_of_none h f⟩
  | some res => exact ⟨_, modifyResource_of_some h f⟩

@[simp] theorem supply_modifyResource (r : Registry) (id : ResourceId) (f : Resource → Resource) :
    (r.modifyResource id f).supply = r.supply := by
  obtain ⟨_, h⟩ := modifyResource_eq r id f
  rw [h]

@[simp] theorem schemas_modifyResource (r : Registry) (id : ResourceId)
    (f : Resource → Resource) : (r.modifyResource id f).schemas = r.schemas := by
  obtain ⟨_, h⟩ := modifyResource_eq r id f
  rw [h]

@[simp] theorem links_modifyResource (r : Registry) (id : ResourceId) (f : Resource → Resource) :
    (r.modifyResource id f).links = r.links := by
  obtain ⟨_, h⟩ := modifyResource_eq r id f
  rw [h]

@[simp] theorem disposed_modifyResource (r : Registry) (id : ResourceId)
    (f : Resource → Resource) : (r.modifyResource id f).disposed = r.disposed := by
  obtain ⟨_, h⟩ := modifyResource_eq r id f
  rw [h]

@[simp] theorem retired_modifyResource (r : Registry) (id : ResourceId)
    (f : Resource → Resource) : (r.modifyResource id f).retired = r.retired := by
  obtain ⟨_, h⟩ := modifyResource_eq r id f
  rw [h]

@[simp] theorem tick_modifyResource (r : Registry) (id : ResourceId) (f : Resource → Resource) :
    (r.modifyResource id f).tick = r.tick := by
  obtain ⟨_, h⟩ := modifyResource_eq r id f
  rw [h]

@[simp] theorem config_modifyResource (r : Registry) (id : ResourceId) (f : Resource → Resource) :
    (r.modifyResource id f).config = r.config := by
  obtain ⟨_, h⟩ := modifyResource_eq r id f
  rw [h]

/-- Changing a resource changes the look-up of its number only. -/
theorem resource?_modifyResource (r : Registry) (id : ResourceId) (f : Resource → Resource)
    (x : ResourceId) :
    (r.modifyResource id f).resource? x =
      if x = id then (r.resource? id).map f else r.resource? x := by
  cases h : r.resource? id with
  | none =>
    rw [modifyResource_of_none h]
    split
    · rename_i hx
      rw [hx, h]
      rfl
    · rfl
  | some res =>
    rw [modifyResource_of_some h]
    exact getElem?_insert r.resources id x (f res)

/-- Every live resource is entered under its own number. -/
def IsKeyed (r : Registry) : Prop := ∀ id res, r.resource? id = some res → res.id = id

/-- Resources that keep their numbers stay entered under them. -/
theorem IsKeyed.modifyResource (h : r.IsKeyed) (id : ResourceId) (f : Resource → Resource)
    (hf : ∀ res, (f res).id = res.id) : (r.modifyResource id f).IsKeyed := by
  intro x res' hres'
  rw [resource?_modifyResource] at hres'
  split at hres'
  · rename_i hx
    obtain ⟨res, hres, rfl⟩ := Option.map_eq_some_iff.mp hres'
    rw [hf, h id res hres, hx]
  · exact h x res' hres'

theorem mem_live : res ∈ r.live ↔ ∃ id, r.resource? id = some res := by
  unfold live resource?
  simp [Std.TreeMap.mem_toList_iff_getElem?_eq_some]

end Registry

namespace Resources

variable {β : Type}

/-- The entries of a map under a reading of its values. -/
def entries (t : Std.TreeMap ResourceId Resource) (f : Resource → β) : List (ResourceId × β) :=
  t.toList.map fun entry => (entry.1, f entry.2)

/-- An entry is what a look-up finds. -/
theorem mem_entries {t : Std.TreeMap ResourceId Resource} {f : Resource → β}
    {entry : ResourceId × β} : entry ∈ entries t f ↔ t[entry.1]?.map f = some entry.2 := by
  unfold entries
  obtain ⟨id, b⟩ := entry
  simp [Std.TreeMap.mem_toList_iff_getElem?_eq_some]

/-- Every number has one entry at most. -/
theorem nodup_entries (t : Std.TreeMap ResourceId Resource) (f : Resource → β) :
    (entries t f).Nodup := by
  have h := t.distinct_keys_toList
  unfold entries List.Nodup
  rw [List.pairwise_map]
  apply h.imp
  intro a b hab heq
  have hkey : a.1 = b.1 := (Prod.mk.inj heq).1
  exact hab (Std.LawfulEqOrd.compare_eq_iff_eq.mpr hkey)

/-- Maps that look alike have the same entries, in some order. -/
theorem entries_perm {t t' : Std.TreeMap ResourceId Resource} {f : Resource → β}
    (h : ∀ id : ResourceId, t[id]?.map f = t'[id]?.map f) : (entries t f).Perm (entries t' f) := by
  rw [List.perm_ext_iff_of_nodup (nodup_entries t f) (nodup_entries t' f)]
  intro entry
  rw [mem_entries, mem_entries, h]

/-- A resource that is there is one of the entries, and taking it out leaves the others. -/
theorem entries_perm_cons {t : Std.TreeMap ResourceId Resource} (f : Resource → β) {id : ResourceId}
    {res : Resource} (h : t[id]? = some res) :
    (entries t f).Perm ((id, f res) :: entries (t.erase id) f) := by
  have hnew : (id, f res) ∉ entries (t.erase id) f := by
    rw [mem_entries, Registry.getElem?_erase, if_pos rfl]
    simp
  have hnodup := List.nodup_cons.mpr ⟨hnew, nodup_entries (t.erase id) f⟩
  rw [List.perm_ext_iff_of_nodup (nodup_entries t f) hnodup]
  rintro ⟨x, b⟩
  rw [List.mem_cons, mem_entries, mem_entries, Registry.getElem?_erase]
  by_cases hx : x = id
  · subst hx
    simp [h, eq_comm]
  · simp [hx]

/-- Everything that a reading finds in some resources, as often as it finds it. -/
def gather (f : Resource → List β) (t : Std.TreeMap ResourceId Resource) : Multiset β :=
  ((entries t f).flatMap Prod.snd : List β)

variable {f : Resource → List β} {t t' : Std.TreeMap ResourceId Resource} {id : ResourceId}

theorem gather_congr (h : ∀ id : ResourceId, t[id]?.map f = t'[id]?.map f) :
    gather f t = gather f t' :=
  Multiset.coe_eq_coe.mpr ((entries_perm h).flatMap_right _)

/-- What is found in one resource is a part of what is found in all. -/
theorem gather_eq_add {res : Resource} (h : t[id]? = some res) :
    gather f t = f res + gather f (t.erase id) := by
  unfold gather
  rw [Multiset.coe_add, Multiset.coe_eq_coe]
  exact (entries_perm_cons _ h).flatMap_right _

/-- What was found before and what is found in a resource that takes the place of another. -/
theorem gather_insert {old : Resource} (h : t[id]? = some old) (res : Resource) :
    gather f (t.insert id res) + f old = gather f t + f res := by
  have hnew : (t.insert id res)[id]? = some res := by rw [Registry.getElem?_insert, if_pos rfl]
  have hrest : gather f ((t.insert id res).erase id) = gather f (t.erase id) := by
    apply gather_congr
    intro x
    rw [Registry.getElem?_erase, Registry.getElem?_erase, Registry.getElem?_insert]
    split <;> rfl
  rw [gather_eq_add hnew, gather_eq_add h, hrest]
  abel

/-- What is found in a new resource comes on top. -/
theorem gather_insert_of_none (h : t[id]? = none) (res : Resource) :
    gather f (t.insert id res) = f res + gather f t := by
  have hnew : (t.insert id res)[id]? = some res := by rw [Registry.getElem?_insert, if_pos rfl]
  have hrest : gather f ((t.insert id res).erase id) = gather f t := by
    apply gather_congr
    intro x
    rw [Registry.getElem?_erase, Registry.getElem?_insert]
    split
    · rename_i hx
      rw [hx, h]
    · rfl
  rw [gather_eq_add hnew, hrest]

/-- A resource in which nothing is found adds nothing, whatever was in its place. -/
theorem gather_insert_le {res : Resource} (h : f res = []) :
    gather f (t.insert id res) ≤ gather f t := by
  cases hold : t[id]? with
  | none => rw [gather_insert_of_none hold, h, Multiset.coe_nil, zero_add]
  | some old =>
    have hinsert := gather_insert (f := f) hold res
    rw [h, Multiset.coe_nil, add_zero] at hinsert
    rw [← hinsert]
    exact Multiset.le_add_right _ _

/-- What is found is found in some resource. -/
theorem mem_gather {x : β} : x ∈ gather f t ↔ ∃ (id : ResourceId) (res : Resource),
    t[id]? = some res ∧ x ∈ f res := by
  unfold gather
  rw [Multiset.mem_coe, List.mem_flatMap]
  constructor
  · rintro ⟨⟨id, held⟩, hentry, hx⟩
    obtain ⟨res, hres, rfl⟩ := Option.map_eq_some_iff.mp (mem_entries.mp hentry)
    exact ⟨id, res, hres, hx⟩
  · rintro ⟨id, res, hres, hx⟩
    exact ⟨(id, f res), mem_entries.mpr (by rw [hres]; rfl), hx⟩

/-- Everything that some resources hold, as often as it is held. -/
def holdings (t : Std.TreeMap ResourceId Resource) : Multiset ResourceId :=
  gather (fun res => res.storage.heldIds) t

end Resources

namespace Registry

/-- Everything that live instances hold, as often as it is held. -/
def holdings (r : Registry) : Multiset ResourceId := Resources.holdings r.resources

/-- The slots through which one resource keeps another alive are as many as it holds it times. -/
theorem length_retainersIn (id : ResourceId) (res : Resource) :
    (retainersIn id res).length = res.storage.heldIds.count id := by
  unfold retainersIn
  rw [List.length_map, ← res.storage.map_id_heldRefs, List.count_eq_countP, List.countP_map,
    List.countP_eq_length_filter]
  rfl

/-- A resource has as many retainers as live instances hold it times. -/
theorem length_retainers (r : Registry) (id : ResourceId) :
    (r.retainers id).length = r.holdings.count id := by
  unfold retainers holdings Resources.holdings Resources.gather Resources.entries live
  rw [List.length_mergeSort, Multiset.coe_count]
  induction r.resources.toList with
  | nil => rfl
  | cons entry rest ih =>
    simp only [List.map_cons, List.flatMap_cons, List.length_append, List.count_append, ih,
      length_retainersIn]

/-- The slots that keep a resource alive are those of the instances one by one, in some order. -/
theorem coe_retainers (r : Registry) (x : ResourceId) :
    (r.retainers x : Multiset Retainer) = Resources.gather (retainersIn x) r.resources := by
  unfold retainers Resources.gather Resources.entries live
  rw [Multiset.coe_eq_coe, List.flatMap_map, List.flatMap_map]
  exact List.mergeSort_perm _ _

end Registry

end Framecast
