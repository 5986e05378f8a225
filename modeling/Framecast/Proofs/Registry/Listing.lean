import Mathlib.Algebra.Ring.Nat
import Mathlib.Data.List.Nodup
import Framecast.Proofs.Registry.Indexes

/-!
# What the indexes of a registry list

Whatever is live is listed under its type and cached under its key, and numbers
are listed in the order in which they were given out. Together with the converse,
that what is in an index is live, this is all that can be read off the indexes.
-/

namespace Framecast

namespace Registry

/-- What is live is in the indexes. -/
structure IndexesFull (r : Registry) : Prop where
  /-- It is listed under its type. -/
  listed : ∀ x res, r.resource? x = some res → x ∈ r.listed res.type
  /-- It is cached under its key. -/
  cached : ∀ x res slot, r.resource? x = some res → res.slot? = some slot → (slot, x) ∈ r.cache
  /-- The list of a type is newest first. -/
  newest : ∀ type, (r.listed type).Pairwise fun x y => y < x
  /-- No key of a type is in the cache twice. -/
  keys : (r.cache.map Prod.fst).Nodup

/-- What the indexes of a registry show of its live resources. -/
structure IndexesAgree (r : Registry) : Prop where
  /-- The index of a type lists exactly what is live of that type. -/
  listed : ∀ type x, x ∈ r.idsOfType type ↔ ∃ res, r.resource? x = some res ∧ res.type = type
  /-- It lists every number once, in ascending order. -/
  ascending : ∀ type, (r.idsOfType type).Pairwise fun x y => x < y
  /-- A key of a type leads exactly to what is live of that type under that key. -/
  cached : ∀ type key x, r.cached? type (some key) = some x ↔
    ∃ res, r.resource? x = some res ∧ res.type = type ∧ res.cacheKey? = some key
  /-- No two live resources of one type have the same key. -/
  unique : ∀ x y res res' key, r.resource? x = some res → r.resource? y = some res' →
    res.type = res'.type → res.cacheKey? = some key → res'.cacheKey? = some key → x = y
  /-- The live resources are those of all types together. -/
  size : ∀ types : List String, types.Nodup →
    (∀ x res, r.resource? x = some res → res.type ∈ types) →
      r.size = (types.map fun type => (r.idsOfType type).length).sum

variable {r r' : Registry}

/-- A number that is not given out twice goes to the front of its list. -/
theorem listed_insert_of_free (hi : r.IndexesLive)
    (hfree : r.resource? r.supply.nextId = none) (type other : String) (storage : Storage)
    (options : Options) :
    (r.insert type storage options).2.listed other =
      if other = type then r.supply.nextId :: r.listed type else r.listed other := by
  have hnew : (r.listed type).contains r.supply.nextId = false := by
    rw [← Bool.not_eq_true, List.contains_iff_mem]
    intro hmem
    obtain ⟨res, hres, -⟩ := hi.listed type _ hmem
    rw [hfree] at hres
    cases hres
  rw [listed_insert, hnew]
  rfl

/-- The indexes go on showing what is live if it keeps its type and its key. -/
theorem IndexesFull.congr (h : r.IndexesFull) (hindexes : r'.indexes = r.indexes)
    (hfiled : r.FiledAlike r') : r'.IndexesFull := by
  have hcache : r'.cache = r.cache := (Prod.mk.inj hindexes).2
  refine ⟨fun x res' hres' => ?_, fun x res' slot hres' hslot => ?_, fun type => ?_, ?_⟩
  · obtain ⟨res, hres, htype, -⟩ := hfiled.symm.found hres'
    rw [listed_congr hindexes, ← htype]
    exact h.listed x res hres
  · obtain ⟨res, hres, -, hkept⟩ := hfiled.symm.found hres'
    rw [hcache]
    exact h.cached x res slot hres (hkept.trans hslot)
  · rw [listed_congr hindexes]
    exact h.newest type
  · rw [hcache]
    exact h.keys

/-- What is entered under a free key is listed in front and cached. -/
theorem IndexesFull.insert (h : r.IndexesFull) (hi : r.IndexesLive) (hw : r.WellFormed)
    (hl : r.supply.Lasts) {type : String} (storage : Storage) {options : Options}
    (huncached : r.cached? type options.cacheKey? = none) :
    (r.insert type storage options).2.IndexesFull := by
  have hfree := hw.resource?_nextId hl
  have hlookup := resource?_insert r type storage options
  have hlists := fun other => listed_insert_of_free hi hfree type other storage options
  refine ⟨fun x res hres => ?_, fun x res slot hres hslot => ?_, fun other => ?_, ?_⟩
  · rw [hlists]
    rw [hlookup] at hres
    split at hres
    · rename_i hx
      cases hres
      rw [if_pos rfl, hx]
      exact List.mem_cons_self
    · have hmem := h.listed x res hres
      split
      · rename_i htype
        rw [htype] at hmem
        exact List.mem_cons_of_mem _ hmem
      · exact hmem
  · rw [cache_insert]
    rw [hlookup] at hres
    split at hres
    · rename_i hx
      cases hres
      obtain ⟨key, hkey, rfl⟩ := Option.map_eq_some_iff.mp hslot
      have hasked : options.cacheKey? = some key := hkey
      rw [hasked, hx]
      exact List.mem_cons_self
    · have hmem := h.cached x res slot hres hslot
      split
      · exact List.mem_cons_of_mem _ hmem
      · exact hmem
  · rw [hlists]
    split
    · refine List.pairwise_cons.mpr ⟨fun y hy => ?_, h.newest type⟩
      obtain ⟨res, hres, -⟩ := hi.listed type y hy
      rw [UInt32.lt_iff_toNat_lt, Supply.toNat_nextId hl]
      exact Nat.lt_succ_of_le (hw.numbered hres).2
    · exact h.newest other
  · rw [cache_insert]
    split
    · rename_i key hkey
      refine List.nodup_cons.mpr ⟨fun hmem => ?_, h.keys⟩
      obtain ⟨⟨slot, y⟩, hy, rfl⟩ := List.mem_map.mp hmem
      rw [hkey] at huncached
      simpa using List.lookup_eq_none_iff.mp huncached _ hy
    · exact h.keys

/-- What is removed leaves the others in the indexes. -/
theorem IndexesFull.remove {res : Resource} (h : r.IndexesFull)
    (hres : r.resource? res.id = some res) : (r.remove res).IndexesFull := by
  have hbefore {x : ResourceId} {other : Resource}
      (hother : (r.remove res).resource? x = some other) :
      x ≠ res.id ∧ r.resource? x = some other := by
    rw [resource?_remove] at hother
    split at hother
    · cases hother
    · exact ⟨‹_›, hother⟩
  refine ⟨fun x other hother => ?_, fun x other slot hother hslot => ?_, fun type => ?_, ?_⟩
  · obtain ⟨hne, hother⟩ := hbefore hother
    have hmem := h.listed x other hother
    rw [listed_remove]
    split
    · exact (List.mem_erase_of_ne hne).mpr hmem
    · exact hmem
  · obtain ⟨hne, hother⟩ := hbefore hother
    have hmem := h.cached x other slot hother hslot
    rw [cache_remove, List.mem_filter]
    refine ⟨hmem, decide_eq_true fun hsame => hne ?_⟩
    have hgone := h.cached res.id res slot hres hsame
    exact (Prod.mk.inj (List.inj_on_of_nodup_map h.keys hmem hgone rfl)).2
  · rw [listed_remove]
    split
    · exact (h.newest type).sublist List.erase_sublist
    · exact h.newest type
  · rw [cache_remove]
    exact h.keys.sublist (List.filter_sublist.map _)

theorem idsOfType_eq (r : Registry) (type : String) : r.idsOfType type = (r.listed type).reverse :=
  rfl

/-- Where every key is in the cache once, it leads to what is cached under it. -/
theorem cached?_eq_some_iff (hkeys : (r.cache.map Prod.fst).Nodup) {type : String}
    {key : CacheKey} {x : ResourceId} :
    r.cached? type (some key) = some x ↔ (⟨type, key⟩, x) ∈ r.cache := by
  show r.cache.lookup ⟨type, key⟩ = some x ↔ _
  constructor
  · intro h
    obtain ⟨before, rest, hcache, -⟩ := List.lookup_eq_some_iff.mp h
    rw [hcache]
    simp
  · intro hmem
    cases hfound : r.cache.lookup ⟨type, key⟩ with
    | none => simpa using List.lookup_eq_none_iff.mp hfound _ hmem
    | some y =>
      obtain ⟨before, rest, hcache, -⟩ := List.lookup_eq_some_iff.mp hfound
      have hy : ((⟨type, key⟩ : CacheSlot), y) ∈ r.cache := by
        rw [hcache]
        simp
      exact congrArg some (Prod.mk.inj (List.inj_on_of_nodup_map hkeys hy hmem rfl)).2

/-- Resources of different types are different, so the lists of some types have no number in
common. -/
theorem IndexesLive.nodup_flatMap (h : r.IndexesLive) {types : List String}
    (htypes : types.Nodup) : (types.flatMap r.idsOfType).Nodup := by
  refine List.nodup_flatMap.mpr ⟨fun type _ => List.nodup_reverse.mpr (h.nodup type), ?_⟩
  refine htypes.imp fun {type other} hne x hx hx' => hne ?_
  obtain ⟨res, hres, rfl⟩ := h.listed type x (List.mem_reverse.mp hx)
  obtain ⟨res', hres', rfl⟩ := h.listed other x (List.mem_reverse.mp hx')
  rw [hres] at hres'
  cases hres'
  rfl

/-- Indexes that show exactly what is live agree with it. -/
theorem IndexesFull.agree (h : r.IndexesFull) (hi : r.IndexesLive) : r.IndexesAgree := by
  have hlisted (type : String) (x : ResourceId) :
      x ∈ r.idsOfType type ↔ ∃ res, r.resource? x = some res ∧ res.type = type := by
    rw [idsOfType_eq, List.mem_reverse]
    constructor
    · exact hi.listed type x
    · rintro ⟨res, hres, rfl⟩
      exact h.listed x res hres
  have hcached (type : String) (key : CacheKey) (x : ResourceId) :
      r.cached? type (some key) = some x ↔
        ∃ res, r.resource? x = some res ∧ res.type = type ∧ res.cacheKey? = some key := by
    rw [cached?_eq_some_iff h.keys]
    constructor
    · intro hmem
      obtain ⟨res, hres, hslot⟩ := hi.cached _ x hmem
      obtain ⟨key', hkey, heq⟩ := Option.map_eq_some_iff.mp hslot
      cases heq
      exact ⟨res, hres, rfl, hkey⟩
    · rintro ⟨res, hres, rfl, hkey⟩
      refine h.cached x res _ hres ?_
      unfold Resource.slot?
      rw [hkey]
      rfl
  refine ⟨hlisted, fun type => ?_, hcached, fun x y res res' key hres hres' htype hkey hkey' => ?_,
    fun types htypes hall => ?_⟩
  · rw [idsOfType_eq, List.pairwise_reverse]
    exact h.newest type
  · have hx := (hcached res.type key x).mpr ⟨res, hres, rfl, hkey⟩
    have hy := (hcached res.type key y).mpr ⟨res', hres', htype.symm, hkey'⟩
    exact Option.some.inj (hx.symm.trans hy)
  · have hperm : (r.resources.toList.map Prod.fst).Perm (types.flatMap r.idsOfType) := by
      rw [List.perm_ext_iff_of_nodup ?_ (hi.nodup_flatMap htypes)]
      · intro x
        have hlive : x ∈ r.resources.toList.map Prod.fst ↔ ∃ res, r.resource? x = some res := by
          simp only [List.mem_map, Prod.exists, exists_and_right, exists_eq_right,
            Std.TreeMap.mem_toList_iff_getElem?_eq_some]
          rfl
        rw [hlive, List.mem_flatMap]
        constructor
        · rintro ⟨res, hres⟩
          exact ⟨res.type, hall x res hres, (hlisted _ x).mpr ⟨res, hres, rfl⟩⟩
        · rintro ⟨type, -, hx⟩
          obtain ⟨res, hres, -⟩ := (hlisted type x).mp hx
          exact ⟨res, hres⟩
      · refine List.pairwise_map.mpr (r.resources.distinct_keys_toList.imp fun hne heq => hne ?_)
        exact Std.LawfulEqOrd.compare_eq_iff_eq.mpr heq
    have hlength := hperm.length_eq
    rw [List.length_map, Std.TreeMap.length_toList, List.length_flatMap] at hlength
    exact hlength

end Registry

/-- What is live is in the indexes, and stays so in every elementary change. -/
theorem Edit.indexesFull {strict : Prop} {writer : ResourceId} {b b' : Book}
    (h : Edit strict writer b b') (hw : b.registry.WellFormed) (hl : b'.registry.supply.Lasts)
    (hi : b.registry.IndexesLive) (hf : b.registry.IndexesFull) : b'.registry.IndexesFull := by
  cases h.files hw with
  | kept hindexes hfiled => exact hf.congr hindexes hfiled
  | entered type storage options huncached heq =>
    rw [heq] at hl ⊢
    exact hf.insert hi hw hl.of_draw storage huncached
  | removed hres heq =>
    rw [heq]
    exact hf.remove hres

/-- The indexes go on showing exactly what is live in every chain of elementary changes. -/
theorem Registry.Changes.indexesFull {r after : Registry} (h : r.Changes after)
    (hw : r.WellFormed) (hl : after.supply.Lasts) (hi : r.IndexesLive) (hf : r.IndexesFull) :
    after.IndexesFull := by
  have hboth := (h.keep (P := fun s => s.IndexesLive ∧ s.IndexesFull) hw hl
    (fun _ _ _ _ hw _ hl hedit ⟨hi, hf⟩ =>
      ⟨hedit.indexesLive hw hl hi, hedit.indexesFull hw hl hi hf⟩) ⟨hi, hf⟩).2
  exact hboth.2

end Framecast
