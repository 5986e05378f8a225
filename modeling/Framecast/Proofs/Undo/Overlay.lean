import Framecast.Proofs.Operation.Creation
import Framecast.Proofs.Registry.Indexes

/-!
# New resources on top of old indexes

While an instance is being created, what is new stands in front of what the
indexes held before: in the lists of the types and in the cache. A new resource
has a key that was not taken. So when all that is new was removed again, the
indexes are what they were.
-/

namespace Framecast

namespace Registry

/-- A registry in which some resources are new since another. They stand in front of what the
indexes of the other held, and no hook has run. -/
structure Overlays (r s : Registry) : Prop where
  /-- In the lists of the types there is nothing new but new live resources. -/
  listed : ∀ type, ∃ front, s.listed type = front ++ r.listed type ∧ front.Nodup ∧
    ∀ x ∈ front, r.supply.issued < x.toNat ∧ ∃ res, s.resource? x = some res ∧ res.type = type
  /-- In the cache there is nothing new but the keys of new live resources. -/
  cached : ∃ front, s.cache = front ++ r.cache ∧ ∀ entry ∈ front,
    r.supply.issued < entry.2.toNat ∧ ∃ res, s.resource? entry.2 = some res ∧
      res.type = entry.1.type ∧ res.cacheKey? = some entry.1.key
  /-- New resources have keys that were not taken. -/
  keys : ∀ {x res key}, r.supply.issued < x.toNat → s.resource? x = some res →
    res.cacheKey? = some key → ∀ entry ∈ r.cache, entry.1 ≠ ⟨res.type, key⟩
  /-- The host was told nothing. -/
  journal : s.journal = r.journal

/-- A registry in which a resource was entered under the next number since another. -/
structure Enters (s s' : Registry) (res : Resource) : Prop where
  /-- The resource has the next number. -/
  found : s'.resource? s.supply.nextId = some res
  /-- Other resources are as before. -/
  others : ∀ x, x ≠ s.supply.nextId → s'.resource? x = s.resource? x
  /-- It is listed under its type. -/
  listed : ∀ type, s'.listed type =
    if type = res.type then
      if (s.listed type).contains s.supply.nextId then s.listed type
      else s.supply.nextId :: s.listed type
    else s.listed type
  /-- If it has a key, it is cached under it. -/
  cache : s'.cache =
    match res.cacheKey? with
    | some key => (⟨res.type, key⟩, s.supply.nextId) :: s.cache
    | none => s.cache
  /-- The host is told nothing. -/
  journal : s'.journal = s.journal

/-- What has the indexes of an entering has its lists. -/
theorem listed_of_insert {s s' : Registry} {type : String} {storage : Storage} {options : Options}
    (h : s'.indexes = (s.insert type storage options).2.indexes) (other : String) :
    s'.listed other =
      if other = type then
        if (s.listed other).contains s.supply.nextId then s.listed other
        else s.supply.nextId :: s.listed other
      else s.listed other := by
  rw [listed_congr h, listed_insert]
  split
  · rename_i hother
    rw [hother]
  · rfl

/-- Entering a resource enters it. -/
theorem enters_insert (s : Registry) (type : String) (storage : Storage) (options : Options) :
    s.Enters (s.insert type storage options).2
      ⟨s.supply.nextId, type, options.name?.getD (defaultName type s.supply.nextId), 0, storage,
        options.cacheKey?, options.hook?, [], .pending 0, []⟩ := by
  have hlookup := resource?_insert s type storage options
  exact ⟨(hlookup _).trans (if_pos rfl), fun x hx => (hlookup x).trans (if_neg hx),
    listed_of_insert rfl, rfl, rfl⟩

/-- Entering a payload and sending it over some links enters it. -/
theorem Spawns.enters {s s' : Registry} {type : String} {p : Payload} {options : Options}
    {positions : List Nat} (h : s.Spawns s' type p options positions) :
    ∃ res, s.Enters s' res ∧ res.type = type ∧ res.storage = .payload p ∧
      res.cacheKey? = options.cacheKey? ∧ res.hook? = options.hook? ∧ res.refCount = 0 := by
  obtain ⟨bindings, load, hfound, -⟩ := h.found
  exact ⟨_, ⟨hfound, h.others, listed_of_insert h.indexes, (Prod.mk.inj h.indexes).2, h.journal⟩,
    rfl, rfl, rfl, rfl, rfl⟩

/-- Nothing is cached under a key that is not found. -/
theorem ne_of_cached?_eq_none {r : Registry} {type : String} {key? : Option CacheKey}
    (h : r.cached? type key? = none) {key : CacheKey} (hkey : key? = some key) :
    ∀ entry ∈ r.cache, entry.1 ≠ ⟨type, key⟩ := by
  intro entry hentry heq
  subst hkey
  have hlookup : r.cache.lookup ⟨type, key⟩ = none := h
  have hne := List.lookup_eq_none_iff.mp hlookup entry hentry
  simp [heq] at hne

namespace Overlays

variable {r s s' : Registry} {res : Resource}

protected theorem refl (hw : r.WellFormed) : r.Overlays r := by
  refine ⟨fun type => ⟨[], rfl, List.nodup_nil, by simp⟩, ⟨[], rfl, by simp⟩, ?_, rfl⟩
  intro x res key hx hres
  exact absurd (hw.numbered hres).2 (Nat.not_le_of_lt hx)

/-- Only the indexes count, and the types and keys of resources. -/
theorem congr (h : r.Overlays s) (hindexes : s'.indexes = s.indexes)
    (hjournal : s'.journal = s.journal)
    (hsame : ∀ x, (s'.resource? x).map (fun res => (res.type, res.cacheKey?)) =
      (s.resource? x).map fun res => (res.type, res.cacheKey?)) : r.Overlays s' := by
  obtain ⟨hlists, hcache⟩ := Prod.mk.inj hindexes
  have hforth {x : ResourceId} {res : Resource} (hx : s.resource? x = some res) :
      ∃ res', s'.resource? x = some res' ∧ res'.type = res.type ∧
        res'.cacheKey? = res.cacheKey? := by
    have heq := hsame x
    rw [hx, Option.map_some] at heq
    obtain ⟨res', hres', htag⟩ := Option.map_eq_some_iff.mp heq
    exact ⟨res', hres', (Prod.mk.inj htag).1, (Prod.mk.inj htag).2⟩
  refine ⟨fun type => ?_, ?_, fun {x res' key} hx hres' hkey => ?_, hjournal.trans h.journal⟩
  · obtain ⟨front, hfront, hnodup, hnew⟩ := h.listed type
    have hlisted : s'.listed type = s.listed type := by
      unfold Registry.listed
      rw [hlists]
    refine ⟨front, hlisted.trans hfront, hnodup, fun x hx => ?_⟩
    obtain ⟨hlt, res, hres, htype⟩ := hnew x hx
    obtain ⟨res', hres', htype', -⟩ := hforth hres
    exact ⟨hlt, res', hres', htype'.trans htype⟩
  · obtain ⟨front, hfront, hnew⟩ := h.cached
    refine ⟨front, hcache.trans hfront, fun entry hentry => ?_⟩
    obtain ⟨hlt, res, hres, htype, hkey⟩ := hnew entry hentry
    obtain ⟨res', hres', htype', hkey'⟩ := hforth hres
    exact ⟨hlt, res', hres', htype'.trans htype, hkey'.trans hkey⟩
  · have heq := hsame x
    rw [hres', Option.map_some] at heq
    obtain ⟨res, hres, htag⟩ := Option.map_eq_some_iff.mp heq.symm
    obtain ⟨htype, hcacheKey⟩ := Prod.mk.inj htag
    rw [← htype]
    exact h.keys hx hres (hcacheKey.trans hkey)

/-- Changing a resource without its type and its key changes no index. -/
theorem modifyResource (h : r.Overlays s) (id : ResourceId) {f : Resource → Resource}
    (htype : ∀ res, (f res).type = res.type) (hkey : ∀ res, (f res).cacheKey? = res.cacheKey?) :
    r.Overlays (s.modifyResource id f) := by
  have hjournal : (s.modifyResource id f).journal = s.journal := by
    obtain ⟨_, heq⟩ := modifyResource_eq s id f
    rw [heq]
  refine h.congr (indexes_modifyResource s id f) hjournal fun x => ?_
  rw [resource?_modifyResource]
  split
  · rename_i hx
    subst hx
    cases s.resource? x with
    | none => rfl
    | some res => simp [htype, hkey]
  · rfl

/-- A resource that is entered under a free key comes on top. -/
theorem enter (h : r.Overlays s) (he : s.Enters s' res) (hfree : s.resource? s.supply.nextId = none)
    (hnew : r.supply.issued < s.supply.nextId.toNat) (hi : r.IndexesIssued)
    (huncached : s.cached? res.type res.cacheKey? = none) : r.Overlays s' := by
  have hlive {x : ResourceId} {res' : Resource} (hx : s.resource? x = some res') :
      s'.resource? x = some res' := by
    rw [he.others x, hx]
    rintro rfl
    rw [hfree] at hx
    cases hx
  refine ⟨fun type => ?_, ?_, fun {x res' key} hx hres' hkey => ?_, he.journal.trans h.journal⟩
  · obtain ⟨front, hfront, hnodup, hfresh⟩ := h.listed type
    have hkept : ∀ x ∈ front, r.supply.issued < x.toNat ∧
        ∃ res, s'.resource? x = some res ∧ res.type = type := by
      intro x hx
      obtain ⟨hlt, res', hres', htype⟩ := hfresh x hx
      exact ⟨hlt, res', hlive hres', htype⟩
    have hlisted := he.listed type
    split at hlisted
    · rename_i htype
      have hnot : s.supply.nextId ∉ s.listed type := by
        rw [hfront, List.mem_append, not_or]
        constructor
        · intro hx
          obtain ⟨-, res', hres', -⟩ := hfresh _ hx
          rw [hfree] at hres'
          cases hres'
        · exact fun hx => absurd (hi _ (.inl ⟨type, hx⟩)) (Nat.not_le_of_lt hnew)
      rw [if_neg (by simpa using hnot), hfront] at hlisted
      refine ⟨s.supply.nextId :: front, hlisted, ?_, fun x hx => ?_⟩
      · rw [hfront] at hnot
        exact List.nodup_cons.mpr ⟨fun hx => hnot (List.mem_append_left _ hx), hnodup⟩
      · rcases List.mem_cons.mp hx with rfl | hx
        · exact ⟨hnew, res, he.found, htype.symm⟩
        · exact hkept x hx
    · exact ⟨front, hlisted.trans hfront, hnodup, hkept⟩
  · obtain ⟨front, hfront, hfresh⟩ := h.cached
    have hkept : ∀ entry ∈ front, r.supply.issued < entry.2.toNat ∧
        ∃ res, s'.resource? entry.2 = some res ∧ res.type = entry.1.type ∧
          res.cacheKey? = some entry.1.key := by
      intro entry hentry
      obtain ⟨hlt, res', hres', htag⟩ := hfresh entry hentry
      exact ⟨hlt, res', hlive hres', htag⟩
    have hcache := he.cache
    cases hkey : res.cacheKey? with
    | none =>
      rw [hkey] at hcache
      exact ⟨front, hcache.trans hfront, hkept⟩
    | some key =>
      rw [hkey, hfront] at hcache
      refine ⟨(⟨res.type, key⟩, s.supply.nextId) :: front, hcache, fun entry hentry => ?_⟩
      rcases List.mem_cons.mp hentry with rfl | hentry
      · exact ⟨hnew, res, he.found, rfl, hkey⟩
      · exact hkept entry hentry
  · by_cases hid : x = s.supply.nextId
    · subst hid
      cases he.found.symm.trans hres'
      obtain ⟨front, hfront, -⟩ := h.cached
      intro entry hentry
      refine ne_of_cached?_eq_none huncached hkey entry ?_
      rw [hfront]
      exact List.mem_append_right _ hentry
    · rw [he.others x hid] at hres'
      exact h.keys hx hres' hkey

/-- A new resource without a hook can be removed. -/
theorem remove (h : r.Overlays s) (hw : s.WellFormed) (hi : r.IndexesIssued) {x : ResourceId}
    (hres : s.resource? x = some res) (hnew : r.supply.issued < x.toNat)
    (hhook : res.hook? = none) : r.Overlays (s.remove res) := by
  have hid : res.id = x := hw.keyed hres
  have hlive {y : ResourceId} {res' : Resource} (hne : y ≠ x) (hy : s.resource? y = some res') :
      (s.remove res).resource? y = some res' := by
    rw [resource?_remove, if_neg (hid ▸ hne), hy]
  refine ⟨fun type => ?_, ?_, fun {y res' key} hy hres' hkey => ?_, ?_⟩
  · obtain ⟨front, hfront, hnodup, hfresh⟩ := h.listed type
    have hkept : ∀ y ∈ front, y ≠ x → r.supply.issued < y.toNat ∧
        ∃ res', (s.remove res).resource? y = some res' ∧ res'.type = type := by
      intro y hy hne
      obtain ⟨hlt, res', hres', htype'⟩ := hfresh y hy
      exact ⟨hlt, res', hlive hne hres', htype'⟩
    rw [listed_remove, hfront, hid]
    split
    · have hold : x ∉ r.listed type :=
        fun hx => absurd (hi x (.inl ⟨type, hx⟩)) (Nat.not_le_of_lt hnew)
      refine ⟨front.erase x, ?_, hnodup.erase x, fun y hy => ?_⟩
      · rw [List.erase_append]
        split
        · rfl
        · rename_i hx
          rw [List.erase_of_not_mem hold, List.erase_of_not_mem hx]
      · obtain ⟨hne, hy⟩ := hnodup.mem_erase_iff.mp hy
        exact hkept y hy hne
    · rename_i htype
      refine ⟨front, rfl, hnodup, fun y hy => hkept y hy ?_⟩
      rintro rfl
      obtain ⟨-, res', hres', htype'⟩ := hfresh y hy
      rw [hres] at hres'
      cases hres'
      exact htype htype'.symm
  · obtain ⟨front, hfront, hfresh⟩ := h.cached
    have hold : r.cache.filter (fun entry => res.slot? ≠ some entry.1) = r.cache := by
      refine List.filter_eq_self.mpr fun entry hentry => decide_eq_true fun hslot => ?_
      obtain ⟨key, hkey, heq⟩ := Option.map_eq_some_iff.mp hslot
      exact h.keys hnew hres hkey entry hentry heq.symm
    refine ⟨front.filter fun entry => res.slot? ≠ some entry.1, ?_, fun entry hentry => ?_⟩
    · rw [cache_remove, hfront, List.filter_append, hold]
    · obtain ⟨hentry, hother⟩ := List.mem_filter.mp hentry
      obtain ⟨hlt, res', hres', htype, hkey⟩ := hfresh entry hentry
      refine ⟨hlt, res', hlive ?_ hres', htype, hkey⟩
      intro heq
      rw [heq, hres] at hres'
      cases hres'
      refine of_decide_eq_true hother ?_
      unfold Resource.slot?
      rw [hkey, htype, Option.map_some]
  · rw [resource?_remove] at hres'
    split at hres'
    · cases hres'
    · exact h.keys hy hres' hkey
  · have hsilent : res.hookNotices = [] := by
      unfold Resource.hookNotices
      rw [hhook]
      rfl
    rw [journal_remove, hsilent]
    simpa using h.journal

/-- When nothing new is left, the lists are what they were. -/
theorem listed_eq (h : r.Overlays s) (hnone : ∀ x, r.supply.issued < x.toNat → s.resource? x = none)
    (type : String) : s.listed type = r.listed type := by
  obtain ⟨front, hfront, -, hfresh⟩ := h.listed type
  cases front with
  | nil => exact hfront
  | cons x _ =>
    obtain ⟨hlt, res, hres, -⟩ := hfresh x List.mem_cons_self
    rw [hnone x hlt] at hres
    cases hres

/-- When nothing new is left, the cache is what it was. -/
theorem cache_eq (h : r.Overlays s)
    (hnone : ∀ x, r.supply.issued < x.toNat → s.resource? x = none) : s.cache = r.cache := by
  obtain ⟨front, hfront, hfresh⟩ := h.cached
  cases front with
  | nil => exact hfront
  | cons entry _ =>
    obtain ⟨hlt, res, hres, -⟩ := hfresh entry List.mem_cons_self
    rw [hnone _ hlt] at hres
    cases hres

end Overlays

end Registry

end Framecast
