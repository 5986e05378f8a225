import Framecast.Proofs.Registry.WellFormed

/-!
# The indexes of a registry

A resource is listed under its type and, if it has a key, cached. Only entering a
resource puts its number into an index, and removing it takes the number out again, so
what is in an index is live.
-/

namespace Framecast

/-- The place of a resource in the cache, if it has a key. -/
def Resource.slot? (res : Resource) : Option CacheSlot := res.cacheKey?.map (CacheSlot.mk res.type)

/-- What the indexes go by: the type of a resource and its key. -/
def Resource.filed (res : Resource) : String × Option CacheKey := (res.type, res.cacheKey?)

/-- The place in the cache shows in what the indexes go by. -/
theorem Resource.slot?_of_filed {res res' : Resource} (h : res'.filed = res.filed) :
    res'.type = res.type ∧ res'.slot? = res.slot? := by
  obtain ⟨htype, hkey⟩ := Prod.mk.inj h
  refine ⟨htype, ?_⟩
  unfold slot?
  rw [htype, hkey]

namespace Registry

/-- The numbers listed under a type, newest first. -/
def listed (r : Registry) (type : String) : List ResourceId := r.byType[type]?.getD []

/-- Whether a number is listed under some type or cached under some key. -/
def IsIndexed (r : Registry) (x : ResourceId) : Prop :=
  (∃ type, x ∈ r.listed type) ∨ ∃ slot, (slot, x) ∈ r.cache

/-- Every number in an index was given out. -/
def IndexesIssued (r : Registry) : Prop := ∀ x, r.IsIndexed x → x.toNat ≤ r.supply.issued

/-- What is in an index is live. -/
structure IndexesLive (r : Registry) : Prop where
  /-- No number is listed twice under a type. -/
  nodup : ∀ type, (r.listed type).Nodup
  /-- What is listed under a type is live and of this type. -/
  listed : ∀ type, ∀ x ∈ r.listed type, ∃ res, r.resource? x = some res ∧ res.type = type
  /-- What is cached is live and is cached under its own key. -/
  cached : ∀ slot x, (slot, x) ∈ r.cache → ∃ res, r.resource? x = some res ∧ res.slot? = some slot

variable {r r' : Registry}

theorem listed_congr (h : r'.indexes = r.indexes) (type : String) :
    r'.listed type = r.listed type :=
  congrArg (fun byType => byType[type]?.getD []) (Prod.mk.inj h).1

/-- The lists after a number was entered in one of them. -/
theorem listed_list (byType : Std.TreeMap String (List ResourceId)) (type other : String)
    (id : ResourceId) :
    (list byType type id)[other]?.getD [] =
      if other = type then
        if (byType[type]?.getD []).contains id then byType[type]?.getD []
        else id :: byType[type]?.getD []
      else byType[other]?.getD [] := by
  unfold list
  dsimp only
  rw [Std.TreeMap.getElem?_insert]
  simp only [Std.LawfulEqOrd.compare_eq_iff_eq, @eq_comm _ type]
  split <;> rfl

/-- The lists after a resource was taken out of the one of its type. -/
theorem listed_unlist (res : Resource) (r : Registry) (type : String) :
    (r.unlist res).listed type =
      if type = res.type then (r.listed type).erase res.id else r.listed type := by
  unfold unlist listed
  dsimp only
  rw [Std.TreeMap.getElem?_modify]
  simp only [Std.LawfulEqOrd.compare_eq_iff_eq, @eq_comm _ res.type]
  split
  · rename_i h
    subst h
    cases r.byType[res.type]? <;> rfl
  · rfl

/-- What a key leads to is cached under it. -/
theorem mem_cache_of_cached? {type : String} {key? : Option CacheKey} {x : ResourceId}
    (h : r.cached? type key? = some x) : ∃ slot, (slot, x) ∈ r.cache ∧
      key?.map (CacheSlot.mk type) = some slot := by
  obtain ⟨key, rfl, hkey⟩ := Option.bind_eq_some_iff.mp h
  obtain ⟨before, rest, hcache, -⟩ := List.lookup_eq_some_iff.mp hkey
  exact ⟨⟨type, key⟩, by rw [hcache]; simp, rfl⟩

/-- What a key leads to is live, of the type and under the key. -/
theorem IndexesLive.of_cached? (hi : r.IndexesLive) {type : String} {key? : Option CacheKey}
    {x : ResourceId} (h : r.cached? type key? = some x) :
    ∃ res, r.resource? x = some res ∧ res.type = type ∧ res.cacheKey? = key? := by
  obtain ⟨slot, hmem, hslot⟩ := mem_cache_of_cached? h
  obtain ⟨res, hres, hfiled⟩ := hi.cached slot x hmem
  obtain ⟨key, rfl, rfl⟩ := Option.map_eq_some_iff.mp hslot
  obtain ⟨own, hown, heq⟩ := Option.map_eq_some_iff.mp hfiled
  obtain ⟨htype, rfl⟩ := CacheSlot.mk.inj heq
  exact ⟨res, hres, htype, hown⟩

/-- The cache after a resource was entered. -/
theorem cache_insert (r : Registry) (type : String) (storage : Storage) (options : Options) :
    (r.insert type storage options).2.cache =
      match options.cacheKey? with
      | some key => (⟨type, key⟩, r.supply.nextId) :: r.cache
      | none => r.cache := rfl

/-- The lists after a resource was entered. -/
theorem listed_insert (r : Registry) (type other : String) (storage : Storage)
    (options : Options) :
    (r.insert type storage options).2.listed other =
      if other = type then
        if (r.listed type).contains r.supply.nextId then r.listed type
        else r.supply.nextId :: r.listed type
      else r.listed other := by
  unfold listed insert
  dsimp only
  exact listed_list r.byType type other r.supply.nextId

/-- A removal takes what is cached under the key of the resource out of the cache. -/
theorem cache_remove (res : Resource) (r : Registry) :
    (r.remove res).cache = r.cache.filter fun entry => res.slot? ≠ some entry.1 := by
  obtain ⟨_, heq⟩ := remove_eq res r
  rw [heq]
  unfold uncache Resource.slot?
  cases res.cacheKey? with
  | none => simp
  | some key =>
    apply List.filter_congr
    intro entry _
    rw [Bool.eq_iff_iff]
    simp only [bne_iff_ne, decide_eq_true_eq, ne_eq, Option.map_some, Option.some.injEq,
      @eq_comm _ entry.1]

/-- A removal takes the resource out of the list of its type. -/
theorem listed_remove (res : Resource) (r : Registry) (type : String) :
    (r.remove res).listed type =
      if type = res.type then (r.listed type).erase res.id else r.listed type := by
  obtain ⟨_, heq⟩ := remove_eq res r
  rw [heq]
  exact listed_unlist res r type

/-- Registries in which the same numbers are live with the same types and keys. -/
def FiledAlike (r r' : Registry) : Prop :=
  ∀ x, (r'.resource? x).map Resource.filed = (r.resource? x).map Resource.filed

/-- Where the bodies of the resources are the same, the same is filed. -/
theorem FiledAlike.of_body
    (h : ∀ x, (r'.resource? x).map Resource.body = (r.resource? x).map Resource.body) :
    r.FiledAlike r' := by
  intro x
  have hfiled := congrArg (Option.map Resource.filed) (h x)
  rwa [Option.map_map, Option.map_map] at hfiled

/-- A change of a resource in something else leaves it filed as it was. -/
theorem FiledAlike.modifyResource (r : Registry) (id : ResourceId) {f : Resource → Resource}
    (hf : ∀ res, (f res).filed = res.filed) : r.FiledAlike (r.modifyResource id f) := by
  intro x
  rw [resource?_modifyResource]
  split
  · rename_i hx
    rw [hx, Option.map_map]
    exact congrArg (fun g => (r.resource? id).map g) (funext hf)
  · rfl

/-- What is filed is still there, filed alike. -/
theorem FiledAlike.found (h : r.FiledAlike r') {x : ResourceId} {res : Resource}
    (hres : r.resource? x = some res) :
    ∃ res', r'.resource? x = some res' ∧ res'.type = res.type ∧ res'.slot? = res.slot? := by
  have hx := h x
  rw [hres, Option.map_some] at hx
  obtain ⟨res', hres', hfiled⟩ := Option.map_eq_some_iff.mp hx
  exact ⟨res', hres', Resource.slot?_of_filed hfiled⟩

theorem FiledAlike.symm (h : r.FiledAlike r') : r'.FiledAlike r := fun x => (h x).symm

/-- The indexes go on agreeing with what is live if it keeps its type and its key. -/
theorem IndexesLive.congr (h : r.IndexesLive) (hindexes : r'.indexes = r.indexes)
    (hfiled : r.FiledAlike r') : r'.IndexesLive := by
  have hcache : r'.cache = r.cache := (Prod.mk.inj hindexes).2
  refine ⟨fun type => ?_, fun type x hx => ?_, fun slot x hx => ?_⟩
  · rw [listed_congr hindexes]
    exact h.nodup type
  · rw [listed_congr hindexes] at hx
    obtain ⟨res, hres, rfl⟩ := h.listed type x hx
    obtain ⟨res', hres', htype, -⟩ := hfiled.found hres
    exact ⟨res', hres', htype⟩
  · rw [hcache] at hx
    obtain ⟨res, hres, hslot⟩ := h.cached slot x hx
    obtain ⟨res', hres', -, hkept⟩ := hfiled.found hres
    exact ⟨res', hres', hkept.trans hslot⟩

theorem IndexesLive.of_body (h : r.IndexesLive) (hindexes : r'.indexes = r.indexes)
    (hbody : ∀ id, (r'.resource? id).map Resource.body = (r.resource? id).map Resource.body) :
    r'.IndexesLive :=
  h.congr hindexes (.of_body hbody)

/-- What is live has a number that was given out. -/
theorem IndexesLive.indexesIssued (h : r.IndexesLive) (hw : r.WellFormed) : r.IndexesIssued := by
  rintro x (⟨type, hx⟩ | ⟨slot, hx⟩)
  · obtain ⟨res, hres, -⟩ := h.listed type x hx
    exact (hw.numbered hres).2
  · obtain ⟨res, hres, -⟩ := h.cached slot x hx
    exact (hw.numbered hres).2

/-- What is entered under a number that nothing live has is live. -/
theorem IndexesLive.insert (h : r.IndexesLive) (hfree : r.resource? r.supply.nextId = none)
    (type : String) (storage : Storage) (options : Options) :
    (r.insert type storage options).2.IndexesLive := by
  have hold {x : ResourceId} {res : Resource} (hres : r.resource? x = some res) :
      (r.insert type storage options).2.resource? x = some res := by
    rw [resource?_insert, if_neg]
    · exact hres
    · rintro rfl
      rw [hfree] at hres
      cases hres
  have hnew := resource?_insert r type storage options r.supply.nextId
  rw [if_pos rfl] at hnew
  refine ⟨fun other => ?_, fun other x hx => ?_, fun slot x hx => ?_⟩
  · rw [listed_insert]
    split
    · split
      · exact h.nodup type
      · rename_i hnone
        exact List.nodup_cons.mpr ⟨by simpa using hnone, h.nodup type⟩
    · exact h.nodup other
  · have hlisted {other : String} (hx : x ∈ r.listed other) :
        ∃ res, (r.insert type storage options).2.resource? x = some res ∧ res.type = other := by
      obtain ⟨res, hres, htype⟩ := h.listed other x hx
      exact ⟨res, hold hres, htype⟩
    rw [listed_insert] at hx
    split at hx
    · rename_i hother
      subst hother
      split at hx
      · exact hlisted hx
      · rcases List.mem_cons.mp hx with rfl | hx
        · exact ⟨_, hnew, rfl⟩
        · exact hlisted hx
    · exact hlisted hx
  · have hcached (hx : (slot, x) ∈ r.cache) :
        ∃ res, (r.insert type storage options).2.resource? x = some res ∧
          res.slot? = some slot := by
      obtain ⟨res, hres, hslot⟩ := h.cached slot x hx
      exact ⟨res, hold hres, hslot⟩
    rw [cache_insert] at hx
    split at hx
    · rename_i key hkey
      rcases List.mem_cons.mp hx with hx | hx
      · obtain ⟨rfl, rfl⟩ := Prod.mk.inj hx
        refine ⟨_, hnew, ?_⟩
        unfold Resource.slot?
        rw [hkey]
        rfl
      · exact hcached hx
    · exact hcached hx

/-- What is removed leaves the indexes. -/
theorem IndexesLive.remove {res : Resource} (h : r.IndexesLive)
    (hres : r.resource? res.id = some res) : (r.remove res).IndexesLive := by
  have hleft {x : ResourceId} {other : Resource} (hother : r.resource? x = some other)
      (hne : x ≠ res.id) : (r.remove res).resource? x = some other := by
    rw [resource?_remove, if_neg hne]
    exact hother
  refine ⟨fun type => ?_, fun type x hx => ?_, fun slot x hx => ?_⟩
  · rw [listed_remove]
    split
    · exact (h.nodup type).erase _
    · exact h.nodup type
  · rw [listed_remove] at hx
    split at hx
    · rw [(h.nodup type).mem_erase_iff] at hx
      obtain ⟨other, hother, htype⟩ := h.listed type x hx.2
      exact ⟨other, hleft hother hx.1, htype⟩
    · rename_i hne
      obtain ⟨other, hother, htype⟩ := h.listed type x hx
      refine ⟨other, hleft hother ?_, htype⟩
      rintro rfl
      rw [hres] at hother
      cases hother
      exact hne htype.symm
  · rw [cache_remove, List.mem_filter] at hx
    obtain ⟨other, hother, hslot⟩ := h.cached slot x hx.1
    refine ⟨other, hleft hother ?_, hslot⟩
    rintro rfl
    rw [hres] at hother
    cases hother
    exact of_decide_eq_true hx.2 hslot

end Registry

/-- What becomes of the indexes, and of the types and keys that they go by. -/
inductive Registry.Files (r r' : Registry) : Prop
  /-- They stay as they are. -/
  | kept (hindexes : r'.indexes = r.indexes) (hfiled : r.FiledAlike r')
  /-- A resource is entered under a key that leads nowhere. -/
  | entered (type : String) (storage : Storage) (options : Options)
      (huncached : r.cached? type options.cacheKey? = none)
      (h : r' = (r.insert type storage options).2)
  /-- A resource is removed. -/
  | removed {res : Resource} (hres : r.resource? res.id = some res) (h : r' = r.remove res)

/-- An elementary change enters a resource, removes one, or leaves the indexes as they are. -/
theorem Edit.files {strict : Prop} {writer : ResourceId} {b b' : Book}
    (h : Edit strict writer b b') (hw : b.registry.WellFormed) :
    b.registry.Files b'.registry := by
  have hmodified {r : Registry} (id : ResourceId) {f : Resource → Resource}
      (hf : ∀ res, (f res).filed = res.filed) : r.Files (r.modifyResource id f) :=
    .kept (Registry.indexes_modifyResource r id f) (.modifyResource r id hf)
  cases h with
  | quiet h => exact .kept h.indexes (.of_body h.resources)
  | enter type options _ _ _ huncached => exact .entered type _ options huncached rfl
  | retain => exact hmodified _ fun _ => rfl
  | release => exact hmodified _ fun _ => rfl
  | drop => exact .kept rfl fun _ => rfl
  | store => exact hmodified _ fun res => by cases res.storage <;> rfl
  | @ship r _ _ id res k link load h =>
    refine .kept rfl fun x => ?_
    have hlookup := Registry.getElem?_insert r.resources id x
      { res with bindings := res.bindings ++ [(link.ship k res r.tick).1], load }
    show Option.map _ (Std.TreeMap.insert _ _ _)[x]? = _
    rw [hlookup]
    split
    · rename_i hx
      rw [hx, h]
      rfl
    · rfl
  | @remove r _ _ id res h =>
    obtain rfl := hw.keyed h
    exact .removed h rfl

/-- What is in an index is live, and stays so in every elementary change. -/
theorem Edit.indexesLive {strict : Prop} {writer : ResourceId} {b b' : Book}
    (h : Edit strict writer b b') (hw : b.registry.WellFormed) (hl : b'.registry.supply.Lasts)
    (hi : b.registry.IndexesLive) : b'.registry.IndexesLive := by
  cases h.files hw with
  | kept hindexes hfiled => exact hi.congr hindexes hfiled
  | entered type storage options _ heq =>
    rw [heq] at hl ⊢
    exact hi.insert (hw.resource?_nextId hl.of_draw) _ _ _
  | removed hres heq =>
    rw [heq]
    exact hi.remove hres

theorem Registry.Changes.indexesLive {r after : Registry} (h : r.Changes after)
    (hw : r.WellFormed) (hl : after.supply.Lasts) (hi : r.IndexesLive) : after.IndexesLive :=
  (h.keep hw hl (fun _ _ _ _ hw _ hl hedit hi => hedit.indexesLive hw hl hi) hi).2

end Framecast
