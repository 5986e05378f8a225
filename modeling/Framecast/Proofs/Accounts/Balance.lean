import Framecast.Proofs.Registry.Steady

/-!
# Balanced books

A book is balanced when the count of every live resource is the number of times it
is named, by the host, by an operation that holds it in its hand, or by the bytes
of an instance, and when nothing is named that is gone. Strict elementary changes
keep a balance as long as no count reaches its limit: what is removed was not
named any more.
-/

namespace Framecast

/-- The references outside of instances and those inside account for every count. -/
structure Registry.IsBalanced (r : Registry) (outside : Multiset ResourceId) : Prop where
  /-- The count of a resource is the number of references on it. -/
  counts : ∀ {x res}, r.resource? x = some res → res.refCount = (outside + r.holdings).count x
  /-- References lead to live resources. -/
  live : ∀ x ∈ outside + r.holdings, ∃ res, r.resource? x = some res
  /-- Owning references lead to resources of the declared type. -/
  typed : ∀ {id res schema bytes prop}, r.resource? id = some res →
    res.storage = .fields schema bytes → prop ∈ schema.layout.props → prop.isOwningRef = true →
      ∀ x ∈ prop.heldIds (prop.slice bytes),
        ∃ target, r.resource? x = some target ∧ prop.target? = some target.type

/-- The count of a resource; what is not there has none. -/
def Registry.countOf (r : Registry) (x : ResourceId) : Nat :=
  ((r.resource? x).map Resource.refCount).getD 0

/-- No count exceeds what it was at the start by more than the references taken since. -/
def Book.IsBounded (base : ResourceId → Nat) (b : Book) : Prop :=
  ∀ x res, b.registry.resource? x = some res → res.refCount ≤ base x + b.taken.count x

namespace Registry

variable {r r' : Registry} {outside : Multiset ResourceId} {id x : ResourceId} {res : Resource}

/-- Resources that only their loading and their hooks tell apart hold the same. -/
theorem holdings_of_body
    (h : ∀ id, (r'.resource? id).map Resource.body = (r.resource? id).map Resource.body) :
    r'.holdings = r.holdings := by
  apply Resources.gather_congr
  intro id
  have hbody := congrArg (Option.map fun res : Resource => res.storage.heldIds) (h id)
  rw [Option.map_map, Option.map_map] at hbody
  exact hbody

/-- Changing a resource changes what is held only if its storage changes. -/
theorem holdings_modifyResource (r : Registry) (id : ResourceId) {f : Resource → Resource}
    (hf : ∀ res, (f res).storage = res.storage) : (r.modifyResource id f).holdings = r.holdings := by
  apply Resources.gather_congr
  intro x
  have hx := congrArg (Option.map fun res : Resource => res.storage.heldIds)
    (resource?_modifyResource r id f x)
  refine hx.trans ?_
  split
  · rename_i heq
    rw [heq, Option.map_map]
    exact congrArg (fun g => (r.resource? id).map g)
      (funext fun res => congrArg Storage.heldIds (hf res))
  · rfl

/-- A new resource that holds nothing adds nothing to what is held. -/
theorem holdings_insert (hfree : r.resource? r.supply.nextId = none) (type : String)
    {storage : Storage} (options : Options) (hblank : storage.heldIds = []) :
    (r.insert type storage options).2.holdings = r.holdings := by
  refine (Resources.gather_insert_of_none hfree _).trans ?_
  rw [hblank, Multiset.coe_nil, Multiset.zero_add]
  rfl

/-- What is held is held by a resource that is removed or by the others. -/
theorem holdings_eq_add_remove (hw : r.WellFormed) (h : r.resource? id = some res) :
    r.holdings = res.storage.heldIds + (r.remove res).holdings := by
  obtain ⟨_, heq⟩ := remove_eq res r
  rw [heq]
  exact hw.keyed h ▸ Resources.gather_eq_add h

/-- References that move between the book and the bytes of an instance are as many as before. -/
theorem add_holdings_storeBytes {outside' : Multiset ResourceId} {schema : Schema}
    {bytes part : Bytes} {prop : Property} (hw : r.WellFormed) (h : r.resource? id = some res)
    (hs : res.storage = .fields schema bytes) (hprop : prop ∈ schema.layout.props)
    (hpart : part.length = (prop.slice bytes).length)
    (hmoved : outside' + prop.heldIds part = outside + prop.heldIds (prop.slice bytes)) :
    outside' + (r.storeBytes id prop part).holdings = outside + r.holdings := by
  have hsound := hw.sound h
  rw [hs] at hsound
  have hexchange := Layout.heldIds_splice hsound.1 hprop hsound.2
    (hpart.trans (hsound.1.length_slice hprop hsound.2))
  have hinsert : (r.storeBytes id prop part).holdings + schema.layout.heldIds bytes =
      r.holdings + schema.layout.heldIds (prop.splice bytes part) := by
    have hnew := @Resources.gather_insert _ (fun res => res.storage.heldIds) _ _ _
      (show r.resources[id]? = some res from h)
      { res with storage := .fields schema (prop.splice bytes part) }
    rw [hs] at hnew
    refine Eq.trans ?_ hnew
    unfold storeBytes holdings
    rw [modifyResource_of_some h, hs]
    rfl
  ext x
  have hexchange := congrArg (Multiset.count x) hexchange
  have hinsert := congrArg (Multiset.count x) hinsert
  have hmoved := congrArg (Multiset.count x) hmoved
  simp only [Multiset.count_add] at hexchange hinsert hmoved ⊢
  omega

/-- What is held by one resource is held. -/
theorem mem_holdings_of_mem {schema : Schema} {bytes : Bytes} {prop : Property}
    (h : r.resource? id = some res) (hs : res.storage = .fields schema bytes)
    (hprop : prop ∈ schema.layout.props) (hx : x ∈ prop.heldIds (prop.slice bytes)) :
    x ∈ r.holdings := by
  refine Resources.mem_gather.mpr ⟨id, res, h, ?_⟩
  rw [hs]
  exact List.mem_flatMap.mpr ⟨prop, hprop, hx⟩

/-- Books are balanced after a change if the counts add up, whatever is referenced was there before
and survives with its type, and what instances hold was there with the declared type. -/
theorem IsBalanced.of_survivors
    (hcounts : ∀ {x res'}, r'.resource? x = some res' →
      res'.refCount = (outside + r'.holdings).count x)
    (hsurvives : ∀ x ∈ outside + r'.holdings, ∃ target target', r.resource? x = some target ∧
      r'.resource? x = some target' ∧ target'.type = target.type)
    (hholders : ∀ {id res' schema bytes prop}, r'.resource? id = some res' →
      res'.storage = .fields schema bytes → prop ∈ schema.layout.props → prop.isOwningRef = true →
        ∀ x ∈ prop.heldIds (prop.slice bytes),
          ∃ target, r.resource? x = some target ∧ prop.target? = some target.type) :
    r'.IsBalanced outside := by
  refine ⟨hcounts, fun x hx => ?_, fun hid hs hprop howning x hx => ?_⟩
  · obtain ⟨-, target', -, htarget', -⟩ := hsurvives x hx
    exact ⟨target', htarget'⟩
  · obtain ⟨target, htarget, htype⟩ := hholders hid hs hprop howning x hx
    obtain ⟨old, target', hold, htarget', htype'⟩ :=
      hsurvives x (Multiset.mem_add.mpr (.inr (mem_holdings_of_mem hid hs hprop hx)))
    rw [htarget] at hold
    cases hold
    exact ⟨target', htarget', by rw [htype, htype']⟩

/-- A balance shows in the bodies of the resources. -/
theorem IsBalanced.of_body (hb : r.IsBalanced outside)
    (h : ∀ id, (r'.resource? id).map Resource.body = (r.resource? id).map Resource.body) :
    r'.IsBalanced outside := by
  have hholdings := holdings_of_body h
  have hfrom : ∀ {x res'}, r'.resource? x = some res' →
      ∃ res, r.resource? x = some res ∧ res.body = res'.body := by
    intro x res' hx
    have hbody := h x
    rw [hx, Option.map_some] at hbody
    exact Option.map_eq_some_iff.mp hbody.symm
  refine .of_survivors (r := r) ?_ ?_ ?_
  · intro x res' hx
    obtain ⟨res, hres, heq⟩ := hfrom hx
    rw [hholdings, ← hb.counts hres]
    exact (congrArg Resource.refCount heq).symm
  · intro x hx
    rw [hholdings] at hx
    obtain ⟨res, hres⟩ := hb.live x hx
    have hbody := h x
    rw [hres, Option.map_some] at hbody
    obtain ⟨res', hres', heq⟩ := Option.map_eq_some_iff.mp hbody
    have htype : res'.body.type = res.body.type := congrArg Resource.type heq
    exact ⟨res, res', hres, hres', htype⟩
  · intro id res' schema bytes prop hid hs hprop howning
    obtain ⟨res, hres, heq⟩ := hfrom hid
    exact hb.typed hres ((congrArg Resource.storage heq).trans hs) hprop howning

/-- Nothing names the next number while numbers last. -/
theorem IsBalanced.count_nextId (hb : r.IsBalanced outside) (hw : r.WellFormed)
    (hl : r.supply.Lasts) : (outside + r.holdings).count r.supply.nextId = 0 := by
  rw [Multiset.count_eq_zero]
  intro hmem
  obtain ⟨res, hres⟩ := hb.live _ hmem
  rw [hw.resource?_nextId hl] at hres
  cases hres

end Registry

namespace Registry.IsBalanced

variable {r : Registry} {outside outside' : Multiset ResourceId} {id : ResourceId} {res : Resource}

/-- Counts may change together with the references outside. -/
theorem recount (hb : r.IsBalanced outside) (h : r.resource? id = some res)
    {f : Resource → Resource} (hf : ∀ res, (f res).storage = res.storage ∧ (f res).type = res.type)
    (hcount : (f res).refCount = (outside' + r.holdings).count id)
    (hothers : ∀ x, x ≠ id → outside'.count x = outside.count x) :
    (r.modifyResource id f).IsBalanced outside' := by
  have hlookup := resource?_modifyResource r id f
  rw [h, Option.map_some] at hlookup
  have hholdings := holdings_modifyResource r id fun res => (hf res).1
  refine .of_survivors (r := r) ?_ ?_ ?_
  · intro x res' hx
    rw [hlookup] at hx
    rw [hholdings]
    split at hx
    · rename_i heq
      cases hx
      rw [heq]
      exact hcount
    · rename_i hne
      rw [hb.counts hx, Multiset.count_add, Multiset.count_add, hothers x hne]
  · intro x hx
    rw [hlookup]
    split
    · rename_i heq
      exact ⟨res, f res, heq ▸ h, rfl, (hf res).2⟩
    · rename_i hne
      have hmem : x ∈ outside + r.holdings := by
        rw [hholdings] at hx
        rw [← Multiset.count_pos, Multiset.count_add] at hx ⊢
        rwa [← hothers x hne]
      obtain ⟨target, htarget⟩ := hb.live x hmem
      exact ⟨target, target, htarget, htarget, rfl⟩
  · intro y res' schema bytes prop hy hs hprop howning
    rw [hlookup] at hy
    split at hy
    · rename_i heq
      cases hy
      exact hb.typed (heq ▸ h) ((hf res).1 ▸ hs) hprop howning
    · exact hb.typed hy hs hprop howning

/-- What nothing names but itself may be removed: what it held is outside, its own number
apart. -/
theorem remove (hb : r.IsBalanced outside) (hw : r.WellFormed) (h : r.resource? id = some res)
    (hheld : outside' + (res.storage.heldIds.filter (· == id) : List ResourceId) =
      outside + res.storage.heldIds)
    (hout : id ∉ outside)
    (hothers : ∀ x other, r.resource? x = some other → x ≠ id → id ∉ other.storage.heldIds) :
    (r.remove res).IsBalanced outside' := by
  have hid := hw.keyed h
  have hlookup := resource?_remove res r
  rw [hid] at hlookup
  have hholdings := holdings_eq_add_remove hw h
  have hcount : ∀ x, x ≠ id →
      (outside' + (r.remove res).holdings).count x = (outside + r.holdings).count x := by
    intro x hx
    have hself : ((res.storage.heldIds.filter (· == id) : List ResourceId) :
        Multiset ResourceId).count x = 0 := by
      rw [Multiset.count_eq_zero, Multiset.mem_coe, List.mem_filter]
      exact fun hmem => hx (by simpa using hmem.2)
    have hsum := congrArg (Multiset.count x) hheld
    rw [Multiset.count_add, Multiset.count_add, hself] at hsum
    rw [hholdings, Multiset.count_add, Multiset.count_add, Multiset.count_add]
    omega
  have hgone : id ∉ outside' + (r.remove res).holdings := by
    rw [Multiset.mem_add]
    rintro (hmem | hmem)
    · have hsum := congrArg (Multiset.count id) hheld
      have hself : ((res.storage.heldIds.filter (· == id) : List ResourceId) :
          Multiset ResourceId).count id = (res.storage.heldIds : Multiset ResourceId).count id := by
        rw [Multiset.coe_count, Multiset.coe_count, List.count_filter (by simp)]
      rw [Multiset.count_add, Multiset.count_add, hself,
        Multiset.count_eq_zero_of_notMem hout] at hsum
      have := Multiset.count_pos.mpr hmem
      omega
    · obtain ⟨x, other, hother, hheld⟩ := Resources.mem_gather.mp hmem
      have hother := (hlookup x).symm.trans hother
      split at hother
      · cases hother
      · exact hothers x other hother ‹_› hheld
  refine .of_survivors (r := r) ?_ ?_ ?_
  · intro x res' hx
    rw [hlookup] at hx
    split at hx
    · cases hx
    · rw [hcount x ‹_›, hb.counts hx]
  · intro x hx
    have hne : x ≠ id := by
      rintro rfl
      exact hgone hx
    have hmem : x ∈ outside + r.holdings := by
      rw [← Multiset.count_pos, ← hcount x hne]
      exact Multiset.count_pos.mpr hx
    obtain ⟨target, htarget⟩ := hb.live x hmem
    exact ⟨target, target, htarget, by rw [hlookup, if_neg hne, htarget], rfl⟩
  · intro y res' schema bytes prop hy hs hprop howning
    rw [hlookup] at hy
    split at hy
    · cases hy
    · exact hb.typed hy hs hprop howning

/-- A new resource that holds nothing is not named by anything. -/
theorem enter (hb : r.IsBalanced outside) (hw : r.WellFormed) (hl : r.supply.Lasts) (type : String)
    {storage : Storage} (options : Options) (hblank : storage.heldIds = []) :
    (r.insert type storage options).2.IsBalanced outside := by
  have hlookup := resource?_insert r type storage options
  have hholdings := holdings_insert (hw.resource?_nextId hl) type options hblank
  refine .of_survivors (r := r) ?_ ?_ ?_
  · intro x res hx
    rw [hholdings]
    rw [hlookup] at hx
    split at hx
    · rename_i heq
      cases hx
      rw [heq, hb.count_nextId hw hl]
    · exact hb.counts hx
  · intro x hx
    rw [hholdings] at hx
    obtain ⟨target, htarget⟩ := hb.live x hx
    have hne := ne_nextId (hw.numbered htarget).2 hl
    exact ⟨target, target, htarget, by rw [hlookup, if_neg hne, htarget], rfl⟩
  · intro id res schema bytes prop hid hs hprop howning x hx
    rw [hlookup] at hid
    split at hid
    · cases hid
      subst hs
      have hmem : x ∈ schema.layout.heldIds bytes := List.mem_flatMap.mpr ⟨prop, hprop, hx⟩
      rw [show schema.layout.heldIds bytes = [] from hblank] at hmem
      cases hmem
    · exact hb.typed hid hs hprop howning x hx

/-- References move between the book and the bytes of an instance. -/
theorem store {schema : Schema} {bytes part : Bytes} {prop : Property}
    (hb : r.IsBalanced outside) (hw : r.WellFormed) (h : r.resource? id = some res)
    (hs : res.storage = .fields schema bytes) (hprop : prop ∈ schema.layout.props)
    (hpart : part.length = (prop.slice bytes).length)
    (hmoved : outside' + prop.heldIds part = outside + prop.heldIds (prop.slice bytes))
    (hadmits : r.Admits prop part) : (r.storeBytes id prop part).IsBalanced outside' := by
  have hsound := hw.sound h
  rw [hs] at hsound
  have hlookup := resource?_storeBytes h hs prop part
  have hlength := hpart.trans (hsound.1.length_slice hprop hsound.2)
  have hsum := add_holdings_storeBytes hw h hs hprop hpart hmoved
  refine .of_survivors (r := r) ?_ ?_ ?_
  · intro x res' hx
    rw [hsum]
    rw [hlookup] at hx
    split at hx
    · rename_i heq
      cases hx
      show res.refCount = _
      rw [heq]
      exact hb.counts h
    · exact hb.counts hx
  · intro x hx
    rw [hsum] at hx
    obtain ⟨target, htarget⟩ := hb.live x hx
    rw [hlookup]
    split
    · rename_i heq
      exact ⟨res, _, heq ▸ h, rfl, rfl⟩
    · exact ⟨target, target, htarget, htarget, rfl⟩
  · intro y res' schema' bytes' prop' hy hs' hprop' howning x hx
    rw [hlookup] at hy
    split at hy
    · cases hy
      cases hs'
      by_cases hne : prop = prop'
      · subst hne
        rw [hsound.1.slice_splice_self hprop hsound.2 hlength] at hx
        exact hadmits.typed howning x hx
      · rw [hsound.1.slice_splice_of_ne hprop hprop' hne hsound.2 hlength] at hx
        exact hb.typed h hs hprop' howning x hx
    · exact hb.typed hy hs' hprop' howning x hx

end Registry.IsBalanced

namespace Edit

variable {strict : Prop} {writer : ResourceId} {b b' : Book} {base : ResourceId → Nat}

theorem taken_le (h : Edit strict writer b b') : b.taken ≤ b'.taken := by
  cases h with
  | retain => exact Multiset.le_cons_self _ _
  | quiet | enter | release | drop | store | ship | remove => exact le_refl _

/-- No count grows by more than the references that are taken. -/
theorem isBounded (h : Edit strict writer b b') (hb : b.IsBounded base) : b'.IsBounded base := by
  intro x res' hx
  cases h with
  | @quiet r r' _ _ h =>
    have hbody := h.resources x
    rw [hx, Option.map_some] at hbody
    obtain ⟨res, hres, heq⟩ := Option.map_eq_some_iff.mp hbody.symm
    have hcount : res.body.refCount = res'.body.refCount := congrArg Resource.refCount heq
    exact hcount ▸ hb x res hres
  | @enter r _ _ type storage options =>
    rw [Registry.resource?_insert] at hx
    split at hx
    · cases hx
      exact Nat.zero_le _
    · exact hb x res' hx
  | @retain r _ taken id res h =>
    rw [Registry.resource?_modifyResource, h] at hx
    split at hx
    · rename_i heq
      subst heq
      cases hx
      have hbound : res.refCount ≤ base x + taken.count x := hb x res h
      have hmin : res.retained.refCount ≤ res.refCount + 1 := Nat.min_le_left _ _
      show res.retained.refCount ≤ base x + (x ::ₘ taken).count x
      rw [Multiset.count_cons_self]
      omega
    · have hbound : res'.refCount ≤ base x + taken.count x := hb x res' hx
      exact hbound.trans (Nat.add_le_add_left (Multiset.count_le_count_cons _ _ _) _)
  | @release r _ _ id res h =>
    rw [Registry.resource?_modifyResource, h] at hx
    split at hx
    · rename_i heq
      subst heq
      cases hx
      exact (Nat.sub_le _ _).trans (hb x res h)
    · exact hb x res' hx
  | drop => exact hb x res' hx
  | @store r _ _ _ res schema bytes part prop h hstorage _ _ _ _ =>
    rw [Registry.resource?_storeBytes h hstorage] at hx
    split at hx
    · rename_i heq
      subst heq
      cases hx
      exact hb x res h
    · exact hb x res' hx
  | @ship r _ _ id res k link load h _ _ _ _ =>
    have hlookup := (Registry.getElem?_insert r.resources id x _).symm.trans hx
    split at hlookup
    · rename_i heq
      subst heq
      cases hlookup
      exact hb x res h
    · exact hb x res' hlookup
  | @remove r _ _ id res h _ =>
    rw [Registry.resource?_remove] at hx
    split at hx
    · cases hx
    · exact hb x res' hx

/-- A strict change keeps the balance, if it takes no reference too many. -/
theorem isBalanced (h : Edit True writer b b') (hw : b.registry.WellFormed)
    (hl : b'.registry.supply.Lasts) (hbound : b.IsBounded base)
    (hroom : ∀ x ∈ b'.taken, base x + b'.taken.count x ≤ Resource.maxRefCount)
    (hb : b.registry.IsBalanced b.outside) : b'.registry.IsBalanced b'.outside := by
  cases h with
  | quiet h => exact hb.of_body h.resources
  | enter type options _ hblank _ => exact hb.enter hw hl.of_draw type options hblank
  | @retain r outside taken id res h =>
    have hspare : base id + (id ::ₘ taken).count id ≤ Resource.maxRefCount :=
      hroom id (Multiset.mem_cons_self _ _)
    have hcount : res.refCount ≤ base id + taken.count id := hbound id res h
    rw [Multiset.count_cons_self] at hspare
    apply hb.recount h (f := Resource.retained) (fun _ => ⟨rfl, rfl⟩)
    · rw [Multiset.cons_add, Multiset.count_cons_self, ← hb.counts h]
      show min (res.refCount + 1) _ = _
      omega
    · intro x hx
      exact Multiset.count_cons_of_ne hx _
  | @release r outside taken id res h =>
    apply hb.recount h (f := Resource.released) (fun _ => ⟨rfl, rfl⟩)
    · have hcount : res.refCount = (id ::ₘ outside + r.holdings).count id := hb.counts h
      rw [Multiset.cons_add, Multiset.count_cons_self] at hcount
      show res.refCount - 1 = (outside + r.holdings).count id
      omega
    · intro x hx
      exact (Multiset.count_cons_of_ne hx _).symm
  | @drop r outside taken id h =>
    obtain ⟨res, hres⟩ := hb.live id (Multiset.mem_add.mpr (.inl (Multiset.mem_cons_self _ _)))
    rw [h] at hres
    cases hres
  | store h hstorage hprop hpart hmoved hadmits =>
    exact hb.store hw h hstorage hprop hpart hmoved hadmits
  | @ship r outside taken id res k link load h _ _ _ _ =>
    have hcount : (outside + r.holdings).count id = res.refCount := (hb.counts h).symm
    refine (hb.recount h (f := fun res => { res with
        bindings := res.bindings ++ [(link.ship k res r.tick).1], load }) (fun _ => ⟨rfl, rfl⟩)
      hcount.symm fun _ _ => rfl).of_body fun x => ?_
    rw [Registry.resource?_modifyResource, h]
    refine congrArg (Option.map Resource.body) (Registry.getElem?_insert _ _ _ _) |>.trans ?_
    rfl
  | @remove r outside taken id res h hfree =>
    have hzero : (outside + r.holdings).count id = 0 := (hb.counts h).symm.trans (hfree trivial)
    rw [Multiset.count_eq_zero, Multiset.mem_add, not_or] at hzero
    have hnot : ∀ x other, r.resource? x = some other → id ∉ other.storage.heldIds :=
      fun x other hother hmem => hzero.2 (Resources.mem_gather.mpr ⟨x, other, hother, hmem⟩)
    apply hb.remove hw h _ hzero.1 fun x other hother _ => hnot x other hother
    have hself : res.storage.heldIds.filter (· == id) = [] := by
      rw [List.filter_eq_nil_iff]
      intro x hx heq
      rw [beq_iff_eq] at heq
      exact hnot id res h (heq ▸ hx)
    rw [hself]
    exact Multiset.add_zero _

end Edit

/-- Strict chains keep the balance, if they take no reference too many. -/
theorem Edits.isBalanced {writer : ResourceId} {r after : Registry}
    {outside outside' taken : Multiset ResourceId}
    (h : Edits True writer ⟨r, outside, 0⟩ ⟨after, outside', taken⟩) (hw : r.WellFormed)
    (hl : after.supply.Lasts)
    (hroom : ∀ x ∈ taken, r.countOf x + taken.count x ≤ Resource.maxRefCount)
    (hb : r.IsBalanced outside) : after.IsBalanced outside' := by
  have hstart : Book.IsBounded r.countOf ⟨r, outside, 0⟩ := by
    intro x res hx
    have hx : r.resource? x = some res := hx
    simp [Registry.countOf, hx]
  have hkept := h.keep (P := fun b => b.IsBounded r.countOf ∧
      ((∀ x ∈ b.taken, r.countOf x + b.taken.count x ≤ Resource.maxRefCount) →
        b.registry.IsBalanced b.outside)) hw hl ?_ ⟨hstart, fun _ => hb⟩
  · exact hkept.2.2 hroom
  · rintro b₁ b₂ hw₁ - hl₂ hstep ⟨hbound, hbalanced⟩
    refine ⟨hstep.isBounded hbound, fun hroom => hstep.isBalanced hw₁ hl₂ hbound hroom ?_⟩
    exact hbalanced fun x hx => (Nat.add_le_add_left (Multiset.count_le_of_le x hstep.taken_le) _).trans
      (hroom x (Multiset.mem_of_le hstep.taken_le hx))

end Framecast
