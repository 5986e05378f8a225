import Framecast.Proofs.Registry.Resources

/-!
# Who keeps a resource alive

The retainers of a resource are gathered instance by instance, property by property and
slot by slot, and then sorted. Every slot that stores the number of the resource is found
once: instances have different numbers, the properties of a layout have different names,
and a property has each of its slots once. So the order in which the slots are listed is
strict, and it does not depend on the order in which the instances are looked at.
-/

namespace Framecast

/-- The slots of a property that store the number of a resource. -/
inductive Property.Stores (p : Property) (part : Bytes) (id : ResourceId) : Nat → Prop
  /-- A text is the number that it was interned under. -/
  | text (hkind : p.kind = .string) (h : part.word 0 = id) : p.Stores part id 0
  /-- A raw buffer has its number behind its length and its mutability. -/
  | buffer (hkind : p.kind = .arrayBuffer) (h : part.word 2 = id) : p.Stores part id 0
  /-- Each element of a reference is a number, unless the reference points backwards. -/
  | element (hkind : p.kind.isReference = true) (hback : p.backRef = false) {slot : Nat}
    (hslot : slot < p.count) (h : part.word slot = id) : p.Stores part id slot

/-- Whether the slot that a retainer names stores the number of a resource. -/
def Registry.Retains (r : Registry) (id : ResourceId) (one : Retainer) : Prop :=
  ∃ res schema bytes prop, r.resource? one.holder = some res ∧
    res.storage = .fields schema bytes ∧ prop ∈ schema.layout.props ∧ one.type = res.type ∧
      one.prop = prop.name ∧ prop.Stores (prop.slice bytes) id one.slot

namespace Retainer

/-- Where a retainer is: its holder, its property and its slot. -/
def place (one : Retainer) : ResourceId × String × Nat := (one.holder, one.prop, one.slot)

/-- Whether a retainer comes before another: by its holder, then by the name of its property, then
by its slot. -/
def Before (a b : Retainer) : Prop :=
  a.holder < b.holder ∨ a.holder = b.holder ∧
    (a.prop < b.prop ∨ a.prop = b.prop ∧ a.slot < b.slot)

variable {a b : Retainer}

instance : Decidable (a.Before b) :=
  inferInstanceAs (Decidable (a.holder < b.holder ∨ a.holder = b.holder ∧
    (a.prop < b.prop ∨ a.prop = b.prop ∧ a.slot < b.slot)))

instance : Std.TransCmp order :=
  inferInstanceAs (Std.TransCmp (compareLex (compareOn holder)
    (compareLex (compareOn prop) (compareOn slot))))

/-- A retainer comes before another if it is less in the order of the list. -/
theorem order_eq_lt_iff : order a b = .lt ↔ a.Before b := by
  have hprop : compare a.prop b.prop = .lt ↔ a.prop < b.prop := compareOfLessAndEq_eq_lt
  unfold order Before
  rw [Ordering.then_eq_lt, Ordering.then_eq_lt, Std.compare_eq_lt, hprop, Std.compare_eq_lt,
    Std.LawfulEqOrd.compare_eq_iff_eq, Std.LawfulEqOrd.compare_eq_iff_eq]

/-- Retainers in one place are level in the order of the list. -/
theorem order_eq_eq_iff : order a b = .eq ↔ a.place = b.place := by
  unfold order place
  rw [Ordering.then_eq_eq, Ordering.then_eq_eq, Std.LawfulEqOrd.compare_eq_iff_eq,
    Std.LawfulEqOrd.compare_eq_iff_eq, Std.LawfulEqOrd.compare_eq_iff_eq, Prod.mk.injEq,
    Prod.mk.injEq]

/-- Of two retainers in different places, the one that is listed first comes before the other. -/
theorem before_of_le (hle : le a b = true) (hne : a.place ≠ b.place) : a.Before b := by
  rcases Ordering.isLE_iff_eq_lt_or_eq_eq.mp hle with hlt | heq
  · exact order_eq_lt_iff.mp hlt
  · exact absurd (order_eq_eq_iff.mp heq) hne

/-- What comes before another is in another place. -/
theorem Before.ne (h : a.Before b) : a.place ≠ b.place := by
  intro heq
  have hlt := order_eq_lt_iff.mpr h
  rw [order_eq_eq_iff.mpr heq] at hlt
  cases hlt

/-- Of two retainers, at most one comes before the other. -/
theorem Before.asymm (h : a.Before b) : ¬b.Before a := by
  intro h'
  have hgt := Std.OrientedCmp.gt_of_lt (order_eq_lt_iff.mpr h)
  rw [order_eq_lt_iff.mpr h'] at hgt
  cases hgt

/-- Of two retainers, one is listed no later than the other. -/
theorem le_total (a b : Retainer) : (le a b || le b a) = true := by
  have hswap : order b a = (order a b).swap := Std.OrientedCmp.eq_swap
  unfold le
  rw [hswap]
  cases order a b <;> rfl

/-- Sorting retainers in different places puts each before all that follow. -/
theorem pairwise_mergeSort {listed : List Retainer}
    (h : listed.Pairwise fun a b => a.place ≠ b.place) :
    (listed.mergeSort le).Pairwise Before := by
  have hsorted : (listed.mergeSort le).Pairwise fun a b => le a b = true :=
    List.pairwise_mergeSort (fun _ _ _ => Std.TransCmp.isLE_trans) le_total listed
  have hplaces : (listed.mergeSort le).Pairwise fun a b => a.place ≠ b.place :=
    ((List.mergeSort_perm _ _).pairwise_iff Ne.symm).mpr h
  exact hsorted.imp₂ (fun _ _ => before_of_le) hplaces

end Retainer

namespace Property

variable {p : Property} {part storage : Bytes} {slot : Nat} {id : ResourceId}

/-- What a property may hold is what its slots store. -/
theorem mem_refSlots_iff : (slot, id) ∈ p.refSlots part ↔ p.Stores part id slot := by
  unfold refSlots
  split
  · rename_i hkind
    rw [List.mem_singleton, Prod.mk.injEq]
    constructor
    · rintro ⟨rfl, rfl⟩
      exact .text hkind rfl
    · rintro (⟨_, rfl⟩ | ⟨hother, _⟩ | ⟨hother, _, _, _⟩)
      · exact ⟨rfl, rfl⟩
      · cases hkind.symm.trans hother
      · rw [hkind] at hother
        cases hother
  · rename_i hkind
    rw [List.mem_singleton, Prod.mk.injEq]
    constructor
    · rintro ⟨rfl, rfl⟩
      exact .buffer hkind rfl
    · rintro (⟨hother, _⟩ | ⟨_, rfl⟩ | ⟨hother, _, _, _⟩)
      · cases hkind.symm.trans hother
      · exact ⟨rfl, rfl⟩
      · rw [hkind] at hother
        cases hother
  · rename_i htext hbuffer
    have howning : p.isOwningRef = true ↔ p.kind.isReference = true ∧ p.backRef = false := by
      unfold isOwningRef
      rw [Bool.and_eq_true, Bool.not_eq_true']
    constructor
    · intro hmem
      split at hmem
      · rename_i hown
        obtain ⟨i, hi, heq⟩ := List.mem_map.mp hmem
        obtain ⟨rfl, rfl⟩ := Prod.mk.inj heq
        obtain ⟨hkind, hback⟩ := howning.mp hown
        exact .element hkind hback (List.mem_range.mp hi) rfl
      · cases hmem
    · rintro (⟨hkind, _⟩ | ⟨hkind, _⟩ | ⟨hkind, hback, hslot, rfl⟩)
      · exact (htext hkind).elim
      · exact (hbuffer hkind).elim
      · rw [if_pos (howning.mpr ⟨hkind, hback⟩)]
        exact List.mem_map_of_mem (List.mem_range.mpr hslot)

/-- Each slot of a property is looked at once. -/
theorem pairwise_refSlots (p : Property) (part : Bytes) :
    (p.refSlots part).Pairwise fun a b => a.1 ≠ b.1 := by
  unfold refSlots
  split
  · exact List.pairwise_singleton _ _
  · exact List.pairwise_singleton _ _
  · split
    · exact List.pairwise_map.mpr List.nodup_range
    · exact .nil

/-- What a property holds is what its slots store, but for zeros. -/
theorem mem_heldRefs {one : HeldRef} :
    one ∈ p.heldRefs storage ↔
      one.prop = p ∧ one.id ≠ 0 ∧ p.Stores (p.slice storage) one.id one.slot := by
  unfold heldRefs
  rw [List.mem_map]
  constructor
  · rintro ⟨⟨slot, id⟩, hmem, rfl⟩
    obtain ⟨hslot, hid⟩ := List.mem_filter.mp hmem
    exact ⟨rfl, by simpa using hid, mem_refSlots_iff.mp hslot⟩
  · obtain ⟨prop, slot, id⟩ := one
    rintro ⟨rfl, hid, hslot⟩
    exact ⟨(slot, id), List.mem_filter.mpr ⟨mem_refSlots_iff.mpr hslot, by simpa using hid⟩, rfl⟩

theorem pairwise_heldRefs (p : Property) (storage : Bytes) :
    (p.heldRefs storage).Pairwise fun a b => a.slot ≠ b.slot :=
  List.pairwise_map.mpr ((p.pairwise_refSlots _).filter _)

end Property

/-- An instance holds something in each slot of each of its properties once. -/
theorem Layout.pairwise_heldRefs {layout : Layout}
    (hnames : layout.props.Pairwise fun p q => p.name ≠ q.name) (storage : Bytes) :
    (layout.heldRefs storage).Pairwise fun a b =>
      (a.prop.name, a.slot) ≠ (b.prop.name, b.slot) := by
  refine List.pairwise_flatMap.mpr ⟨fun p _ => ?_, hnames.imp fun {p q} hne a ha b hb heq => ?_⟩
  · exact (p.pairwise_heldRefs storage).imp fun hne heq => hne (Prod.mk.inj heq).2
  · obtain ⟨rfl, -⟩ := Property.mem_heldRefs.mp ha
    obtain ⟨rfl, -⟩ := Property.mem_heldRefs.mp hb
    exact hne (Prod.mk.inj heq).1

namespace Registry

variable {r : Registry} {id : ResourceId} {res : Resource} {one : Retainer}

/-- The slots through which a resource keeps another alive are those that store its number. -/
theorem mem_retainersIn (hid : id ≠ 0) :
    one ∈ retainersIn id res ↔ one.holder = res.id ∧ ∃ schema bytes prop,
      res.storage = .fields schema bytes ∧ prop ∈ schema.layout.props ∧ one.type = res.type ∧
        one.prop = prop.name ∧ prop.Stores (prop.slice bytes) id one.slot := by
  unfold retainersIn
  rw [List.mem_map]
  constructor
  · rintro ⟨held, hmem, rfl⟩
    obtain ⟨hheld, heq⟩ := List.mem_filter.mp hmem
    obtain rfl : held.id = id := by simpa using heq
    cases hstorage : res.storage with
    | payload p =>
      rw [hstorage] at hheld
      cases hheld
    | fields schema bytes =>
      rw [hstorage] at hheld
      obtain ⟨prop, hprop, hheld⟩ := List.mem_flatMap.mp hheld
      obtain ⟨rfl, -, hstores⟩ := Property.mem_heldRefs.mp hheld
      exact ⟨rfl, schema, bytes, _, rfl, hprop, rfl, rfl, hstores⟩
  · rintro ⟨hholder, schema, bytes, prop, hstorage, hprop, htype, hname, hstores⟩
    obtain ⟨holder, type, name, slot⟩ := one
    obtain rfl : holder = res.id := hholder
    obtain rfl : type = res.type := htype
    obtain rfl : name = prop.name := hname
    refine ⟨⟨prop, slot, id⟩, List.mem_filter.mpr ⟨?_, by simp⟩, rfl⟩
    rw [hstorage]
    exact List.mem_flatMap.mpr ⟨prop, hprop, Property.mem_heldRefs.mpr ⟨rfl, hid, hstores⟩⟩

/-- The slots through which one resource keeps another alive are in different places. -/
theorem pairwise_retainersIn
    (hnames : ∀ schema bytes, res.storage = .fields schema bytes →
      schema.layout.props.Pairwise fun p q => p.name ≠ q.name) (id : ResourceId) :
    (retainersIn id res).Pairwise fun a b => a.place ≠ b.place := by
  unfold retainersIn
  refine List.pairwise_map.mpr (List.Pairwise.filter _ ?_)
  cases hstorage : res.storage with
  | payload p => exact .nil
  | fields schema bytes =>
    exact (Layout.pairwise_heldRefs (hnames schema bytes hstorage) bytes).imp
      fun hne heq => hne (Prod.mk.inj heq).2

/-- What a list of the retainers of a resource is to be. -/
structure ListsRetainers (r : Registry) (id : ResourceId) : Prop where
  /-- It names the slots of live instances that store the number of the resource, and no others. -/
  exact : ∀ one, one ∈ r.retainers id ↔ r.Retains id one
  /-- No slot is named twice. -/
  once : ((r.retainers id).map Retainer.place).Nodup
  /-- Each retainer comes before all that follow it in the list. -/
  increasing : (r.retainers id).Pairwise Retainer.Before
  /-- In whatever order the live resources are looked at, the list is the same. -/
  unordered : ∀ listed : List Resource, listed.Perm r.live →
    (listed.flatMap (retainersIn id)).mergeSort Retainer.le = r.retainers id

/-- Live resources that are listed in any order have different numbers. -/
theorem pairwise_id_live (hkeyed : r.IsKeyed) : r.live.Pairwise fun a b => a.id ≠ b.id := by
  unfold live
  refine List.pairwise_map.mpr ?_
  refine r.resources.distinct_keys_toList.imp_of_mem fun {a b} ha hb hne => ?_
  have hid {entry : ResourceId × Resource} (h : entry ∈ r.resources.toList) :
      entry.2.id = entry.1 :=
    hkeyed _ _ (Std.TreeMap.mem_toList_iff_getElem?_eq_some.mp h)
  rw [hid ha, hid hb]
  exact fun heq => hne (Std.LawfulEqOrd.compare_eq_iff_eq.mpr heq)

/-- Where resources are entered under their own numbers and properties have different names, the
retainers of every number but zero are listed. -/
theorem listsRetainers (hkeyed : r.IsKeyed)
    (hnames : ∀ x res schema bytes, r.resource? x = some res → res.storage = .fields schema bytes →
      schema.layout.props.Pairwise fun p q => p.name ≠ q.name) (hid : id ≠ 0) :
    r.ListsRetainers id := by
  have hplaces : (r.live.flatMap (retainersIn id)).Pairwise fun a b => a.place ≠ b.place := by
    refine List.pairwise_flatMap.mpr ⟨fun res hres => ?_,
      (pairwise_id_live hkeyed).imp fun {a b} hne x hx y hy heq => ?_⟩
    · obtain ⟨x, hres⟩ := mem_live.mp hres
      exact pairwise_retainersIn (fun schema bytes => hnames x res schema bytes hres) id
    · rw [← ((mem_retainersIn hid).mp hx).1, ← ((mem_retainersIn hid).mp hy).1] at hne
      exact hne (Prod.mk.inj heq).1
  have hincreasing := Retainer.pairwise_mergeSort hplaces
  constructor
  · intro one
    unfold retainers
    rw [List.mem_mergeSort, List.mem_flatMap]
    constructor
    · rintro ⟨res, hres, hone⟩
      obtain ⟨x, hres⟩ := mem_live.mp hres
      obtain ⟨hholder, schema, bytes, prop, h⟩ := (mem_retainersIn hid).mp hone
      rw [hkeyed x res hres] at hholder
      exact ⟨res, schema, bytes, prop, hholder ▸ hres, h⟩
    · rintro ⟨res, schema, bytes, prop, hres, h⟩
      exact ⟨res, mem_live.mpr ⟨_, hres⟩, (mem_retainersIn hid).mpr
        ⟨(hkeyed _ _ hres).symm, schema, bytes, prop, h⟩⟩
  · exact List.pairwise_map.mpr (hincreasing.imp Retainer.Before.ne)
  · exact hincreasing
  · intro listed hlisted
    have hperm := hlisted.flatMap_right (retainersIn id)
    have hsorted := Retainer.pairwise_mergeSort ((hperm.pairwise_iff Ne.symm).mpr hplaces)
    exact List.Perm.eq_of_pairwise (fun _ _ _ _ h h' => (h.asymm h').elim) hsorted hincreasing
      ((List.mergeSort_perm _ _).trans (hperm.trans (List.mergeSort_perm _ _).symm))

end Registry

end Framecast
