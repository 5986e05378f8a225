import Framecast.Proofs.Feed.Agreement
import Framecast.Proofs.Fields.Puts
import Framecast.Proofs.Fields.Typing

/-!
# What a list of references shows

A list of references holds what was last put into it, from its first slot on, and is
read up to the first zero. The number zero passes for a reference when a list is
checked, although nothing has that number. So a list is shown as it was put exactly
if no zero was put into it, and the references behind a zero are counted but not
shown.
-/

namespace Framecast

/-- Zeros come only behind all references. -/
def IsDense (ids : List ResourceId) : Prop :=
  ∃ front k, (∀ w ∈ front, w ≠ 0) ∧ ids = front ++ List.replicate k 0

/-- The references up to the first zero. -/
def leading (ids : List ResourceId) : List ResourceId := ids.takeWhile (· != 0)

section Lists

variable {ids : List ResourceId} {slot : Nat} {w : ResourceId}

/-- Zeros that follow are not among the leading references. -/
@[simp] theorem leading_append_replicate (ids : List ResourceId) (k : Nat) :
    leading (ids ++ List.replicate k 0) = leading ids := by
  unfold leading
  induction ids with
  | nil => cases k <;> rfl
  | cons w rest ih => rw [List.cons_append, List.takeWhile_cons, List.takeWhile_cons, ih]

theorem ne_zero_of_mem_leading (h : w ∈ leading ids) : w ≠ 0 := by
  simpa using List.mem_takeWhile_imp h

theorem leading_eq_self : leading ids = ids ↔ ∀ w ∈ ids, w ≠ 0 := by
  unfold leading
  rw [List.takeWhile_eq_self_iff]
  simp only [bne_iff_ne]

/-- Zeros that follow add no reference. -/
theorem getElem?_append_replicate {k : Nat} (hw : w ≠ 0) :
    (ids ++ List.replicate k 0)[slot]? = some w ↔ ids[slot]? = some w := by
  by_cases hlt : slot < ids.length
  · rw [List.getElem?_append_left hlt]
  · rw [List.getElem?_append_right (Nat.not_lt.mp hlt), List.getElem?_replicate,
      List.getElem?_eq_none (Nat.not_lt.mp hlt)]
    split <;> simp [hw.symm]

/-- References are dense if each is a leading one. -/
theorem isDense_iff : IsDense ids ↔
    ∀ (slot : Nat) w, ids[slot]? = some w → w ≠ 0 → (leading ids)[slot]? = some w := by
  constructor
  · rintro ⟨front, k, hfront, rfl⟩ slot w hslot hw
    rw [leading_append_replicate, leading_eq_self.mpr hfront]
    exact (getElem?_append_replicate hw).mp hslot
  · intro hall
    have hsplit : leading ids ++ ids.dropWhile (· != 0) = ids := List.takeWhile_append_dropWhile
    have hzero : ∀ w ∈ ids.dropWhile (· != 0), w = 0 := by
      intro w hw
      by_contra hne
      obtain ⟨j, hj⟩ := List.mem_iff_getElem?.mp hw
      have hslot : ids[(leading ids).length + j]? = some w := by
        refine (congrArg (·[(leading ids).length + j]?) hsplit).symm.trans ?_
        rw [List.getElem?_append_right (Nat.le_add_right _ _), Nat.add_sub_cancel_left]
        exact hj
      have hlead := hall _ w hslot hne
      rw [List.getElem?_eq_none (by omega)] at hlead
      cases hlead
    refine ⟨leading ids, (ids.dropWhile (· != 0)).length, fun w => ne_zero_of_mem_leading, ?_⟩
    rw [← List.eq_replicate_iff.mpr ⟨rfl, hzero⟩]
    exact hsplit.symm

/-- Zeros that follow leave dense what is dense. -/
theorem isDense_append_replicate (k : Nat) :
    IsDense (ids ++ List.replicate k 0) ↔ IsDense ids := by
  rw [isDense_iff, isDense_iff, leading_append_replicate]
  refine forall₂_congr fun slot w => ?_
  by_cases hw : w = 0
  · simp [hw]
  · rw [getElem?_append_replicate hw]

end Lists

/-- A value that a list of references accepts is a list of as many numbers as there are slots at
most. -/
theorem Property.refs_of_validate {prop : Property} {value : Value} (hkind : prop.kind = .refArray)
    (hvalid : prop.validate value = .ok ()) :
    ∃ ids : List ResourceId, value = .refs (ids.map some) ∧ ids.length ≤ prop.count := by
  obtain ⟨_, hshape, -⟩ := Layout.ok_of_bind hvalid
  unfold checkShape at hshape
  rw [hkind] at hshape
  cases value with
  | refs slots =>
    dsimp only at hshape
    split at hshape
    · cases hshape
    · rename_i hcount
      split at hshape
      · rename_i hall
        refine ⟨slots.map (·.getD 0), congrArg Value.refs ?_, by simpa using hcount⟩
        rw [List.map_map]
        refine (List.map_id slots).symm.trans (List.map_congr_left fun slot hslot => ?_)
        have hsome := List.all_eq_true.mp hall slot hslot
        cases slot with
        | none => cases hsome
        | some w => rfl
      · cases hshape
  | _ => cases hshape

/-- Reading a list goes up to the first zero. -/
theorem Marker.readRun_eq {bytes : Bytes} {n i : Nat}
    (h : ∀ j < n, bytes.word? (i + j) = some (bytes.word (i + j))) :
    readRun bytes n i = some (leading ((List.range n).map fun j => bytes.word (i + j))) := by
  induction n generalizing i with
  | zero => rfl
  | succ n ih =>
    have hrest := @ih (i + 1) fun j hj => by
      have hj' := h (j + 1) (by omega)
      rwa [← Nat.add_assoc, Nat.add_right_comm i j 1] at hj'
    have hword : bytes.word? i = some (bytes.word i) := h 0 (Nat.succ_pos n)
    unfold readRun
    rw [hword, hrest, List.range_succ_eq_map]
    dsimp only
    unfold leading
    rw [List.map_cons, List.takeWhile_cons]
    by_cases hw : bytes.word i = 0
    · simp [hw]
    · simp [hw, Function.comp_def, Nat.add_assoc, Nat.add_comm 1]

/-- Stored words are shown as references up to the first zero. -/
theorem Registry.takeWhile_map_idAt (words : List UInt32) :
    (words.map idAt).takeWhile Option.isSome = (leading words).map some := by
  unfold leading
  induction words with
  | nil => rfl
  | cons w rest ih =>
    rw [List.map_cons, List.takeWhile_cons, List.takeWhile_cons, ih]
    by_cases hw : w = 0
    · simp [idAt, hw]
    · simp [idAt, hw]

/-- Whether a list of references shows, to the host and to a typed reader, what is in one of its
slots. A typed reader skips what is not there any more. -/
def Registry.ShowsRef (r : Registry) (x : ResourceId) (layout : Layout) (prop : Property)
    (slot : Nat) (w : ResourceId) : Prop :=
  (∃ shown, r.getProp x prop.name = .ok (.refs shown) ∧ shown[slot]? = some (some w)) ∧
    ((r.resource? w).isSome → ∃ target handles, prop.target? = some target ∧
      r.view.readProp x layout prop.name (.refArray target prop.count) =
        .ok (some (.handles handles)) ∧ w ∈ handles)

/-- What the numbers `ids`, put last into a list of references, come to. -/
structure Registry.Lists (r : Registry) (x : ResourceId) (layout : Layout) (prop : Property)
    (part : Bytes) (ids : List ResourceId) : Prop where
  /-- They fit. -/
  fits : ids.length ≤ prop.count
  /-- They are stored from the first slot on, and zeros behind them. -/
  stored : prop.words part = padded prop.count ids
  /-- What is stored is as dense as they are. -/
  dense : IsDense (prop.words part) ↔ IsDense ids
  /-- The host is shown those before the first zero. -/
  shown : r.getProp x prop.name = .ok (.refs ((leading ids).map some))
  /-- The host is shown all of them exactly if there is no zero among them. -/
  whole : r.getProp x prop.name = .ok (.refs (ids.map some)) ↔ ∀ w ∈ ids, w ≠ 0
  /-- A typed reader is shown those before the first zero that are there. -/
  resolved : ∃ target, prop.target? = some target ∧
    r.view.readProp x layout prop.name (.refArray target prop.count) =
      .ok (some (.handles ((leading ids).filter fun w => (r.resource? w).isSome)))
  /-- Every reference that is held is shown exactly if they are dense. -/
  visible : IsDense ids ↔
    ∀ slot w, (slot, w) ∈ prop.refSlots part → w ≠ 0 → r.ShowsRef x layout prop slot w

/-- Lists of references own what they refer to. -/
theorem Property.isOwningRef_of_refArray {prop : Property} (hprop : prop.IsSound)
    (hkind : prop.kind = .refArray) : prop.isOwningRef = true := by
  unfold isOwningRef
  cases hback : prop.backRef with
  | false => rw [hkind]; rfl
  | true =>
    have href := hprop.backRef hback
    rw [hkind] at href
    cases href

/-- The slots of an owning reference are numbered words. -/
theorem Property.mem_refSlots {prop : Property} (howning : prop.isOwningRef = true) {part : Bytes}
    {slot : Nat} {w : ResourceId} :
    (slot, w) ∈ prop.refSlots part ↔ (prop.words part)[slot]? = some w := by
  obtain ⟨href, -⟩ := Bool.and_eq_true_iff.mp howning
  obtain ⟨-, hstring, hbuffer⟩ := Kind.of_isReference href
  unfold refSlots words
  split
  · exact absurd ‹_› hstring
  · exact absurd ‹_› hbuffer
  · rw [if_pos howning, List.getElem?_map]
    by_cases hslot : slot < prop.count
    · simp [hslot]
    · simp [hslot]

namespace Registry

variable {r : Registry} {x : ResourceId} {res : Resource} {schema : Schema} {bytes : Bytes}
  {prop : Property} {ids : List ResourceId}

/-- References to what has the declared type are resolved as far as they lead anywhere. -/
theorem filterMap_resolve? {target : String} (htarget : prop.target? = some target)
    (hids : ∀ w ∈ ids, w ≠ 0)
    (htyped : ∀ w ∈ ids, ∀ found, r.resource? w = some found → prop.target? = some found.type) :
    ids.filterMap (r.view.resolve? target) = ids.filter fun w => (r.resource? w).isSome := by
  rw [← List.filterMap_eq_filter]
  refine List.filterMap_congr fun w hw => ?_
  unfold View.resolve? Option.guard
  rw [if_neg (hids w hw)]
  show (if (r.resource? w).map Resource.type = some target then some w else none) = _
  cases hfound : r.resource? w with
  | none => simp [hfound]
  | some found =>
    have htype := htyped w hw found hfound
    rw [htarget] at htype
    simp [hfound, Option.some.inj htype]

/-- The host is shown the words of a list up to the first zero. -/
theorem getProp_refArray (hw : r.WellFormed) (hres : r.resource? x = some res)
    (hstorage : res.storage = .fields schema bytes) (hprop : prop ∈ schema.layout.props)
    (hkind : prop.kind = .refArray) :
    r.getProp x prop.name = .ok (.refs ((leading (prop.words (prop.slice bytes))).map some)) := by
  have hsound := hw.sound hres
  rw [hstorage] at hsound
  have hplain : prop.plainValue? (prop.slice bytes) = none := by
    unfold Property.plainValue?
    rw [hkind]
  unfold getProp valueOf
  simp only [hres, hstorage, hsound.1.prop?_of_mem hprop, hplain, hkind, takeWhile_map_idAt]

/-- A typed reader is shown the words of a list up to the first zero, without those that lead
nowhere any more. -/
theorem readProp_refArray (hw : r.WellFormed) (ht : r.IsTyped) (hres : r.resource? x = some res)
    (hstorage : res.storage = .fields schema bytes) (hprop : prop ∈ schema.layout.props)
    (hkind : prop.kind = .refArray) {target : String} (htarget : prop.target? = some target) :
    r.view.readProp x schema.layout prop.name (.refArray target prop.count) =
      .ok (some (.handles ((leading (prop.words (prop.slice bytes))).filter
        fun w => (r.resource? w).isSome))) := by
  have hsound := hw.sound hres
  rw [hstorage] at hsound
  have hown := hsound.1.sound prop hprop
  have howning := Property.isOwningRef_of_refArray hown hkind
  have htyped : ∀ w ∈ leading (prop.words (prop.slice bytes)), ∀ found,
      r.resource? w = some found → prop.target? = some found.type := by
    intro w hw
    refine (ht x res hres schema bytes hstorage prop hprop howning w ?_).2
    rw [prop.heldIds_of_isHolder hown (.inr howning), List.mem_filter]
    exact ⟨(List.takeWhile_sublist _).subset hw, by simpa using ne_zero_of_mem_leading hw⟩
  have hrun : Marker.readRun (prop.slice bytes) prop.count 0 =
      some (leading (prop.words (prop.slice bytes))) := by
    rw [Marker.readRun_eq fun j hj =>
      hsound.1.word?_slice hprop hsound.2 (by rwa [Nat.zero_add])]
    simp only [Nat.zero_add]
    rfl
  rw [readProp_eq hw hres hstorage (hsound.1.prop?_of_mem hprop)]
  unfold Marker.read?
  dsimp only
  rw [hrun, Option.map_some, filterMap_resolve? htarget (fun w => ne_zero_of_mem_leading) htyped]

/-- What is stored in a list is shown up to the first zero. -/
theorem lists_of_words (hw : r.WellFormed) (ht : r.IsTyped) (hres : r.resource? x = some res)
    (hstorage : res.storage = .fields schema bytes) (hprop : prop ∈ schema.layout.props)
    (hkind : prop.kind = .refArray) (hfits : ids.length ≤ prop.count)
    (hwords : prop.words (prop.slice bytes) = padded prop.count ids) :
    r.Lists x schema.layout prop (prop.slice bytes) ids := by
  have hsound := hw.sound hres
  rw [hstorage] at hsound
  have hown := hsound.1.sound prop hprop
  have howning := Property.isOwningRef_of_refArray hown hkind
  have hpadded := hwords.trans (padded_eq hfits)
  have hread := getProp_refArray hw hres hstorage hprop hkind
  obtain ⟨target, htarget⟩ := Option.isSome_iff_exists.mp (hown.target (by rw [hkind]; rfl))
  have hhandles := readProp_refArray hw ht hres hstorage hprop hkind htarget
  rw [hpadded, leading_append_replicate] at hread hhandles
  have hslots {slot : Nat} {w : ResourceId} (hw : w ≠ 0) :
      (slot, w) ∈ prop.refSlots (prop.slice bytes) ↔ ids[slot]? = some w := by
    rw [Property.mem_refSlots howning, hpadded, getElem?_append_replicate hw]
  refine ⟨hfits, hwords, by rw [hpadded, isDense_append_replicate], hread, ?_,
    ⟨target, htarget, hhandles⟩, isDense_iff.trans ⟨fun hall slot w hslot hw => ?_,
      fun hall slot w hslot hw => ?_⟩⟩
  · rw [hread, ← leading_eq_self]
    constructor
    · intro heq
      exact List.map_injective_iff.mpr (Option.some_injective _)
        (Value.refs.inj (Except.ok.inj heq))
    · exact fun heq => by rw [heq]
  · have hlead := hall slot w ((hslots hw).mp hslot) hw
    exact ⟨⟨_, hread, by rw [List.getElem?_map, hlead]; rfl⟩, fun hlive =>
      ⟨target, _, htarget, hhandles, List.mem_filter.mpr ⟨List.mem_of_getElem? hlead, hlive⟩⟩⟩
  · obtain ⟨⟨shown, hshown, hat⟩, -⟩ := hall slot w ((hslots hw).mpr hslot) hw
    rw [hread] at hshown
    cases hshown
    rw [List.getElem?_map, Option.map_eq_some_iff] at hat
    obtain ⟨_, hat, heq⟩ := hat
    rwa [Option.some.inj heq] at hat

end Registry

namespace Run

variable {config : Config} {supply : Supply} {past : List Moment} {b : Broadcast}

/-- Whatever was done, a list of references holds what was last put into it and shows what comes
before the first zero. So it is dense, and shows every reference that it holds, exactly if what was
put into it is dense. -/
theorem lists_last (h : Run (.opened config supply) past b)
    (hc : ∀ m ∈ past, m.action.IsCompiled) (hl : b.registry.supply.Lasts) {x : ResourceId}
    {res : Resource} {schema : Schema} {bytes : Bytes} {prop : Property}
    (hres : b.registry.resource? x = some res) (hstorage : res.storage = .fields schema bytes)
    (hprop : prop ∈ schema.layout.props) (hkind : prop.kind = .refArray) :
    (lastPut? x prop.name past = none ∧ lastIds x prop.name past = [] ∨
        lastPut? x prop.name past = some (.refs ((lastIds x prop.name past).map some))) ∧
      b.registry.Lists x schema.layout prop (prop.slice bytes) (lastIds x prop.name past) := by
  have hw := h.wellFormed hc hl
  have hsound := hw.sound hres
  rw [hstorage] at hsound
  have howning := Property.isOwningRef_of_refArray (hsound.1.sound prop hprop) hkind
  obtain ⟨hwords, hvalid⟩ := h.words_owning hc hl hres hstorage hprop howning
  have hput : (lastPut? x prop.name past = none ∧ lastIds x prop.name past = [] ∨
      lastPut? x prop.name past = some (.refs ((lastIds x prop.name past).map some))) ∧
        (lastIds x prop.name past).length ≤ prop.count := by
    unfold lastIds
    cases hlast : lastPut? x prop.name past with
    | none => exact ⟨.inl ⟨rfl, rfl⟩, Nat.zero_le _⟩
    | some value =>
      obtain ⟨ids, rfl, hcount⟩ := Property.refs_of_validate hkind (hvalid value hlast)
      have hids : (Value.refs (ids.map some)).slotIds = ids := by
        show (ids.map some).map (·.getD 0) = ids
        rw [List.map_map]
        exact List.map_id ids
      rw [Option.map_some, Option.getD_some, hids]
      exact ⟨.inr rfl, hcount⟩
  exact ⟨hput.1,
    Registry.lists_of_words hw (h.isTyped hc hl) hres hstorage hprop hkind hput.2 hwords⟩

end Run

namespace Samples

/-- What is declared of the links of a hub: a list of at most two hubs. -/
def linksDeclared : Declaration := { Declaration.refArray "links" "hub" 2 with isMutable := true }

/-- The links of a hub. -/
def links : Property := linksDeclared.place 0

/-- The layout of a hub. -/
def hub : Layout := ⟨"hub", [links], 8⟩

theorem isCompiled_hub : hub.IsCompiled := by
  refine ⟨"hub", [linksDeclared], ?_, by decide +kernel⟩
  intro d hd n hn
  obtain rfl := List.mem_singleton.mp hd
  cases hn

/-- Two hubs, of which the second is then given links. -/
def linked (ids : List ResourceId) : List Moment × Broadcast :=
  (Broadcast.opened ⟨.game, 4⟩ ⟨0, .initial⟩).play
    [.createInstance ⟨0, hub⟩ [] {}, .createInstance ⟨0, hub⟩ [] {},
      .setProp 2 "links" (.refs (ids.map some))]

theorem isCompiled_linked (ids : List ResourceId) : ∀ m ∈ (linked ids).1, m.action.IsCompiled := by
  refine Broadcast.isCompiled_play _ fun action h => ?_
  simp only [List.mem_cons, List.not_mem_nil, or_false] at h
  rcases h with rfl | rfl | rfl
  · exact isCompiled_hub
  · exact isCompiled_hub
  · trivial

/-- A link to the first hub is shown as it was put. -/
theorem lists_last_linked : ∃ res bytes, (linked [1]).2.registry.resource? 2 = some res ∧
    res.storage = .fields ⟨0, hub⟩ bytes ∧
    (linked [1]).2.registry.Lists 2 hub links (links.slice bytes) [1] := by
  have hhub : ((linked [1]).2.registry.resource? 2).map Resource.storage =
      some (.fields ⟨0, hub⟩ [1, 0, 0, 0, 0, 0, 0, 0]) := by decide +kernel
  have hids : lastIds 2 links.name (linked [1]).1 = [1] := by decide +kernel
  have hlasts : (linked [1]).2.registry.supply.Lasts := by decide +kernel
  obtain ⟨res, hres, hstorage⟩ := Option.map_eq_some_iff.mp hhub
  have hrun : Run (.opened ⟨.game, 4⟩ ⟨0, .initial⟩) (linked [1]).1 (linked [1]).2 := .play _ _
  have hlists := (Run.lists_last hrun (isCompiled_linked [1]) hlasts hres hstorage
    (List.mem_singleton_self links) rfl).2
  rw [hids] at hlists
  exact ⟨res, _, hres, hstorage, hlists⟩

/-- Behind a zero, the same link is accepted, stored and counted, but shown neither to the host nor
to a typed reader. -/
theorem links_hidden : Run (.opened ⟨.game, 4⟩ ⟨0, .initial⟩) (linked [0, 1]).1 (linked [0, 1]).2 ∧
    ∃ res first bytes, (linked [0, 1]).2.registry.resource? 2 = some res ∧
    res.storage = .fields ⟨0, hub⟩ bytes ∧
    links.validate (.refs [some 0, some 1]) = .ok () ∧
    lastPut? 2 links.name (linked [0, 1]).1 = some (.refs [some 0, some 1]) ∧
    links.words (links.slice bytes) = [0, 1] ∧ ¬IsDense (links.words (links.slice bytes)) ∧
    (linked [0, 1]).2.registry.resource? 1 = some first ∧ first.refCount = 1 ∧
    (linked [0, 1]).2.registry.getProp 2 links.name = .ok (.refs []) ∧
    (linked [0, 1]).2.registry.view.readProp 2 hub links.name (.refArray "hub" 2) =
      .ok (some (.handles [])) := by
  have hhub : ((linked [0, 1]).2.registry.resource? 2).map Resource.storage =
      some (.fields ⟨0, hub⟩ [0, 0, 0, 0, 1, 0, 0, 0]) := by decide +kernel
  have hfirst : ((linked [0, 1]).2.registry.resource? 1).map Resource.refCount = some 1 := by
    decide +kernel
  obtain ⟨res, hres, hstorage⟩ := Option.map_eq_some_iff.mp hhub
  obtain ⟨first, hone, hcount⟩ := Option.map_eq_some_iff.mp hfirst
  have hwords : links.words (links.slice [0, 0, 0, 0, 1, 0, 0, 0]) = [0, 1] := by decide +kernel
  have hgap : ¬IsDense [0, 1] := by
    intro hdense
    have hlead := isDense_iff.mp hdense 1 1 rfl (by decide)
    cases hlead
  exact ⟨.play _ _, res, first, _, hres, hstorage, by decide +kernel, by decide +kernel, hwords,
    hwords ▸ hgap, hone, hcount, by decide +kernel, by decide +kernel⟩

end Samples

end Framecast
