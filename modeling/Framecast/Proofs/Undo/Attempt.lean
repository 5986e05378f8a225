import Framecast.Proofs.Accounts.Operations
import Framecast.Proofs.Undo.Trial

/-!
# Writes to an instance on trial

A write to an instance that is being filled leaves it on trial, or it fails and
changes nothing. All that is asked is that what was there before and gets a
reference has one already: such a resource is never without a reference, so no
release on the way takes it for abandoned. Then a creation that fails leaves the
registry as it was.
-/

namespace Framecast

namespace Registry

/-- The resources that a value refers to: those that it names, or the one that its text is known
as. -/
def namedBy (r : Registry) : Value → List ResourceId
  | .text s => (r.cached? stringType (some (.text s))).toList
  | value => targetsOf value

/-- What a value names, it refers to. -/
theorem mem_namedBy {r : Registry} {value : Value} {x : ResourceId} (h : x ∈ targetsOf value) :
    x ∈ r.namedBy value := by
  cases value with
  | text s => cases h
  | bool | word | float | floats | ref | refs | buffer => exact h

/-- Whether somebody has a reference on every resource that a value refers to. -/
def Sustains (r : Registry) (value : Value) : Prop :=
  ∀ x ∈ r.namedBy value, ∀ res ∈ r.resource? x, 0 < res.refCount

instance (r : Registry) (value : Value) : Decidable (r.Sustains value) :=
  -- named, since trying out every number is an instance too
  List.decidableBAll (fun x => ∀ res ∈ r.resource? x, 0 < res.refCount) _

/-- The count of a resource is what its look-up finds. -/
theorem countOf_of_some {r : Registry} {x : ResourceId} {res : Resource}
    (h : r.resource? x = some res) : r.countOf x = res.refCount := by
  unfold countOf
  rw [h]
  rfl

namespace Trial

variable {r s : Registry} {id x : ResourceId} {schema : Schema} {prop : Property} {value : Value}
  {loose : List ResourceId}

/-- What is live, was there before, and is referred to, has a reference. -/
theorem countOf_pos (h : r.Trial s id schema 0 loose) (hheld : r.Sustains value)
    (hnamed : x ∈ r.namedBy value) (hold : x.toNat ≤ r.supply.issued) {res : Resource}
    (hres : s.resource? x = some res) : 0 < r.countOf x := by
  obtain ⟨_, _, _, _, _, hlends⟩ := h.found
  have hlent := hlends.old hold
  rw [hres] at hlent
  obtain ⟨base, hbase, -⟩ := Option.map_eq_some_iff.mp hlent.symm
  rw [countOf_of_some hbase]
  exact hheld x hnamed base hbase

/-- A text that is known is not the instance. Either it is new, or it was known before. -/
theorem of_cached (h : r.Trial s id schema 0 loose) {text : String}
    (hcached : s.cached? stringType (some (.text text)) = some x) :
    x ≠ id ∧ (x.toNat ≤ r.supply.issued → x ∈ r.namedBy (.text text)) := by
  obtain ⟨front, hfront, hfresh⟩ := h.overlays.cached
  have hlookup : s.cache.lookup ⟨stringType, .text text⟩ = some x := hcached
  rw [hfront, List.lookup_append] at hlookup
  rcases Option.or_eq_some_iff.mp hlookup with hnew | ⟨-, hbefore⟩
  · obtain ⟨before, rest, heq, -⟩ := List.lookup_eq_some_iff.mp hnew
    obtain ⟨hlt, res', hres', htype, hkey⟩ := hfresh (⟨stringType, .text text⟩, x) (by simp [heq])
    refine ⟨?_, fun hold => absurd hold (Nat.not_le_of_lt hlt)⟩
    rintro rfl
    obtain ⟨holder, bytes, hholder, -, hbare, -⟩ := h.found
    cases hres'.symm.trans hholder
    exact hbare.text htype text hkey
  · obtain ⟨before, rest, heq, -⟩ := List.lookup_eq_some_iff.mp hbefore
    have hissued := h.indexed x (.inr ⟨_, by simp [heq]; exact .inr (.inl rfl)⟩)
    refine ⟨?_, fun _ => ?_⟩
    · rintro rfl
      exact absurd hissued (Nat.not_le_of_lt h.new)
    · have hknown : r.cached? stringType (some (.text text)) = some x := hbefore
      show x ∈ (r.cached? stringType (some (.text text))).toList
      rw [hknown]
      exact List.mem_singleton.mpr rfl

/-- References are exchanged in a property of the instance. -/
theorem exchange (h : r.Trial s id schema 0 loose) {res : Resource} {bytes : Bytes}
    (hres : s.resource? id = some res) (hstorage : res.storage = .fields schema bytes)
    (hprop : prop ∈ schema.layout.props) (hholder : prop.IsHolder) {targets : List ResourceId}
    (hcount : targets.length ≤ prop.count)
    (hlive : ∀ x ∈ targets.filter (· != 0), ∃ res, s.resource? x = some res)
    (hkept : ∀ x ∈ targets.filter (· != 0),
      x ≠ id ∧ (x.toNat ≤ r.supply.issued → 0 < r.countOf x))
    (hloose : ∀ x ∈ loose, x ∈ targets.filter (· != 0))
    (hroom : s.Spares (targets.filter (· != 0) : List ResourceId)) :
    r.Trial (s.exchange id prop bytes targets) id schema 0 [] := by
  have hsound := h.wellFormed.sound hres
  rw [hstorage] at hsound
  have hlength := hsound.1.length_slice hprop hsound.2
  have hown := hsound.1.sound prop hprop
  have hretained := h.retainAll hlive (fun hid => (hkept id hid).1 rfl)
    (fun x hx => by rw [← Multiset.coe_count]; exact (hroom x hx).le) fun x hx => (hkept x hx).2
  have hsettled := hretained.settle fun x hx => by simpa using hloose x hx
  obtain ⟨_, hres'⟩ := (recounted_retainAll (targets.filter (· != 0)) s).resources hres
  have hmoved : (prop.heldIds (prop.slice bytes) : Multiset ResourceId) + 0 +
      prop.heldIds ((prop.slice bytes).setWords (padded prop.count targets)) =
        (targets.filter (· != 0) : List ResourceId) + 0 + prop.heldIds (prop.slice bytes) := by
    rw [heldIds_setWords_padded hown hholder hlength hcount]
    abel
  have hstored := hsettled.store hres' hstorage hprop
    (Bytes.length_setWords (prop.slice bytes) (padded prop.count targets)) hmoved
  rw [prop.heldIds_of_isHolder hown hholder] at hstored
  exact hstored.releaseAll

/-- Storing references in a property of the instance leaves it on trial. It fails at one that is
not there. -/
theorem ends_replaceRefs (h : r.Trial s id schema 0 []) (hprop : prop ∈ schema.layout.props)
    (hholder : prop.IsHolder) {targets : List ResourceId} (hcount : targets.length ≤ prop.count)
    (hkept : ∀ x ∈ targets.filter (· != 0), ∀ res, s.resource? x = some res →
      x ≠ id ∧ (x.toNat ≤ r.supply.issued → 0 < r.countOf x)) :
    Ends (replaceRefs id prop targets) s
      (fun _ after => s.Spares (targets.filter (· != 0) : List ResourceId) →
        r.Trial after id schema 0 [])
      (fun _ after => (∃ x ∈ targets.filter (· != 0), s.resource? x = none) ∧
        (targets.length ≤ 1 → after = s)) := by
  obtain ⟨res, bytes, hres, hstorage, -⟩ := h.found
  apply (ends_replaceRefs_of_fields hres hstorage prop targets).imp
  · rintro _ after ⟨rfl, hlive⟩ hroom
    refine h.exchange hres hstorage hprop hholder hcount hlive (fun x hx => ?_) (by simp) hroom
    obtain ⟨res, hres⟩ := hlive x hx
    exact hkept x hx res hres
  · exact fun _ _ h => h

/-- Interning a text and storing it in a property of the instance leaves it on trial, or it fails
and changes nothing. -/
theorem ends_writeText (h : r.Trial s id schema 0 [])
    (hprop : prop ∈ schema.layout.props) (hkind : prop.kind = .string) (hcount : prop.count = 1)
    {text : String} (hheld : r.Sustains (.text text)) :
    Ends (do
        let target ← createString text
        replaceRefs id prop [target]) s
      (fun _ after => after.supply.Lasts → s.Spares (s.takes prop (.text text) : List ResourceId) →
        r.Trial after id schema 0 [])
      (fun _ after => after.supply.Lasts → after = s) := by
  have hone : [s.internedId text].length ≤ prop.count := by simp [hcount]
  have hfree := h.wellFormed.resource?_nextId h.lasts
  rw [Ends.bind_iff]
  apply (ends_createString text s).imp
  · rintro _ interned ⟨rfl, rfl | ⟨hnext, huncached, hspawns⟩⟩
    · -- the text is known, or there is none
      apply (h.ends_replaceRefs hprop (.inl hkind) hone fun x hx res hres => ?_).imp
      · exact fun _ _ h _ => h
      · exact fun _ after hbad _ => hbad.2 (Nat.le_refl 1)
      obtain ⟨hx, hnonzero⟩ := List.mem_filter.mp hx
      obtain rfl := List.mem_singleton.mp hx
      have hcached : interned.cached? stringType (some (.text text)) =
          some (interned.internedId text) := by
        unfold internedId at hnonzero hres ⊢
        split
        · simp_all
        · rw [if_neg ‹_›] at hres
          cases hknown : interned.cached? stringType (some (.text text)) with
          | some known => rfl
          | none =>
            rw [hknown, Option.getD_none, hfree] at hres
            cases hres
      obtain ⟨hne, hnamed⟩ := h.of_cached hcached
      exact ⟨hne, fun hold => h.countOf_pos hheld (hnamed hold) hold hres⟩
    · -- the text is new
      rw [hnext] at hone ⊢
      apply (spans_acts.replaceRefs id prop [s.supply.nextId]).grows.ends_of_lasts
      intro hl
      obtain ⟨res, he, htype, hpayload, hkey, hhook, hzero⟩ := hspawns.enters
      obtain ⟨holder, bytes, hholder, hstorage, -⟩ := h.found
      have hne : id ≠ s.supply.nextId := ne_nextId (h.wellFormed.numbered hholder).2 h.lasts
      have hw := (hspawns.neutral True id hne 0 0).changes.wellFormed h.wellFormed hl
      have hentered := h.enter he hw hl ⟨_, hpayload⟩ hhook hzero (by rw [htype, hkey]; exact huncached)
      have hholder' : interned.resource? id = some holder := by rw [he.others id hne, hholder]
      have hsingle : [s.supply.nextId].filter (· != 0) = [s.supply.nextId] := by
        simp [nextId_ne_zero h.lasts]
      apply (ends_replaceRefs_of_fields hholder' hstorage prop [s.supply.nextId]).imp
      · rintro _ after ⟨rfl, hlive⟩ - -
        refine hentered.exchange hholder' hstorage hprop (.inl hkind) hone hlive ?_ ?_ ?_
        all_goals rw [hsingle]
        · intro x hx
          obtain rfl := List.mem_singleton.mp hx
          refine ⟨hne.symm, fun hold => absurd (h.new.trans_le (h.wellFormed.numbered hholder).2) ?_⟩
          rw [Supply.toNat_nextId h.lasts] at hold
          omega
        · exact fun x hx => hx
        · intro x hx
          obtain rfl := List.mem_singleton.mp (Multiset.mem_coe.mp hx)
          rw [countOf_of_some he.found, hzero, Multiset.coe_count, List.count_singleton_self]
          decide
      · rintro _ after ⟨⟨x, hx, hnone⟩, -⟩
        rw [hsingle] at hx
        rw [List.mem_singleton.mp hx, he.found] at hnone
        cases hnone
  · exact fun _ _ h => h.elim

/-- Setting a raw buffer of the instance leaves it on trial, or it fails and changes nothing. -/
theorem ends_writeBuffer (h : r.Trial s id schema 0 []) (hprop : prop ∈ schema.layout.props)
    (hkind : prop.kind = .arrayBuffer) (buffer : RawBuffer) :
    Ends (writeBuffer id prop buffer) s
      (fun _ after => after.supply.Lasts → r.Trial after id schema 0 [])
      (fun _ after => after.supply.Lasts → after = s) := by
  obtain ⟨holder, bytes, hholder, hstorage, -⟩ := h.found
  have hissued := (h.wellFormed.numbered hholder).2
  have hne : id ≠ s.supply.nextId := ne_nextId hissued h.lasts
  apply (ends_writeBuffer_of_fields hholder hstorage hne prop buffer).imp
  · rintro _ after ⟨hunset, created, length, hspawns, rfl⟩ hl
    rw [supply_storeBytes, supply_modifyResource] at hl
    obtain ⟨res, he, htype, hpayload, hkey, hhook, hzero⟩ := hspawns.enters
    have hw := (hspawns.neutral True id hne 0 0).changes.wellFormed h.wellFormed hl
    have hentered := h.enter he hw hl ⟨_, hpayload⟩ hhook hzero (by rw [hkey]; rfl)
    have hretained := hentered.retain he.found hne.symm (by rw [hzero]; decide) fun hold => by
      rw [Supply.toNat_nextId h.lasts] at hold
      exact absurd h.new (by omega)
    have hsettled := hretained.settle fun x hx => by simpa using hx
    obtain ⟨_, hholder'⟩ := (recounted_retained created s.supply.nextId).resources
      ((he.others id hne).trans hholder)
    have hsound := h.wellFormed.sound hholder
    rw [hstorage] at hsound
    refine hsettled.store hholder' hstorage hprop (Bytes.length_setWords _ _) ?_
    have hold : prop.heldIds (prop.slice bytes) = [] := by
      rw [prop.heldIds_of_arrayBuffer hkind, hunset]
      rfl
    have hsingle : [s.supply.nextId].filter (· != 0) = [s.supply.nextId] := by
      simp [nextId_ne_zero h.lasts]
    rw [heldIds_setWords_buffer hkind (hsound.1.sound prop hprop)
      (hsound.1.length_slice hprop hsound.2), hsingle, hold]
    rfl
  · exact fun _ _ h _ => h

/-- Changing bytes of the instance that hold nothing leaves it on trial. -/
theorem storeBlank (h : r.Trial s id schema 0 []) {res : Resource} {bytes part : Bytes}
    (hres : s.resource? id = some res) (hstorage : res.storage = .fields schema bytes)
    (hprop : prop ∈ schema.layout.props) (hpart : part.length = (prop.slice bytes).length)
    (hnone : ∀ part, prop.heldIds part = []) :
    r.Trial (s.storeBytes id prop part) id schema 0 [] :=
  h.store hres hstorage hprop hpart (by rw [hnone, hnone])

/-- Encoding a plain value in place leaves the instance on trial, or it fails and changes nothing. -/
theorem ends_writePlain (h : r.Trial s id schema 0 []) (hprop : prop ∈ schema.layout.props)
    (value : Value) (room : Prop) :
    Ends (do
        let (_, bytes) ← fieldsOf id
        let part ← liftSchema (prop.encodePlain value (prop.slice bytes))
        modify (·.storeBytes id prop part)) s
      (fun _ after => after.supply.Lasts → room → r.Trial after id schema 0 [])
      (fun _ after => after.supply.Lasts → after = s) := by
  obtain ⟨holder, bytes, hholder, hstorage, -⟩ := h.found
  rw [Ends.bind_iff]
  apply (ends_fieldsOf id s).imp
  · rintro ⟨schema', bytes'⟩ s ⟨rfl, res, hres, hstorage'⟩
    cases hholder.symm.trans hres
    cases hstorage.symm.trans hstorage'
    rw [Ends.bind_iff]
    apply (ends_liftSchema _ s).imp
    · rintro part s ⟨rfl, hpart⟩ - -
      exact h.storeBlank hholder hstorage hprop (prop.length_encodePlain hpart)
        (prop.heldIds_of_plain (prop.isPlain_of_encodePlain hpart))
    · exact fun _ _ h _ => h
  · exact fun _ _ h _ => h

/-- Storing the references that a value names leaves the instance on trial, once they were
checked. -/
theorem ends_writeOwned (h : r.Trial s id schema 0 []) (hsound : prop.IsSound)
    (hprop : prop ∈ schema.layout.props) (howning : prop.isOwningRef = true)
    {targets : List ResourceId} (hcount : targets.length ≤ prop.count)
    (hnamed : targets.filter (· != 0) = targetsOf value)
    (hchecked : ∀ expected, prop.target? = some expected → ∀ x ∈ targetsOf value,
      ∃ target, s.resource? x = some target ∧ target.type = expected)
    (hheld : r.Sustains value) (hold : ∀ x ∈ targetsOf value, x.toNat ≤ r.supply.issued) :
    Ends (replaceRefs id prop targets) s
      (fun _ after => after.supply.Lasts → s.Spares (targetsOf value : List ResourceId) →
        r.Trial after id schema 0 [])
      (fun _ after => after.supply.Lasts → after = s) := by
  have href : prop.kind.isReference = true := (Bool.and_eq_true_iff.mp howning).1
  obtain ⟨expected, hexpected⟩ := Option.isSome_iff_exists.mp (hsound.target href)
  have hkept : ∀ x ∈ targets.filter (· != 0), ∀ res, s.resource? x = some res →
      x ≠ id ∧ (x.toNat ≤ r.supply.issued → 0 < r.countOf x) := by
    intro x hx res hres
    rw [hnamed] at hx
    have hxold := hold x hx
    refine ⟨?_, fun _ => h.countOf_pos hheld (mem_namedBy hx) hxold hres⟩
    rintro rfl
    exact absurd hxold (Nat.not_le_of_lt h.new)
  apply (h.ends_replaceRefs hprop (.inr howning) hcount hkept).imp
  · intro _ after hafter _ hroom
    exact hafter (hnamed ▸ hroom)
  · rintro _ after ⟨⟨x, hx, hnone⟩, -⟩
    obtain ⟨target, htarget, -⟩ := hchecked expected hexpected x (hnamed ▸ hx)
    rw [hnone] at htarget
    cases htarget

/-- Writing a value to the instance leaves it on trial, or it fails and changes nothing. -/
theorem ends_writeProp (h : r.Trial s id schema 0 []) (hsound : prop.IsSound)
    (hprop : prop ∈ schema.layout.props) (hheld : r.Sustains value)
    (hold : prop.isOwningRef = true → ∀ x ∈ targetsOf value, x.toNat ≤ r.supply.issued) :
    Ends (writeProp id prop value) s
      (fun _ after => after.supply.Lasts → s.Spares (s.takes prop value : List ResourceId) →
        r.Trial after id schema 0 [])
      (fun _ after => after.supply.Lasts → after = s) := by
  obtain ⟨holder, bytes, hholder, hstorage, -⟩ := h.found
  have hfields : (fieldsOf id).run s = .ok (schema, bytes) s := by
    simp [fieldsOf, find, hholder, hstorage]
  unfold writeProp
  rw [Ends.bind_iff]
  apply (ends_liftSchema _ s).imp
  · rintro _ s ⟨rfl, hvalid⟩
    rw [Ends.bind_iff]
    apply (ends_checkTargets prop value s).imp
    · rintro _ s ⟨rfl, htargets⟩
      cases value with
      | text s =>
        have hkind := prop.kind_of_validate_text hvalid
        exact h.ends_writeText hprop hkind (hsound.count_eq 1 (by rw [hkind]; rfl)) hheld
      | buffer b =>
        apply (h.ends_writeBuffer hprop (prop.kind_of_validate_buffer hvalid) b).imp
        · exact fun _ _ hafter hl _ => hafter hl
        · exact fun _ _ hafter => hafter
      | ref target =>
        have hkind := prop.kind_of_validate_ref hvalid
        have hone := hsound.count_eq 1 (by rw [hkind]; rfl)
        dsimp only
        split
        · rename_i hback
          apply (ends_updateSlice hholder hstorage prop _).imp
          · rintro _ after rfl - -
            exact h.storeBlank hholder hstorage hprop (Bytes.length_setWord _ 0 _)
              (prop.heldIds_of_backRef hsound hback)
          · exact fun _ _ h => h.elim
        · rename_i hback
          have howning := prop.isOwningRef_of_validate_ref hvalid hback
          simp only [takes, howning, if_true]
          exact h.ends_writeOwned hsound hprop howning (by simp [hone])
            (filter_singleton_getD target) htargets hheld (hold howning)
      | refs slots =>
        have hcount := (prop.kind_of_validate_refs hvalid).2
        have howning := prop.isOwningRef_of_validate_refs hsound hvalid
        simp only [takes, howning, if_true]
        exact h.ends_writeOwned hsound hprop howning (by simpa using hcount)
          (filter_map_getD slots) htargets hheld (hold howning)
      | bool | word | float | floats =>
        exact h.ends_writePlain hprop _ _
    · exact fun _ _ h _ => h
  · exact fun _ _ h _ => h

/-- Writing values to the instance one after another leaves it on trial, however it ends. -/
theorem ends_writeEach (h : r.Trial s id schema 0 []) (hsound : schema.layout.IsSound)
    {values : List (Property × Value)} (hvalues : ∀ given ∈ values, given.1 ∈ schema.layout.props)
    (hheld : ∀ given ∈ values, r.Sustains given.2)
    (hold : ∀ given ∈ values, given.1.isOwningRef = true →
      ∀ x ∈ targetsOf given.2, x.toNat ≤ r.supply.issued)
    (hspare : SparesEach id values s) :
    Ends (writeEach id values) s
      (fun _ after => after.supply.Lasts → r.Trial after id schema 0 [])
      (fun _ after => after.supply.Lasts → r.Trial after id schema 0 []) := by
  unfold writeEach
  induction values generalizing s with
  | nil => exact fun _ => h
  | cons given rest ih =>
    rw [List.forM_eq_forM, List.forM_cons, ← List.forM_eq_forM]
    have hmem : given ∈ given :: rest := List.mem_cons_self
    have hone := h.ends_writeProp (hsound.sound given.1 (hvalues given hmem)) (hvalues given hmem)
      (hheld given hmem) (hold given hmem)
    have hgrows := (spans_acts.writeEach id rest).grows
    unfold SparesEach at hspare
    rw [Ends.bind_iff]
    cases hrun : (writeProp id given.1 given.2).run s with
    | ok a after =>
      rw [hrun] at hspare
      unfold Ends
      rw [hrun]
      apply hgrows.ends_of_lasts
      intro hl
      exact ih (hone.of_ok hrun hl hspare.1) (fun one hmem => hvalues one (List.mem_cons_of_mem _ hmem))
        (fun one hmem => hheld one (List.mem_cons_of_mem _ hmem))
        (fun one hmem => hold one (List.mem_cons_of_mem _ hmem)) hspare.2
    | error e after =>
      unfold Ends
      rw [hrun]
      intro hl
      rw [hone.of_error hrun hl]
      exact h

/-- A resource on trial that is being filled gets its hook and is sent, or everything is undone. -/
theorem ends_fillInstance (h : r.Trial s id schema 0 []) (hw : r.WellFormed)
    (hsound : schema.layout.IsSound) {values : List (Property × Value)} (options : Options)
    (hvalues : ∀ given ∈ values, given.1 ∈ schema.layout.props)
    (hheld : ∀ given ∈ values, r.Sustains given.2)
    (hold : ∀ given ∈ values, given.1.isOwningRef = true →
      ∀ x ∈ targetsOf given.2, x.toNat ≤ r.supply.issued)
    (hspare : SparesEach id values s) :
    Ends (fillInstance id values options) s (fun _ _ => True)
      (fun _ after => after.supply.Lasts → r.Restores after) := by
  unfold fillInstance
  rw [Ends.bind_iff, ends_writeAll_iff]
  apply (h.ends_writeEach hsound hvalues hheld hold hspare).imp
  · intro _ filled hfilled
    have hlookup := resource?_modifyResource filled id
      (fun resource => { resource with hook? := options.hook? }) id
    rw [if_pos rfl] at hlookup
    rw [Ends.bind_iff, Ends.modify_iff, Ends.bind_iff, Ends.get_iff, Ends.bind_iff]
    cases hres : filled.resource? id with
    | some res =>
      rw [hres, Option.map_some] at hlookup
      exact (ends_bind_of_some hlookup _).imp (fun _ _ _ => trivial) fun _ _ h => h.elim
    | none =>
      rw [hres, Option.map_none] at hlookup
      apply (ends_bind_of_none hlookup _).imp
      · exact fun _ _ h => h.elim
      · rintro _ after rfl hl
        rw [supply_modifyResource] at hl
        obtain ⟨_, _, hholder, -⟩ := (hfilled hl).found
        rw [hres] at hholder
        cases hholder
  · intro _ filled hfilled hl
    rw [supply_destroy] at hl
    exact (hfilled hl).destroy hw

end Trial

end Registry

end Framecast
