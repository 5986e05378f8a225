import Framecast.Proofs.Fields.Puts
import Framecast.Proofs.Operation.Interning
import Framecast.Proofs.Run.Segments
import Framecast.Proofs.Run.Survival

/-!
# Texts in properties

A text is written by its number, which is the one that its key leads to. So what a
text property holds is counted and cached under a text for as long as it is there,
whatever was made under that key. Every write keeps this up, and with it every action
of the host.
-/

namespace Framecast

namespace Registry

/-- Whether a number that was given out leads nowhere, or to something that is counted and cached
under a text. -/
structure IsText (r : Registry) (x : ResourceId) : Prop where
  /-- The number was given out. -/
  issued : x.toNat ≤ r.supply.issued
  /-- What it leads to is counted. -/
  counted : ∀ res, r.resource? x = some res → 0 < res.refCount
  /-- What it leads to is cached under a text. -/
  named : ∀ res, r.resource? x = some res →
    ∃ s frame, res.mould = ⟨stringType, some (.text s), frame⟩

/-- The numbers that the text properties in a storage hold are those of texts. -/
def TextsHeld (r : Registry) (storage : Storage) : Prop :=
  ∀ schema bytes, storage = .fields schema bytes → ∀ prop ∈ schema.layout.props,
    prop.kind = .string → ∀ w ∈ prop.heldIds (prop.slice bytes), r.IsText w

/-- The text properties of all instances hold texts. -/
def IsTextual (r : Registry) : Prop := ∀ x res, r.resource? x = some res → r.TextsHeld res.storage

variable {r after : Registry} {id x t : ResourceId} {schema : Schema} {prop : Property}
  {text : String}

theorem IsText.mono (h : r.IsText x) (hu : r.Upholds after) : after.IsText x := by
  refine ⟨h.issued.trans hu.issued, fun res' hres' => ?_, fun res' hres' => ?_⟩
  · obtain ⟨res, hres, -, hcount⟩ := hu.origin h.issued hres'
    exact hcount (h.counted res hres)
  · obtain ⟨res, hres, hmould, -⟩ := hu.origin h.issued hres'
    rw [hmould]
    exact h.named res hres

theorem TextsHeld.mono {storage : Storage} (h : r.TextsHeld storage) (hu : r.Upholds after) :
    after.TextsHeld storage :=
  fun schema bytes hs prop hprop hkind w hw => (h schema bytes hs prop hprop hkind w hw).mono hu

/-- Text properties go on holding texts where storage is altered only so that they do. -/
theorem IsTextual.of_alters {how : ResourceId → Storage → Storage → Prop} (h : r.IsTextual)
    (ha : r.Alters after how) (hu : r.Upholds after)
    (hhow : ∀ x res s', r.resource? x = some res → how x res.storage s' →
      after.TextsHeld res.storage → after.TextsHeld s') : after.IsTextual := by
  intro x res' hres'
  rcases ha.origin hres' with ⟨res, hres, hstorage⟩ | ⟨-, p, hp⟩
  · exact hhow x res res'.storage hres hstorage ((h x res hres).mono hu)
  · intro schema bytes hs
    rw [hp] at hs
    cases hs

theorem IsTextual.of_sparesBytes (h : r.IsTextual) (ha : r.SparesBytes after)
    (hu : r.Upholds after) : after.IsTextual :=
  h.of_alters ha hu fun _ _ s' _ hs' hheld => (show s' = _ from hs') ▸ hheld

/-- A reference that is put in the place of others is counted. -/
theorem isText_exchange (hkeyed : r.IsKeyed) (ht : t ≠ 0) (hissued : t.toNat ≤ r.supply.issued)
    (hnamed : ∀ res, r.resource? t = some res →
      ∃ s frame, res.mould = ⟨stringType, some (.text s), frame⟩) (bytes : Bytes)
    (hl : (r.exchange id prop bytes [t]).supply.Lasts) :
    (r.exchange id prop bytes [t]).IsText t := by
  rw [exchange_eq r id prop bytes ht] at hl ⊢
  have hretained : (r.modifyResource t Resource.retained).IsText t := by
    refine ⟨by rwa [supply_modifyResource], fun res' hres' => ?_, fun res' hres' => ?_⟩
    all_goals
      rw [resource?_modifyResource, if_pos rfl] at hres'
      obtain ⟨res, hres, rfl⟩ := Option.map_eq_some_iff.mp hres'
    · have hmin : res.retained.refCount = min (res.refCount + 1) Resource.maxRefCount := rfl
      have hmax : 0 < Resource.maxRefCount := by decide
      omega
    · exact hnamed res hres
  exact hretained.mono (Acts.upholds (.head (.store _ _ _) (spans_acts.foldl_release _ _))
    (hkeyed.modifyResource t _ fun _ => rfl) hl)

/-- A text that was written is counted. -/
theorem ends_writeProp_isText (hw : r.WellFormed) (hi : r.IndexesLive) (id : ResourceId)
    (prop : Property) (value : Value) :
    Ends (writeProp id prop value) r
      (fun _ after => after.supply.Lasts → ∀ text, value = .text text → text ≠ "" →
        after.IsText (r.internedId text))
      (fun _ _ => True) := by
  by_cases hfull : ∃ text, value = .text text ∧ text ≠ ""
  · obtain ⟨text, rfl, hfull⟩ := hfull
    refine (ends_writeProp_text hi id prop hfull).imp ?_ fun _ _ h => h
    rintro _ after ⟨interned, target, holder, schema, bytes, hinterned, -, -, rfl⟩ hl _ ⟨⟩ _
    have hl' : interned.supply.Lasts := hl.mono (Acts.strokes (acts_exchange _ _ _ _ _)).issued_le
    obtain ⟨hne, hissued, hnamed⟩ := hinterned.numbered hw hl'
    have hkeyed := (Acts.upholds hinterned.acts hw.isKeyed hl').keyed
    exact isText_exchange hkeyed hne hissued hnamed bytes hl
  · exact (spans_acts.writeProp id prop value r).imp
      (fun _ _ _ _ text heq hne => absurd ⟨text, heq, hne⟩ hfull) fun _ _ _ => trivial

/-- Text properties take texts only. -/
theorem exists_text_of_validate {value : Value} (hkind : prop.kind = .string)
    (hvalid : prop.validate value = .ok ()) : ∃ s, value = .text s := by
  obtain ⟨_, hshape, -⟩ := Layout.ok_of_bind hvalid
  unfold Property.checkShape at hshape
  rw [hkind] at hshape
  cases value <;> first | exact ⟨_, rfl⟩ | cases hshape

/-- The word of a text property is the number of its text. -/
theorem words_encoding_text (hsound : prop.IsSound) (hkind : prop.kind = .string) {part : Bytes}
    (hpart : part.length = prop.length) (text : String) :
    prop.words (r.encoding prop (.text text) part) = [r.internedId text] := by
  have hone : prop.count = 1 := hsound.count_eq 1 (by rw [hkind]; rfl)
  show prop.words (part.setWords (padded prop.count [r.internedId text])) = _
  rw [prop.words_setWords hpart (by simp [padded]), hone]
  rfl

/-- Writing a value leaves all text properties holding texts. -/
theorem IsTextual.ends_writeProp (h : r.IsTextual) (hw : r.WellFormed) (hi : r.IndexesLive)
    (hinst : r.IsInstance id schema) (hprop : prop ∈ schema.layout.props) (value : Value) :
    Ends (writeProp id prop value) r (fun _ after => after.supply.Lasts → after.IsTextual)
      (fun _ after => after.supply.Lasts → after.IsTextual) := by
  have htraced := (spans_acts.writeProp id prop value).upholds hw.isKeyed
  apply (spans_acts.writeProp id prop value).grows.ends_of_lasts
  intro hl
  refine ((htraced.and (ends_writeProp_alters hl id prop value)).and
    (ends_writeProp_isText hw hi id prop value)).imp ?_ ?_
  · rintro _ after ⟨⟨hu, hvalid, ha⟩, htext⟩ hlast
    refine h.of_alters ha (hu hlast) fun x res s' hres hspliced hheld => ?_
    unfold Storage.Spliced at hspliced
    split at hspliced
    · rename_i hx
      obtain ⟨other, bytes, hstorage, rfl⟩ := hspliced
      obtain ⟨_, hsame⟩ := hinst res (hx ▸ hres)
      obtain ⟨rfl, rfl⟩ := Storage.fields.inj (hstorage.symm.trans hsame)
      have hsound := hw.sound hres
      rw [hstorage] at hsound
      have hpart := hsound.1.length_slice hprop hsound.2
      have hencoded := (r.length_encoding prop value (prop.slice bytes)).trans hpart
      rintro _ _ ⟨⟩ q hq hkind w hheld'
      by_cases heq : prop = q
      · -- what was written is held
        subst heq
        obtain ⟨text, rfl⟩ := exists_text_of_validate hkind hvalid
        have hown := hsound.1.sound prop hprop
        rw [hsound.1.slice_splice_self hprop hsound.2 hencoded,
          prop.heldIds_of_isHolder hown (.inl hkind),
          words_encoding_text hown hkind hpart] at hheld'
        obtain ⟨hmem, hne⟩ := List.mem_filter.mp hheld'
        obtain rfl := List.mem_singleton.mp hmem
        refine htext hlast text rfl ?_
        rintro rfl
        cases hne
      · rw [hsound.1.slice_splice_of_ne hprop hq heq hsound.2 hencoded] at hheld'
        exact hheld _ bytes hstorage q hq hkind w hheld'
    · rw [hspliced]
      exact hheld
  · rintro _ after ⟨⟨hu, ha⟩, -⟩ hlast
    exact h.of_sparesBytes ha (hu hlast)

/-- Writing values to an instance that is being filled leaves all text properties holding texts. -/
theorem IsTextual.ends_writeEach (h : r.IsTextual) (hw : r.WellFormed) (hi : r.IndexesLive)
    (hf : r.Filling id schema) (hsound : schema.layout.IsSound)
    {values : List (Property × Value)} (hvalues : ∀ given ∈ values, given.1 ∈ schema.layout.props) :
    Ends (writeEach id values) r (fun _ after => after.supply.Lasts → after.IsTextual)
      (fun _ after => after.supply.Lasts → after.IsTextual) := by
  have hall : Ends (Registry.writeEach id values) r
      (fun _ s => s.supply.Lasts → (∃ limit, r.Writes s id limit) ∧ s.IsTextual)
      (fun _ s => s.supply.Lasts → (∃ limit, r.Writes s id limit) ∧ s.IsTextual) := by
    unfold Registry.writeEach
    refine Ends.forM ?_ fun _ => ⟨⟨0, .refl _ _ _⟩, h⟩
    intro given hgiven s hs
    apply (spans_acts.writeProp id given.1 given.2).grows.ends_of_lasts
    intro hl
    obtain ⟨⟨limit, hwrites⟩, htextual⟩ := hs hl
    obtain ⟨hw', hf'⟩ := hwrites.filling hw hl hf
    have hi' := hwrites.keepsOutside.changes.indexesLive hw hl hi
    exact ((ends_writeProp_filling hw' hf' hsound (hvalues given hgiven)).and
      (htextual.ends_writeProp hw' hi' hf'.isInstance (hvalues given hgiven) given.2)).imp
        (fun _ _ h hl => ⟨⟨_, hwrites.trans (h.1 hl)⟩, h.2 hl⟩)
        fun _ _ h hl => ⟨⟨_, hwrites.trans (h.1 hl)⟩, h.2 hl⟩
  exact hall.imp (fun _ _ h hl => (h hl).2) fun _ _ h hl => (h hl).2

/-- Filling an instance leaves all text properties holding texts, also if it fails. -/
theorem IsTextual.ends_fillInstance (h : r.IsTextual) (hw : r.WellFormed) (hi : r.IndexesLive)
    (hf : r.Filling id schema) (hsound : schema.layout.IsSound)
    {values : List (Property × Value)} (hvalues : ∀ given ∈ values, given.1 ∈ schema.layout.props)
    (options : Options) :
    Ends (fillInstance id values options) r (fun _ after => after.supply.Lasts → after.IsTextual)
      (fun _ after => after.supply.Lasts → after.IsTextual) := by
  apply ends_fillInstance_of
  refine (((spans_acts.writeEach id values).upholds hw.isKeyed).and
    (h.ends_writeEach hw hi hf hsound hvalues)).imp ?_ ?_
  · rintro _ filled ⟨hu, htextual⟩
    refine ⟨fun _ _ hl => htextual hl, fun old bindings after hold hplaced hsupply hl => ?_⟩
    rw [hsupply] at hl
    exact (htextual hl).of_sparesBytes (hplaced.sparesBytes hold rfl hsupply)
      (.replace (hu hl).keyed hsupply hplaced hold rfl rfl rfl)
  · rintro _ failed ⟨hu, htextual⟩ hl
    rw [supply_destroy] at hl
    exact (htextual hl).of_sparesBytes (.cascade _ _ failed) (upholds_destroy (hu hl).keyed id)

/-- An instance whose bytes hold nothing may be entered. -/
theorem IsTextual.enter (h : r.IsTextual) (hkeyed : r.IsKeyed) {bytes : Bytes}
    (hblank : schema.layout.IsBlank bytes) (options : Options)
    (hl : (r.enterInstance schema bytes options).2.supply.Lasts) :
    (r.enterInstance schema bytes options).2.IsTextual := by
  have hdraft := drafts_enterInstance r schema bytes options
  have hu := Upholds.place hkeyed hl hdraft.supply hdraft.toPlaces hdraft.keyed
  intro x res hres
  by_cases hx : x = r.supply.nextId
  · rw [hx, hdraft.found] at hres
    cases hres
    rintro _ _ ⟨⟩ prop hprop - w hw
    have hmem : w ∈ schema.layout.heldIds bytes := List.mem_flatMap.mpr ⟨prop, hprop, hw⟩
    rw [hblank.2] at hmem
    cases hmem
  · rw [hdraft.others x hx] at hres
    exact (h x res hres).mono hu

/-- Creating an instance leaves all text properties holding texts. -/
theorem IsTextual.ends_createInstance (h : r.IsTextual) (hw : r.WellFormed) (hi : r.IndexesLive)
    (hsound : schema.layout.IsSound) (props : List (String × Value)) (options : Options) :
    Ends (createInstance schema props options) r
      (fun _ after => after.supply.Lasts → after.IsTextual)
      (fun _ after => after.supply.Lasts → after.IsTextual) := by
  have hquiet (schemas : Std.TreeMap String Schema) :
      ({ r with schemas } : Registry).IsTextual :=
    h.of_sparesBytes (.of_quiet (quiet_schemas r schemas))
      (.of_body hw.isKeyed (Nat.le_refl _) fun _ => rfl)
  apply ends_createInstance_filling hw hsound
  · exact fun _ schemas _ => hquiet schemas
  · exact fun _ schemas => hquiet schemas
  · rintro schemas bytes values hdrafted _ rfl hl hwentered hf
    have hindexes : ({ r with schemas } : Registry).IndexesLive := ⟨hi.1, hi.2, hi.3⟩
    exact ((hquiet schemas).enter hw.isKeyed hdrafted.blank options hl).ends_fillInstance
      hwentered (hindexes.insert (hw.resource?_nextId (.of_draw hl)) _ _ _) hf hsound
      hdrafted.mem_props options

/-- A write leaves all text properties holding texts. -/
theorem IsTextual.ends_put (h : r.IsTextual) (hw : r.WellFormed) (hi : r.IndexesLive)
    {name : String} {value : Value} {m : RegistryM Unit} (hm : IsPut id name value m) :
    Ends m r (fun _ after => after.supply.Lasts → after.IsTextual)
      (fun _ after => after.supply.Lasts → after.IsTextual) := by
  refine hm.ends_of (fun _ _ => h) fun res schema bytes prop hres hstorage hprop => ?_
  have hinst : r.IsInstance id schema := by
    intro found hfound
    rw [hres] at hfound
    cases hfound
    exact ⟨bytes, hstorage⟩
  exact h.ends_writeProp hw hi hinst (Layout.mem_of_prop? hprop).1 value

end Registry

namespace Broadcast

variable {b : Broadcast} {action : Action}

/-- Whatever the host does, all text properties go on holding texts. -/
theorem isTextual_step (hc : action.IsCompiled) (hw : b.registry.WellFormed)
    (hi : b.registry.IndexesLive) (hl : (b.step action).2.registry.supply.Lasts)
    (h : b.registry.IsTextual) : (b.step action).2.registry.IsTextual := by
  have hspared (hnone : ∀ x name, Moment.puts? ⟨b, action⟩ x name = none) :
      (b.step action).2.registry.IsTextual := by
    have hputs {x : ResourceId} {name : String} {value? : Option Value}
        (hsome : Moment.puts? ⟨b, action⟩ x name = some value?) : False := by
      rw [hnone] at hsome
      cases hsome
    cases alters_step hc hw hl with
    | spares hs => exact h.of_sparesBytes hs (upholds_step hc hw hi hl)
    | @puts id name _ _ hone => exact (hputs ((hone id name).trans (if_pos ⟨rfl, rfl⟩))).elim
    | @founds id _ _ _ _ _ _ _ _ hone => exact (hputs ((hone id "").trans (if_pos rfl))).elim
  have hafter {α : Type} {m : RegistryM α} {answer : α → Answer}
      (hm : Ends m b.registry (fun _ after => after.supply.Lasts → after.IsTextual)
        (fun _ after => after.supply.Lasts → after.IsTextual))
      (hl : (b.onRegistry m answer).2.registry.supply.Lasts) :
      (b.onRegistry m answer).2.registry.IsTextual :=
    onRegistry_after (P := fun after => after.supply.Lasts → after.IsTextual) hm answer hl
  cases action with
  | createInstance schema props options =>
    exact hafter (h.ends_createInstance hw hi hc.isSound props options) hl
  | setProp id name value => exact hafter (h.ends_put hw hi .host) hl
  | setPropFromScript id name value => exact hafter (h.ends_put hw hi .script) hl
  | _ => exact hspared fun _ _ => rfl

end Broadcast

namespace Run

variable {config : Config} {supply : Supply} {past : List Moment} {b : Broadcast}

/-- In every run all text properties hold texts. -/
theorem isTextual (h : Run (.opened config supply) past b)
    (hc : ∀ m ∈ past, m.action.IsCompiled) (hl : b.registry.supply.Lasts) :
    b.registry.IsTextual := by
  refine h.keeps (P := fun _ b => b.registry.IsTextual) hc hl ?_ ?_
  · intro x res hres
    rw [Broadcast.resource?_opened] at hres
    cases hres
  · intro past b action h hrest hone hlasts hl ih
    exact Broadcast.isTextual_step hone (h.wellFormed hrest hlasts) (h.indexesLive hrest hlasts) hl
      ih

end Run

end Framecast
