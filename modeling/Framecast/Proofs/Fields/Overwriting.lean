import Framecast.Proofs.Fields.Roundtrip

/-!
# Writing one value over another

Values that are written to an instance one after another leave each property with the
last one that was meant for it. A text and a raw buffer are entered when they are
written, so what the property stores depends on the registry at that moment. What they
were entered as is found under their number afterwards, or nothing is.
-/

namespace Framecast

namespace Registry

/-- The words that a property has once a value was written to it: the number of a text, or the
length of a raw buffer, whether it can change and its number, or those of the value itself. -/
def wordsFor (r : Registry) (prop : Property) : Value → List UInt32
  | .text s => [r.internedId s]
  | .buffer b =>
    [UInt32.ofNat (r.supply.pool.length b), if b.isShared then 1 else 0, r.supply.nextId]
  | value => prop.wordsOf value

/-- The number under which a text or a raw buffer is entered when it is written. -/
def numberFor (r : Registry) : Value → ResourceId
  | .text s => r.internedId s
  | .buffer _ => r.supply.nextId
  | _ => 0

/-- The last value that is meant for a property when several are written to an instance one after
another, and the registry in which it is written. -/
def lastWrite? (id : ResourceId) (prop : Property) :
    List (Property × Value) → Registry → Option (Value × Registry)
  | [], _ => none
  | given :: rest, r =>
    match (writeProp id given.1 given.2).run r with
    | .ok _ after =>
      (lastWrite? id prop rest after).or (if given.1 = prop then some (given.2, r) else none)
    | .error _ _ => none

/-- Whether a number that was given out leads nowhere, or to what a value was entered as: a text to
what is cached under it, and a raw buffer to the raw buffer. -/
structure Bears (r : Registry) (x : ResourceId) (value : Value) : Prop where
  /-- The number was given out. -/
  issued : x.toNat ≤ r.supply.issued
  /-- What has the number of a text is cached under the text. -/
  text : ∀ s, value = .text s → ∀ res, r.resource? x = some res →
    res.type = stringType ∧ res.cacheKey? = some (.text s)
  /-- What has the number of a raw buffer is the raw buffer. -/
  buffer : ∀ b, value = .buffer b → ∀ res, r.resource? x = some res →
    res.storage = .payload (.buffer b)

variable {r after : Registry} {id x : ResourceId} {schema : Schema} {prop : Property}
  {value : Value} {part bytes : Bytes}

theorem Bears.mono (h : r.Bears x value) (hu : r.Upholds after) : after.Bears x value := by
  refine ⟨h.issued.trans hu.issued, fun s hs res' hres' => ?_, fun b hb res' hres' => ?_⟩
  all_goals obtain ⟨res, hres, hmould, -⟩ := hu.origin h.issued hres'
  · obtain ⟨htype, hkey⟩ := h.text s hs res hres
    exact ⟨(congrArg Mould.type hmould).trans htype, (congrArg Mould.key? hmould).trans hkey⟩
  · exact (Resource.payload_iff_of_mould hmould).mpr (h.buffer b hb res hres)

/-- Acts leave the raw buffers of the station alone. -/
theorem Acts.pool (h : r.Acts after) : after.supply.pool = r.supply.pool := by
  induction h with
  | refl => rfl
  | tail _ hstep ih =>
    refine Eq.trans ?_ ih
    cases hstep with
    | retain | release | dispose | store => simp
    | add hadds => rw [hadds.supply]; rfl

/-- A property to which a value was written has the words of the value. -/
theorem words_encoding_for (hsound : prop.IsSound) (hvalid : prop.validate value = .ok ())
    (hpart : part.length = prop.length) :
    prop.words (r.encoding prop value part) = r.wordsFor prop value := by
  cases value with
  | text s => exact words_encoding_text hsound (prop.kind_of_validate_text hvalid) hpart s
  | buffer b =>
    have hkind := prop.kind_of_validate_buffer hvalid
    exact prop.words_setWords hpart (hsound.count_eq 3 (by rw [hkind]; rfl)).symm
  | ref target =>
    have hkind := prop.kind_of_validate_ref hvalid
    have hone := hsound.count_eq 1 (by rw [hkind]; rfl)
    have hwords : prop.words (part.setWords [target.getD 0]) = [target.getD 0] :=
      prop.words_setWords hpart hone.symm
    rw [encoding_ref hone, hwords]
    show _ = padded prop.count [target.getD 0]
    rw [hone]
    rfl
  | refs slots =>
    have howning := prop.isOwningRef_of_validate_refs hsound hvalid
    exact words_encoding hsound (.inr howning) hvalid hpart
  | bool | word | float | floats =>
    exact words_encoding hsound (.inl (prop.isPlain_of_validate hvalid rfl)) hvalid hpart

/-- A text that was written is what its number leads to. -/
theorem ends_writeProp_bears_text (hw : r.WellFormed) (hi : r.IndexesLive) (id : ResourceId)
    (prop : Property) {text : String} (hfull : text ≠ "") :
    Ends (writeProp id prop (.text text)) r
      (fun _ after => after.supply.Lasts → after.Bears (r.internedId text) (.text text))
      (fun _ _ => True) := by
  refine (ends_writeProp_text hi id prop hfull).imp ?_ fun _ _ h => h
  rintro _ after ⟨interned, target, holder, schema, bytes, hinterned, -, -, rfl⟩ hl
  have hacts := acts_exchange interned id prop bytes [r.internedId text]
  have hl' : interned.supply.Lasts := hl.mono (Acts.strokes hacts).issued_le
  have hkeyed := (Acts.upholds hinterned.acts hw.isKeyed hl').keyed
  obtain ⟨-, hissued, -⟩ := hinterned.numbered hw hl'
  have hbears : interned.Bears (r.internedId text) (.text text) := by
    refine ⟨hissued, ?_, fun _ hbuffer => ?_⟩
    · rintro _ ⟨⟩ found hfound
      rw [hinterned.found] at hfound
      cases hfound
      exact ⟨congrArg Mould.type hinterned.mould, congrArg Mould.key? hinterned.mould⟩
    · cases hbuffer
  exact hbears.mono (Acts.upholds hacts hkeyed hl)

/-- A text or a raw buffer that was written to an instance that is being filled is what its number
leads to. -/
theorem ends_writeProp_bears (hw : r.WellFormed) (hi : r.IndexesLive) (hl : r.supply.Lasts)
    (hf : r.Filling id schema) (hsound : schema.layout.IsSound) {res : Resource}
    (hres : r.resource? id = some res) (hstorage : res.storage = .fields schema bytes)
    (hprop : prop ∈ schema.layout.props) (value : Value) :
    Ends (writeProp id prop value) r
      (fun _ after => after.supply.Lasts → after.Bears (r.numberFor value) value)
      (fun _ _ => True) := by
  have hfilling := ends_writeProp hw hf.issued hf.isInstance hprop (hsound.sound prop hprop) value
  have hnumbered {after : Registry}
      (hwrites : after.supply.Lasts → r.Writes after id (r.takes prop value))
      (hlast : after.supply.Lasts) {x : ResourceId} {found : Resource}
      (hfound : after.resource? x = some found) : x ≠ 0 ∧ x.toNat ≤ after.supply.issued :=
    ((hwrites hlast).filling hw hlast hf).1.numbered hfound
  cases value with
  | text s =>
    by_cases hfull : s = ""
    · -- nothing has the number of the empty text
      subst hfull
      refine hfilling.imp ?_ fun _ _ _ => trivial
      refine fun _ after hwrites hlast => ⟨Nat.zero_le _, ?_, ?_⟩
      · exact fun _ _ found hfound => absurd rfl (hnumbered hwrites hlast hfound).1
      · rintro _ ⟨⟩
    · exact ends_writeProp_bears_text hw hi id prop hfull
  | buffer b =>
    have hne : id ≠ r.supply.nextId := ne_nextId (hw.numbered hres).2 hl
    refine ((ends_writeProp_entered hres hstorage hne prop (.buffer b)).and hfilling).imp ?_
      fun _ _ _ => trivial
    rintro _ after ⟨hentered, hwrites⟩ hlast
    obtain ⟨found, hfound, hpayload⟩ := buffer?_eq_some.mp (hentered b rfl)
    refine ⟨(hnumbered hwrites hlast hfound).2, ?_, ?_⟩
    · rintro _ ⟨⟩
    · rintro _ ⟨⟩ other hother
      obtain rfl : found = other := Option.some.inj (hfound.symm.trans hother)
      exact hpayload
  | bool | word | float | floats | ref | refs =>
    refine hfilling.imp (fun _ after _ _ => ⟨Nat.zero_le _, ?_, ?_⟩) fun _ _ _ => trivial
    all_goals rintro _ ⟨⟩

/-- What a property of an instance has after values were written to the instance one after another:
the last value that was meant for it, or what it had. -/
structure Written (r after : Registry) (id : ResourceId) (values : List (Property × Value))
    (prop : Property) (bytes bytes' : Bytes) : Prop where
  /-- What was written last is the last value in the list. -/
  last : (lastWrite? id prop values r).map Prod.fst = lastFor? prop values
  /-- If nothing was meant for the property, it has the words that it had. -/
  spared : lastWrite? id prop values r = none →
    prop.words (prop.slice bytes') = prop.words (prop.slice bytes)
  /-- Otherwise it has those of the last value, and what this was entered as is there or gone. -/
  words : ∀ value mid, lastWrite? id prop values r = some (value, mid) →
    prop.words (prop.slice bytes') = mid.wordsFor prop value ∧
      mid.supply.pool = r.supply.pool ∧ after.Bears (mid.numberFor value) value

/-- One more value may be written before the others. -/
theorem Written.cons {mid : Registry} {given : Property × Value} {rest : List (Property × Value)}
    {bytes₁ bytes' : Bytes} {u : Unit}
    (hrun : (writeProp id given.1 given.2).run r = .ok u mid)
    (h : mid.Written after id rest prop bytes₁ bytes')
    (hwords : prop.words (prop.slice bytes₁) =
      if given.1 = prop then r.wordsFor prop given.2 else prop.words (prop.slice bytes))
    (hpool : mid.supply.pool = r.supply.pool) (hbears : after.Bears (r.numberFor given.2) given.2) :
    r.Written after id (given :: rest) prop bytes bytes' := by
  have hlast : lastWrite? id prop (given :: rest) r =
      (lastWrite? id prop rest mid).or (if given.1 = prop then some (given.2, r) else none) := by
    rw [lastWrite?, hrun]
  have hfor : lastFor? prop (given :: rest) =
      (lastFor? prop rest).or (if given.1 = prop then some given.2 else none) := by
    rw [← List.singleton_append, lastFor?_append]
    unfold lastFor?
    by_cases heq : given.1 = prop <;> simp [heq]
  constructor
  · rw [hlast, hfor, Option.map_or, h.last]
    split <;> rfl
  · intro hnone
    rw [hlast, Option.or_eq_none_iff] at hnone
    rw [h.spared hnone.1, hwords]
    split
    · rename_i heq
      rw [if_pos heq] at hnone
      cases hnone.2
    · rfl
  · intro value found hsome
    rw [hlast, Option.or_eq_some_iff] at hsome
    rcases hsome with hsome | ⟨hnone, hsome⟩
    · obtain ⟨heq, hsame, hstays⟩ := h.words value found hsome
      exact ⟨heq, hsame.trans hpool, hstays⟩
    · split at hsome
      · rename_i heq
        cases hsome
        exact ⟨by rw [h.spared hnone, hwords, if_pos heq], rfl, hbears⟩
      · cases hsome

/-- How values end up that are written one after another to an instance that is being filled. -/
theorem ends_writeEach_written (hw : r.WellFormed) (hi : r.IndexesLive) (hf : r.Filling id schema)
    (hsound : schema.layout.IsSound) {values : List (Property × Value)}
    (hvalues : ∀ given ∈ values, given.1 ∈ schema.layout.props) {res : Resource}
    (hres : r.resource? id = some res) (hstorage : res.storage = .fields schema bytes) :
    Ends (writeEach id values) r
      (fun _ after => after.supply.Lasts → ∀ res', after.resource? id = some res' →
        ∃ bytes', res'.storage = .fields schema bytes' ∧
          ∀ prop ∈ schema.layout.props, r.Written after id values prop bytes bytes')
      (fun _ _ => True) := by
  induction values generalizing r res bytes with
  | nil =>
    intro _ res' hres'
    obtain rfl : res = res' := Option.some.inj (hres.symm.trans hres')
    refine ⟨bytes, hstorage, fun prop _ => ⟨rfl, fun _ => rfl, ?_⟩⟩
    rintro _ _ ⟨⟩
  | cons given rest ih =>
    have hgiven := hvalues given List.mem_cons_self
    unfold writeEach
    rw [List.forM_eq_forM, List.forM_cons, ← List.forM_eq_forM, Ends.bind_iff]
    cases hrun : (writeProp id given.1 given.2).run r with
    | error e mid =>
      unfold Ends
      rw [hrun]
      trivial
    | ok u mid =>
      unfold Ends
      rw [hrun]
      show Ends (writeEach id rest) mid _ _
      have hacts := (spans_acts.writeProp id given.1 given.2 r).of_ok hrun
      have hupholds := (spans_acts.writeEach id rest).upholds (r := mid)
      apply (spans_acts.writeEach id rest).grows.ends_ok_of_lasts
      intro hl
      have hlr : r.supply.Lasts := hl.mono (Acts.strokes hacts).issued_le
      have hsoundr := hw.sound hres
      rw [hstorage] at hsoundr
      obtain ⟨hvalid, halters⟩ := (ends_writeProp_alters hlr id given.1 given.2).of_ok hrun
      have hwrites := (ends_writeProp_filling hw hf hsound hgiven).of_ok hrun hl
      obtain ⟨hw', hf'⟩ := hwrites.filling hw hl hf
      have hi' := hwrites.keepsOutside.changes.indexesLive hw hl hi
      have hbears := (ends_writeProp_bears hw hi hlr hf hsound hres hstorage hgiven given.2).of_ok
        hrun hl
      have hlength := hsound.length_slice hgiven hsoundr.2
      have hencoded := (r.length_encoding given.1 given.2 _).trans hlength
      cases hmid : mid.resource? id with
      | none =>
        refine (hupholds hw'.isKeyed).imp ?_ fun _ _ _ => trivial
        intro _ after hu hlast res' hres'
        obtain ⟨old, hold, -⟩ := (hu hlast).origin hf'.issued hres'
        rw [hmid] at hold
        cases hold
      | some found =>
        have hfound := halters.storage_self hw hres hstorage hmid
        refine ((ih hw' hi' hf' (fun one hone => hvalues one (List.mem_cons_of_mem _ hone)) hmid
          hfound).and (hupholds hw'.isKeyed)).imp ?_ fun _ _ _ => trivial
        rintro _ after ⟨hwritten, hu⟩ hlast res' hres'
        obtain ⟨bytes', hbytes', hwritten⟩ := hwritten hlast res' hres'
        refine ⟨bytes', hbytes', fun prop hprop => (hwritten prop hprop).cons hrun ?_
          (Acts.pool hacts) (hbears.mono (hu hlast))⟩
        split
        · rename_i heq
          subst heq
          rw [hsound.slice_splice_self hgiven hsoundr.2 hencoded]
          exact words_encoding_for (hsound.sound _ hgiven) hvalid hlength
        · rename_i hne
          rw [hsound.slice_splice_of_ne hgiven hprop hne hsoundr.2 hencoded]

end Registry

end Framecast
