import Framecast.Proofs.Fields.Resolving

/-!
# Raw buffers that are set

A raw buffer is set by the words of its length, of whether it can change and of its
number, and no number that is given out is zero. Once the number is there, every write to
the property is refused before anything is done: it is looked up before the buffer is
entered. So of all values that a new instance is given for such a property, the first one
is the only one, and it fits the word of its length.
-/

namespace Framecast

namespace Registry

/-- Whether the raw buffer of a property of a live instance is set, as certain words: the number
among them is not zero. -/
def IsSet (r : Registry) (x : ResourceId) (prop : Property) (words : List UInt32) : Prop :=
  ∃ res schema bytes, r.resource? x = some res ∧ res.storage = .fields schema bytes ∧
    prop ∈ schema.layout.props ∧ prop.kind = .arrayBuffer ∧ (prop.slice bytes).word 2 ≠ 0 ∧
      prop.words (prop.slice bytes) = words

/-- Whether a property cannot be set to a raw buffer any more, be it that it is set already or that
the instance is gone. -/
def Bars (r : Registry) (x : ResourceId) (prop : Property) : Prop :=
  ∀ {res schema bytes}, r.resource? x = some res → res.storage = .fields schema bytes →
    (prop.slice bytes).word 2 ≠ 0

/-- The words that a raw buffer is set as: its length, whether it can change, and a number under
which nothing else is live. -/
structure Records (r after : Registry) (buffer : RawBuffer) (length flag number : UInt32) :
    Prop where
  /-- The first word is the number of bytes at this moment. -/
  length_eq : length.toNat = r.supply.pool.length buffer
  /-- The second word is one for a shared buffer, and zero for one that never changes. -/
  flag_eq : flag = if buffer.isShared then 1 else 0
  /-- What is live under the third word is the buffer. -/
  payload : ∀ res, after.resource? number = some res → res.storage = .payload (.buffer buffer)

variable {r after : Registry} {id x : ResourceId} {schema : Schema} {prop : Property}
  {value : Value} {bytes : Bytes} {words : List UInt32} {options : Options}

/-- What is set cannot be set again. -/
theorem IsSet.bars (h : r.IsSet x prop words) : r.Bars x prop := by
  intro res schema bytes hres hstorage
  obtain ⟨found, _, _, hfound, hfields, -, -, hset, -⟩ := h
  obtain rfl : found = res := Option.some.inj (hfound.symm.trans hres)
  obtain ⟨-, rfl⟩ := Storage.fields.inj (hfields.symm.trans hstorage)
  exact hset

/-- A property is set as one list of words. -/
theorem IsSet.unique {words' : List UInt32} (h : r.IsSet x prop words)
    (h' : r.IsSet x prop words') : words = words' := by
  obtain ⟨res, _, _, hres, hstorage, -, -, -, rfl⟩ := h
  obtain ⟨res', _, _, hres', hstorage', -, -, -, rfl⟩ := h'
  obtain rfl : res = res' := Option.some.inj (hres.symm.trans hres')
  obtain ⟨-, rfl⟩ := Storage.fields.inj (hstorage.symm.trans hstorage')
  rfl

/-- Nothing but a raw buffer is accepted in the place of one. -/
theorem eq_buffer_of_validate (hkind : prop.kind = .arrayBuffer)
    (hvalid : prop.validate value = .ok ()) : ∃ buffer, value = .buffer buffer := by
  cases value with
  | buffer buffer => exact ⟨buffer, rfl⟩
  | text s =>
    rw [prop.kind_of_validate_text hvalid] at hkind
    cases hkind
  | ref target =>
    rw [prop.kind_of_validate_ref hvalid] at hkind
    cases hkind
  | refs slots =>
    rcases (prop.kind_of_validate_refs hvalid).1 with hk | hk <;> rw [hk] at hkind <;> cases hkind
  | bool | word | float | floats =>
    have hplain := prop.isPlain_of_validate hvalid rfl
    rw [hkind] at hplain
    cases hplain

/-- Setting a raw buffer that is barred is refused before anything is done. -/
theorem ends_writeBuffer_barred (hbars : r.Bars id prop) (buffer : RawBuffer) :
    Ends (writeBuffer id prop buffer) r (fun _ _ => False) (fun _ after => after = r) := by
  unfold writeBuffer
  rw [Ends.bind_iff]
  refine (ends_fieldsOf id r).imp ?_ fun _ _ h => h
  rintro ⟨schema, bytes⟩ after ⟨rfl, res, hres, hstorage⟩
  dsimp only
  rw [if_pos (by simpa using hbars hres hstorage)]
  rfl

/-- Whatever is written in the place of a raw buffer that is barred, it is refused before anything
is done. -/
theorem ends_writeProp_barred (hkind : prop.kind = .arrayBuffer) (hbars : r.Bars id prop)
    (value : Value) :
    Ends (writeProp id prop value) r (fun _ _ => False) (fun _ after => after = r) := by
  unfold writeProp
  rw [Ends.bind_iff]
  refine (ends_liftSchema _ r).imp ?_ fun _ _ h => h
  rintro _ after ⟨rfl, hvalid⟩
  obtain ⟨buffer, rfl⟩ := eq_buffer_of_validate hkind hvalid
  rw [Ends.bind_iff]
  refine (ends_checkTargets prop _ after).imp ?_ fun _ _ h => h
  rintro _ r ⟨rfl, -⟩
  exact ends_writeBuffer_barred hbars buffer

/-- A raw buffer is written only if its length fits a word. -/
theorem ends_writeProp_fits (id : ResourceId) (prop : Property) (value : Value) (r : Registry) :
    Ends (writeProp id prop value) r
      (fun _ _ => ∀ buffer, value = .buffer buffer →
        r.supply.pool.length buffer ≤ maxBufferLength)
      (fun _ _ => True) := by
  cases value with
  | buffer buffer =>
    unfold writeProp
    rw [Ends.bind_iff]
    refine (ends_liftSchema _ r).imp ?_ fun _ _ _ => trivial
    rintro _ r ⟨rfl, -⟩
    rw [Ends.bind_iff]
    refine (ends_checkTargets prop _ r).imp ?_ fun _ _ _ => trivial
    rintro _ r ⟨rfl, -⟩
    unfold writeBuffer
    rw [Ends.bind_iff]
    refine (ends_fieldsOf id r).imp ?_ fun _ _ _ => trivial
    rintro _ r ⟨rfl, -⟩
    dsimp only
    split
    · trivial
    rw [Ends.bind_iff, Ends.get_iff]
    split
    · trivial
    rename_i hfits
    unfold Ends
    split
    · rintro _ ⟨⟩
      exact Nat.le_of_not_lt hfits
    · trivial
  | _ =>
    refine (spans_acts.writeProp id prop _ r).imp ?_ fun _ _ _ => trivial
    rintro _ _ - _ ⟨⟩

/-- Values are written to an instance one after another only if the lengths of the raw buffers among
them fit a word. -/
theorem ends_writeEach_fits (id : ResourceId) (values : List (Property × Value)) (r : Registry) :
    Ends (writeEach id values) r
      (fun _ _ => ∀ prop buffer, (prop, Value.buffer buffer) ∈ values →
        r.supply.pool.length buffer ≤ maxBufferLength)
      (fun _ _ => True) := by
  induction values generalizing r with
  | nil => exact fun _ _ hmem => nomatch hmem
  | cons given rest ih =>
    unfold writeEach
    rw [List.forM_eq_forM, List.forM_cons, ← List.forM_eq_forM, Ends.bind_iff]
    refine ((spans_acts.writeProp id given.1 given.2 r).and
      (ends_writeProp_fits id given.1 given.2 r)).imp ?_ fun _ _ _ => trivial
    rintro _ mid ⟨hacts, hfirst⟩
    refine (ih mid).imp ?_ fun _ _ h => h
    intro _ _ hrest prop buffer hmem
    rcases List.mem_cons.mp hmem with rfl | hmem
    · exact hfirst buffer rfl
    · rw [← Acts.pool hacts]
      exact hrest prop buffer hmem

/-- Once a raw buffer was written to an instance that is being filled, its property is barred. -/
theorem bars_of_alters (hw : r.WellFormed) (hl : r.supply.Lasts) (hf : r.Filling id schema)
    (hsound : schema.layout.IsSound) (hprop : prop ∈ schema.layout.props) {buffer : RawBuffer}
    (hvalid : prop.validate (.buffer buffer) = .ok ())
    (h : r.Alters after (Storage.Spliced id prop (r.encoding prop (.buffer buffer)))) :
    after.Bars id prop := by
  intro res' schema' bytes' hres' hstorage'
  rcases h.origin hres' with ⟨res, hres, -⟩ | ⟨hnew, -⟩
  · obtain ⟨bytes, hstorage⟩ := hf.isInstance res hres
    have hown := hw.sound hres
    rw [hstorage] at hown
    have hlength := hsound.length_slice hprop hown.2
    obtain ⟨rfl, rfl⟩ := Storage.fields.inj
      (hstorage'.symm.trans (h.storage_self hw hres hstorage hres'))
    rw [hsound.slice_splice_self hprop hown.2 ((r.length_encoding prop _ _).trans hlength)]
    have hcount := (hsound.sound prop hprop).count_eq 3
      (by rw [prop.kind_of_validate_buffer hvalid]; rfl)
    unfold encoding
    rw [Bytes.word_setWords (by rw [hlength, Property.length, hcount]; exact Nat.le_refl _)]
    exact nextId_ne_zero hl
  · exact absurd hf.issued (Nat.not_le_of_lt hnew)

/-- A property stays barred while values are written to others. -/
theorem Bars.of_alters (hbars : r.Bars id prop) (hw : r.WellFormed) (hf : r.Filling id schema)
    (hsound : schema.layout.IsSound) (hprop : prop ∈ schema.layout.props) {other : Property}
    (hother : other ∈ schema.layout.props) (hne : other ≠ prop)
    (h : r.Alters after (Storage.Spliced id other (r.encoding other value))) :
    after.Bars id prop := by
  intro res' schema' bytes' hres' hstorage'
  rcases h.origin hres' with ⟨res, hres, -⟩ | ⟨hnew, -⟩
  · obtain ⟨bytes, hstorage⟩ := hf.isInstance res hres
    have hown := hw.sound hres
    rw [hstorage] at hown
    have hencoded := (r.length_encoding other value _).trans (hsound.length_slice hother hown.2)
    obtain ⟨rfl, rfl⟩ := Storage.fields.inj
      (hstorage'.symm.trans (h.storage_self hw hres hstorage hres'))
    rw [hsound.slice_splice_of_ne hother hprop hne hown.2 hencoded]
    exact hbars hres hstorage
  · exact absurd hf.issued (Nat.not_le_of_lt hnew)

/-- What is to be shown of values that are written to an instance that is being filled: how the
first of them ends, and how the others end in what it has led to. -/
theorem ends_writeEach_cons {given : Property × Value} {rest : List (Property × Value)}
    (hw : r.WellFormed) (hf : r.Filling id schema) (hsound : schema.layout.IsSound)
    (hgiven : given.1 ∈ schema.layout.props) {good : Registry → Prop}
    (hrest : ∀ mid, r.supply.Lasts → mid.supply.Lasts → mid.WellFormed → mid.Filling id schema →
      (writeProp id given.1 given.2).run r = .ok () mid →
      given.1.validate given.2 = .ok () →
      r.Alters mid (Storage.Spliced id given.1 (r.encoding given.1 given.2)) →
      Ends (writeEach id rest) mid (fun _ after => after.supply.Lasts → good after)
        (fun _ _ => True)) :
    Ends (writeEach id (given :: rest)) r (fun _ after => after.supply.Lasts → good after)
      (fun _ _ => True) := by
  unfold writeEach
  rw [List.forM_eq_forM, List.forM_cons, ← List.forM_eq_forM, Ends.bind_iff]
  cases hrun : (writeProp id given.1 given.2).run r with
  | error e mid =>
    unfold Ends
    rw [hrun]
    trivial
  | ok u mid =>
    unfold Ends
    rw [hrun]
    show Ends (writeEach id rest) mid _ _
    apply (spans_acts.writeEach id rest).grows.ends_ok_of_lasts
    intro hl
    have hacts := (spans_acts.writeProp id given.1 given.2 r).of_ok hrun
    have hlr : r.supply.Lasts := hl.mono (Acts.strokes hacts).issued_le
    obtain ⟨hvalid, halters⟩ := (ends_writeProp_alters hlr id given.1 given.2).of_ok hrun
    have hwrites := (ends_writeProp_filling hw hf hsound hgiven).of_ok hrun hl
    obtain ⟨hw', hf'⟩ := hwrites.filling hw hl hf
    exact hrest mid hlr hl hw' hf' hrun hvalid halters

/-- While a property is barred, values are written to an instance one after another only if none of
them is for it. -/
theorem ends_writeEach_barred (hw : r.WellFormed) (hf : r.Filling id schema)
    (hsound : schema.layout.IsSound) {values : List (Property × Value)}
    (hvalues : ∀ given ∈ values, given.1 ∈ schema.layout.props)
    (hprop : prop ∈ schema.layout.props) (hkind : prop.kind = .arrayBuffer)
    (hbars : r.Bars id prop) :
    Ends (writeEach id values) r
      (fun _ after => after.supply.Lasts → ∀ given ∈ values, given.1 ≠ prop)
      (fun _ _ => True) := by
  induction values generalizing r with
  | nil => exact fun _ _ hmem => nomatch hmem
  | cons given rest ih =>
    have hgiven := hvalues given List.mem_cons_self
    refine ends_writeEach_cons hw hf hsound hgiven fun mid hlr hl hw' hf' hrun _ halters => ?_
    have hne : given.1 ≠ prop := by
      rintro rfl
      exact (ends_writeProp_barred hkind hbars given.2).of_ok hrun
    refine (ih hw' hf' (fun one hone => hvalues one (List.mem_cons_of_mem _ hone))
      (hbars.of_alters hw hf hsound hprop hgiven hne halters)).imp ?_ fun _ _ h => h
    exact fun _ after hrest hl => List.forall_mem_cons.mpr ⟨hne, hrest hl⟩

/-- Values are written to an instance one after another only if one of them at most is for any raw
buffer of the instance. -/
theorem ends_writeEach_once (hw : r.WellFormed) (hf : r.Filling id schema)
    (hsound : schema.layout.IsSound) {values : List (Property × Value)}
    (hvalues : ∀ given ∈ values, given.1 ∈ schema.layout.props)
    (hprop : prop ∈ schema.layout.props) (hkind : prop.kind = .arrayBuffer) :
    Ends (writeEach id values) r
      (fun _ after => after.supply.Lasts → (values.filter (·.1 == prop)).length ≤ 1)
      (fun _ _ => True) := by
  induction values generalizing r with
  | nil => exact fun _ => Nat.zero_le _
  | cons given rest ih =>
    have hgiven := hvalues given List.mem_cons_self
    have hrest : ∀ one ∈ rest, one.1 ∈ schema.layout.props :=
      fun one hone => hvalues one (List.mem_cons_of_mem _ hone)
    refine ends_writeEach_cons hw hf hsound hgiven fun mid hlr hl hw' hf' _ hvalid halters => ?_
    rw [List.filter_cons]
    by_cases heq : given.1 = prop
    · -- it is set by the first value, and barred for all others
      rw [if_pos (beq_iff_eq.mpr heq)]
      subst heq
      obtain ⟨buffer, hbuffer⟩ := eq_buffer_of_validate hkind hvalid
      rw [hbuffer] at hvalid halters
      refine (ends_writeEach_barred hw' hf' hsound hrest hprop hkind
        (bars_of_alters hw hlr hf hsound hprop hvalid halters)).imp ?_ fun _ _ h => h
      intro _ after hothers hlast
      have hnone : rest.filter (·.1 == given.1) = [] :=
        List.filter_eq_nil_iff.mpr fun one hone => by simpa using hothers hlast one hone
      rw [hnone]
      exact Nat.le_refl 1
    · rw [if_neg (by simpa using heq)]
      exact ih hw' hf' hrest

/-- The values of a new instance that wait until it has its number are, for every property that is
not plain, at least as many as were supplied under its name. -/
theorem length_filter_deferred {props : List (String × Value)}
    {supplied : List (Property × Value)} (h : List.Forall₂ (r.Checked schema) props supplied)
    (hplain : prop.kind.isPlain = false) (hsound : schema.layout.IsSound)
    (hprop : prop ∈ schema.layout.props) :
    (props.filter (·.1 == prop.name)).length ≤
      ((deferred schema.layout supplied).filter (·.1 == prop)).length := by
  have hsupplied : (props.filter (·.1 == prop.name)).length =
      (supplied.filter (·.1 == prop)).length := by
    induction h with
    | nil => rfl
    | @cons given found props supplied hone _ ih =>
      have heq : (given.1 == prop.name) = (found.1 == prop) := by
        rw [Bool.eq_iff_iff, beq_iff_eq, beq_iff_eq, ← hone.name]
        exact ⟨hsound.eq_of_name hone.mem hprop, congrArg Property.name⟩
      rw [List.filter_cons, List.filter_cons, heq]
      split
      · rw [List.length_cons, List.length_cons, ih]
      · exact ih
  have hkept : supplied.filter (·.1 == prop) =
      (supplied.filter fun s => !s.1.kind.isPlain).filter (·.1 == prop) := by
    rw [List.filter_filter]
    refine List.filter_congr fun one _ => ?_
    by_cases heq : one.1 = prop
    · simp [heq, hplain]
    · simp [heq]
  rw [hsupplied, hkept]
  unfold deferred
  dsimp only
  rw [List.filter_append, List.length_append]
  exact Nat.le_add_right _ _

/-- A new instance is created only if one value at most was given for each of its raw buffers. -/
theorem ends_createInstance_once (hw : r.WellFormed) (hsound : schema.layout.IsSound)
    (hprop : prop ∈ schema.layout.props) (hkind : prop.kind = .arrayBuffer)
    (props : List (String × Value)) (options : Options)
    (huncached : r.cached? schema.name options.cacheKey? = none) :
    Ends (createInstance schema props options) r
      (fun _ after => after.supply.Lasts → (props.filter (·.1 == prop.name)).length ≤ 1)
      (fun _ _ => True) := by
  suffices h : Ends (createInstance schema props options) r
      (fun _ after => after.supply.Lasts → (props.filter (·.1 == prop.name)).length ≤ 1)
      (fun _ after => after.supply.Lasts → True) from
    h.imp (fun _ _ hgood => hgood) fun _ _ _ => trivial
  refine ends_createInstance_filling hw hsound ?_ (fun _ _ => trivial) ?_
  · intro _ _ hcached
    rw [huncached] at hcached
    cases hcached
  · rintro schemas bytes values hdrafted entered - hl hwentered hf
    obtain ⟨supplied, hsupplied, rfl, -⟩ := hdrafted.values
    have hcount := length_filter_deferred hsupplied (by rw [hkind]; rfl) hsound hprop
    apply ends_fillInstance_of
    refine (ends_writeEach_once hwentered hf hsound hdrafted.mem_props hprop hkind).imp ?_
      fun _ _ _ _ => trivial
    intro _ filled honce
    refine ⟨fun _ _ _ => trivial, fun _ _ after _ _ hsupply hlast => ?_⟩
    rw [hsupply] at hlast
    exact hcount.trans (honce hlast)

/-- Raw buffers have no defaults, so what one of a new instance is meant to be was given, and its
length fits a word. -/
theorem ends_createInstance_fits (hsound : schema.layout.IsSound) (props : List (String × Value))
    (options : Options) (huncached : r.cached? schema.name options.cacheKey? = none) :
    Ends (createInstance schema props options) r
      (fun _ _ => ∀ prop ∈ schema.layout.props, prop.kind = .arrayBuffer →
        ∀ value, prop.resolved? props = some value → lastGiven? prop.name props = some value ∧
          ∃ buffer, value = .buffer buffer ∧ r.supply.pool.length buffer ≤ maxBufferLength)
      (fun _ _ => True) := by
  apply ends_createInstance_of hsound
  · intro _ _ hcached
    rw [huncached] at hcached
    cases hcached
  · exact fun _ _ => trivial
  · intro schemas bytes values _ hdrafted
    apply ends_fillInstance_of
    refine (ends_writeEach_fits r.supply.nextId values _).imp ?_ fun _ _ _ => trivial
    intro _ filled hfits
    refine ⟨fun _ _ => trivial, fun _ _ _ _ _ _ prop hprop hkind value hvalue => ?_⟩
    obtain ⟨buffer, rfl⟩ := eq_buffer_of_validate hkind
      (hdrafted.validate_resolved hsound hprop hvalue)
    refine ⟨?_, buffer, rfl, ?_⟩
    · rcases Option.or_eq_some_iff.mp hvalue with hgiven | ⟨-, hdefault⟩
      · exact hgiven
      · rcases ((hsound.sound prop hprop).default _ hdefault).2 with hplain | hstring
        · rw [hkind] at hplain
          cases hplain
        · rw [hkind] at hstring
          cases hstring
    · rw [← hdrafted.lastFor?_eq hsound hprop (by rw [hkind]; rfl)] at hvalue
      obtain ⟨given, hfound, hsecond⟩ := Option.map_eq_some_iff.mp hvalue
      obtain rfl : given.1 = prop := by simpa using List.find?_some hfound
      have hmem : (given.1, Value.buffer buffer) ∈ values := by
        rw [← hsecond]
        exact List.mem_reverse.mp (List.mem_of_find?_eq_some hfound)
      exact hfits _ _ hmem

end Registry

end Framecast
