import Framecast.Proofs.Fields.Founding
import Framecast.Proofs.Run.Steps

/-!
# What was last put into a property

A property of an instance is given a value when the instance is created and whenever
a write to it succeeds. Nothing else that is done alters the storage of a live
instance: a step spares all storage, or puts one value, or founds one instance. So
what an owning reference holds is what was last put into it, slot by slot, with zeros
in the slots that were left over.
-/

namespace Framecast

/-- The references that a value puts into the slots of a property, zero being none. -/
def Value.slotIds : Value → List ResourceId
  | .ref target => [target.getD 0]
  | .refs slots => slots.map (·.getD 0)
  | _ => []

/-- The value that a list of values gives under a name; of several, the last. -/
def lastGiven? (name : String) (props : List (String × Value)) : Option Value :=
  (props.reverse.find? (·.1 == name)).map Prod.snd

/-- The value that a list of values gives to a property; of several, the last. -/
def lastFor? (prop : Property) (values : List (Property × Value)) : Option Value :=
  (values.reverse.find? (·.1 == prop)).map Prod.snd

namespace Moment

/-- What the action puts into a property of instance `x`, if it puts anything: the value of a write
that succeeded, or what the instance was given at its creation, which may be nothing. -/
def puts? (m : Moment) (x : ResourceId) (name : String) : Option (Option Value) :=
  match m.action, m.answer with
  | .setProp id written value, .done | .setPropFromScript id written value, .done =>
    if id = x ∧ written = name then some (some value) else none
  | .createInstance _ props _, .created id =>
    if id = x ∧ m.before.registry.resource? x = none then some (lastGiven? name props) else none
  | _, _ => none

end Moment

/-- The value that was last put into a property of instance `x`, if any was. -/
def lastPut? (x : ResourceId) (name : String) : List Moment → Option Value
  | [] => none
  | m :: past =>
    match m.puts? x name with
    | some value? => value?
    | none => lastPut? x name past

/-- The references that were last put into the slots of a property. -/
def lastIds (x : ResourceId) (name : String) (past : List Moment) : List ResourceId :=
  ((lastPut? x name past).map Value.slotIds).getD []

theorem Kind.of_isReference {k : Kind} (h : k.isReference = true) :
    k.isPlain = false ∧ k ≠ .string ∧ k ≠ .arrayBuffer := by
  revert h
  cases k <;> decide

/-- What several values give last comes from the later ones, or else from the earlier ones. -/
theorem lastFor?_append (prop : Property) (values more : List (Property × Value)) :
    lastFor? prop (values ++ more) = (lastFor? prop more).or (lastFor? prop values) := by
  unfold lastFor?
  rw [List.reverse_append, List.find?_append, Option.map_or]

/-- What values give that are chosen by their properties. -/
theorem lastFor?_filter (prop : Property) (f : Property → Bool) (values : List (Property × Value)) :
    lastFor? prop (values.filter fun given => f given.1) =
      if f prop then lastFor? prop values else none := by
  unfold lastFor?
  rw [← List.filter_reverse, List.find?_filter]
  split
  · rename_i hf
    congr 2
    funext given
    by_cases heq : given.1 = prop
    · simp [heq, hf]
    · simp [heq]
  · rename_i hf
    rw [List.find?_eq_none.mpr fun given _ => ?_]
    · rfl
    · by_cases heq : given.1 = prop
      · simp [heq, hf]
      · simp [heq]

/-- What values give of which each property has one at most. -/
theorem lastFor?_filterMap {prop : Property} {props : List Property} (hprop : prop ∈ props)
    {f : Property → Option (Property × Value)} (hf : ∀ p given, f p = some given → given.1 = p) :
    lastFor? prop (props.filterMap f) = (f prop).map Prod.snd := by
  unfold lastFor?
  cases hfound : (props.filterMap f).reverse.find? (·.1 == prop) with
  | some given =>
    obtain ⟨p, -, hp⟩ :=
      List.mem_filterMap.mp (List.mem_reverse.mp (List.mem_of_find?_eq_some hfound))
    have heq : given.1 = prop := by simpa using List.find?_some hfound
    rw [← heq, hf p given hp, hp]
  | none =>
    cases hsome : f prop with
    | none => rfl
    | some given =>
      have hmem : given ∈ (props.filterMap f).reverse :=
        List.mem_reverse.mpr (List.mem_filterMap.mpr ⟨prop, hprop, hsome⟩)
      have hnone := List.find?_eq_none.mp hfound given hmem
      simp [hf prop given hsome] at hnone

namespace Property

variable {p : Property} {value : Value}

/-- Only plain properties take plain values. -/
theorem isPlain_of_validate (hvalid : p.validate value = .ok ()) {words : List UInt32}
    (hwords : plainWords? value = some words) : p.kind.isPlain = true := by
  have hencoded : p.encodePlain value [] = .ok (Bytes.setWords [] words) := by
    unfold encodePlain
    rw [hvalid, hwords]
    rfl
  exact isPlain_of_encodePlain hencoded

/-- Whether the words of a property are those of its value: texts and raw buffers are held by
number, and a reverse pointer is written in its first word only. -/
def IsDirect (p : Property) : Prop := p.kind.isPlain = true ∨ p.isOwningRef = true

/-- The words that a value puts into a property. -/
def wordsOf (p : Property) (value : Value) : List UInt32 :=
  (plainWords? value).getD (Registry.padded p.count value.slotIds)

/-- The words of a property that was given a value, or none: those of the value, or of the default,
or zeros. -/
def wordsGiven (p : Property) (value? : Option Value) : List UInt32 :=
  ((value?.or p.default?).map p.wordsOf).getD (List.replicate p.count 0)

end Property

namespace Registry

variable {r after : Registry} {prop : Property} {value : Value} {part : Bytes}

/-- Encoding a value keeps the number of bytes. -/
@[simp] theorem length_encoding (r : Registry) (prop : Property) (value : Value) (part : Bytes) :
    (r.encoding prop value part).length = part.length := by
  cases value with
  | ref target =>
    unfold encoding
    dsimp only
    split
    · exact Bytes.length_setWord _ _ _
    · exact Bytes.length_setWords _ _
  | _ => exact Bytes.length_setWords _ _

/-- The words of a property after a value was encoded into it are those of the value. -/
theorem words_encoding (hsound : prop.IsSound) (hdirect : prop.IsDirect)
    (hvalid : prop.validate value = .ok ()) (hpart : part.length = prop.length) :
    prop.words (r.encoding prop value part) = prop.wordsOf value := by
  have hpadded (ids : List ResourceId) :
      prop.words (part.setWords (padded prop.count ids)) = padded prop.count ids :=
    prop.words_setWords hpart (by simp [padded])
  cases value with
  | ref target =>
    have hback : prop.backRef = false := by
      rcases hdirect with hplain | howning
      · rw [prop.kind_of_validate_ref hvalid] at hplain
        cases hplain
      · simpa using (Bool.and_eq_true_iff.mp howning).2
    unfold encoding
    dsimp only
    rw [hback, if_neg Bool.false_ne_true]
    exact hpadded _
  | refs slots => exact hpadded _
  | text s =>
    have hkind := prop.kind_of_validate_text hvalid
    rcases hdirect with hplain | howning
    · rw [hkind] at hplain
      cases hplain
    · exact absurd hkind (Kind.of_isReference (Bool.and_eq_true_iff.mp howning).1).2.1
  | buffer b =>
    have hkind := prop.kind_of_validate_buffer hvalid
    rcases hdirect with hplain | howning
    · rw [hkind] at hplain
      cases hplain
    · exact absurd hkind (Kind.of_isReference (Bool.and_eq_true_iff.mp howning).1).2.2
  | bool | word | float | floats =>
    obtain ⟨words, hwords, hcount⟩ :=
      prop.plainWords?_of_validate hsound (prop.isPlain_of_validate hvalid rfl) hvalid
    cases hwords
    exact prop.words_setWords hpart hcount

/-- A value that is encoded into a property is held by it, and other properties hold what they
held. -/
theorem words_splice_encoding {layout : Layout} {other : Property} {bytes : Bytes}
    (hsound : layout.IsSound) (hlength : bytes.length = layout.byteLength)
    (hother : other ∈ layout.props) (hprop : prop ∈ layout.props) (hdirect : prop.IsDirect)
    (hvalid : other.validate value = .ok ()) :
    prop.words (prop.slice (other.splice bytes (r.encoding other value (other.slice bytes)))) =
      if other = prop then prop.wordsOf value else prop.words (prop.slice bytes) := by
  have hslice := hsound.length_slice hother hlength
  have hencoded := (r.length_encoding other value _).trans hslice
  by_cases heq : other = prop
  · subst heq
    rw [if_pos rfl, hsound.slice_splice_self hother hlength hencoded]
    exact words_encoding (hsound.sound other hother) hdirect hvalid hslice
  · rw [if_neg heq, hsound.slice_splice_of_ne hother hprop heq hlength hencoded]

/-- After some values were written, a property holds the last one that was meant for it, or what it
held before. -/
theorem words_of_fills {values : List (Property × Value)} {schema : Schema} {bytes : Bytes}
    {s : Storage} (h : Storage.Fills values (.fields schema bytes) s)
    (hsound : schema.layout.IsSound) (hlength : bytes.length = schema.layout.byteLength)
    (hvalues : ∀ given ∈ values, given.1 ∈ schema.layout.props)
    (hprop : prop ∈ schema.layout.props) (hdirect : prop.IsDirect) :
    ∃ bytes', s = .fields schema bytes' ∧ bytes'.length = schema.layout.byteLength ∧
      prop.words (prop.slice bytes') =
        ((lastFor? prop values).map prop.wordsOf).getD (prop.words (prop.slice bytes)) := by
  generalize hbefore : Storage.fields schema bytes = before at h
  induction h generalizing bytes with
  | nil _ => exact ⟨bytes, hbefore.symm, hlength, rfl⟩
  | @cons other value rest _ _ _ r hvalid h ih =>
    obtain ⟨rfl, rfl⟩ := Storage.fields.inj hbefore
    have hother := hvalues _ List.mem_cons_self
    have hencoded := (r.length_encoding other value _).trans (hsound.length_slice hother hlength)
    obtain ⟨final, hfinal, hlength', hwords⟩ := ih
      (hsound.length_splice hother hlength hencoded)
      (fun given hgiven => hvalues given (List.mem_cons_of_mem _ hgiven)) rfl
    refine ⟨final, hfinal, hlength', hwords.trans ?_⟩
    rw [words_splice_encoding hsound hlength hother hprop hdirect hvalid]
    unfold lastFor?
    rw [List.reverse_cons, List.find?_append]
    cases rest.reverse.find? (·.1 == prop) with
    | some given => rfl
    | none => by_cases heq : other = prop <;> simp [heq]

/-- An owning reference has no default. -/
theorem default?_of_isOwningRef (hsound : prop.IsSound) (howning : prop.isOwningRef = true) :
    prop.default? = none := by
  obtain ⟨hplain, hstring, -⟩ := Kind.of_isReference (Bool.and_eq_true_iff.mp howning).1
  cases hdefault : prop.default? with
  | none => rfl
  | some value =>
    rcases (hsound.default value hdefault).2 with his | his
    · rw [hplain] at his
      cases his
    · exact absurd his hstring

/-- Of everything that is written to a new instance, the last value for a property is the last one
that was supplied for it, or its default. The plain values come first, and no default is written
later. -/
theorem lastFor?_founding {layout : Layout} (hsound : layout.IsSound) (hprop : prop ∈ layout.props)
    (hdirect : prop.IsDirect) (supplied : List (Property × Value)) :
    lastFor? prop (layout.props.filterMap Property.plainDefault? ++
        (supplied.filter fun s => s.1.kind.isPlain) ++ deferred layout supplied) =
      (lastFor? prop supplied).or prop.default? := by
  have hdefaults : lastFor? prop (layout.props.filterMap Property.plainDefault?) =
      if prop.kind.isPlain then prop.default? else none := by
    rw [lastFor?_filterMap hprop fun p given hgiven => ?_]
    · unfold Property.plainDefault?
      split <;> simp [Function.comp_def]
    · unfold Property.plainDefault? at hgiven
      split at hgiven
      · obtain ⟨_, -, rfl⟩ := Option.map_eq_some_iff.mp hgiven
        rfl
      · cases hgiven
  have hlate (given : List (Property × Value)) :
      lastFor? prop (layout.props.filterMap (deferredDefault given)) = none := by
    rw [lastFor?_filterMap hprop fun p one hone => ?_]
    · unfold deferredDefault
      rcases hdirect with hplain | howning
      · simp [hplain]
      · simp [default?_of_isOwningRef (hsound.sound prop hprop) howning]
    · unfold deferredDefault at hone
      split at hone
      · cases hone
      · obtain ⟨_, -, rfl⟩ := Option.map_eq_some_iff.mp hone
        rfl
  unfold deferred
  dsimp only
  rw [lastFor?_append, lastFor?_append, lastFor?_append, hlate, hdefaults,
    lastFor?_filter prop fun p => p.kind.isPlain, lastFor?_filter prop fun p => !p.kind.isPlain]
  rcases hdirect with hplain | howning
  · simp [hplain]
  · simp [(Kind.of_isReference (Bool.and_eq_true_iff.mp howning).1).1,
      default?_of_isOwningRef (hsound.sound prop hprop) howning]

/-- Of several checked values, the last one for a property is the last one under its name, and the
property accepts it. -/
theorem lastFor?_of_checked {schema : Schema} {props : List (String × Value)}
    {supplied : List (Property × Value)} (h : List.Forall₂ (r.Checked schema) props supplied)
    (hsound : schema.layout.IsSound) (hprop : prop ∈ schema.layout.props) :
    lastFor? prop supplied = lastGiven? prop.name props ∧
      ∀ value, lastGiven? prop.name props = some value → prop.validate value = .ok () := by
  unfold lastFor? lastGiven?
  have hreversed := List.forall₂_reverse_iff.mpr h
  generalize props.reverse = props, supplied.reverse = supplied at hreversed
  induction hreversed with
  | nil => exact ⟨rfl, nofun⟩
  | @cons given found props supplied hone hrest ih =>
    rw [List.find?_cons, List.find?_cons]
    by_cases heq : found.1 = prop
    · have hname : given.1 = prop.name := heq ▸ hone.name.symm
      rw [beq_iff_eq.mpr heq, beq_iff_eq.mpr hname]
      refine ⟨congrArg some hone.value, fun value hvalue => ?_⟩
      cases hvalue
      rw [← heq, ← hone.value]
      exact hone.valid
    · have hname : given.1 ≠ prop.name :=
        fun hname => heq (hsound.eq_of_name hone.mem hprop (hone.name.trans hname))
      rw [beq_eq_false_iff_ne.mpr heq, beq_eq_false_iff_ne.mpr hname]
      exact ih

/-- The plain defaults and the plain values that were supplied are valid values of plain properties
of the layout. -/
theorem valid_of_drafted {schema : Schema} {props : List (String × Value)}
    {supplied : List (Property × Value)} (h : List.Forall₂ (r.Checked schema) props supplied)
    (hsound : schema.layout.IsSound) :
    ∀ one ∈ schema.layout.props.filterMap Property.plainDefault? ++
        supplied.filter fun s => s.1.kind.isPlain,
      one.1 ∈ schema.layout.props ∧ one.1.kind.isPlain = true ∧
        one.1.validate one.2 = .ok () := by
  intro one hone
  rcases List.mem_append.mp hone with hone | hone
  · obtain ⟨prop, hprop, hdefault⟩ := List.mem_filterMap.mp hone
    unfold Property.plainDefault? at hdefault
    split at hdefault
    · rename_i hplain
      obtain ⟨value, hvalue, rfl⟩ := Option.map_eq_some_iff.mp hdefault
      exact ⟨hprop, hplain, ((hsound.sound prop hprop).default value hvalue).1⟩
    · cases hdefault
  · obtain ⟨hmem, hplain⟩ := List.mem_filter.mp hone
    obtain ⟨_, hchecked⟩ := exists_checked h one hmem
    exact ⟨hchecked.mem, hplain, hchecked.valid⟩

/-- The bytes of a new instance come from zeros by writing the plain defaults and the plain values
that were supplied. -/
theorem fills_drafted {schema : Schema} {props : List (String × Value)}
    {supplied : List (Property × Value)} (h : List.Forall₂ (r.Checked schema) props supplied)
    (hsound : schema.layout.IsSound) :
    Storage.Fills (schema.layout.props.filterMap Property.plainDefault? ++
        supplied.filter fun s => s.1.kind.isPlain)
      (.fields schema (Bytes.zeros schema.layout.byteLength))
      (.fields schema ((supplied.filter fun s => s.1.kind.isPlain).foldl Property.setPlain
        schema.layout.defaultBytes)) := by
  have hvalid := valid_of_drafted h hsound
  rw [Layout.defaultBytes_eq hsound, ← List.foldl_append]
  refine Storage.fills_setPlain r (fun one hone => (hvalid one hone).2.2) (fun one hone => ?_) _ _
  obtain ⟨hmem, hplain, hvalid⟩ := hvalid one hone
  obtain ⟨words, hwords, -⟩ :=
    one.1.plainWords?_of_validate (hsound.sound one.1 hmem) hplain hvalid
  exact Option.isSome_of_eq_some hwords

theorem words_zeros {layout : Layout} (hsound : layout.IsSound) (hprop : prop ∈ layout.props) :
    prop.words (prop.slice (Bytes.zeros layout.byteLength)) = List.replicate prop.count 0 := by
  rw [Property.slice, Bytes.slice_zeros (hsound.stop_le prop hprop), List.eq_replicate_iff]
  exact ⟨by simp [Property.words], by simp [Property.words]⟩

/-- A property of a new instance holds what it was given last, and this was accepted, or its default,
or zeros. -/
theorem Drafted.words_filled {schema : Schema} {props : List (String × Value)} {options : Options}
    {bytes final : Bytes} {values : List (Property × Value)}
    (h : r.Drafted schema props options bytes values) (hsound : schema.layout.IsSound)
    (hfills : Storage.Fills values (.fields schema bytes) (.fields schema final))
    (hprop : prop ∈ schema.layout.props) (hdirect : prop.IsDirect) :
    prop.words (prop.slice final) = prop.wordsGiven (lastGiven? prop.name props) ∧
      ∀ value, lastGiven? prop.name props = some value → prop.validate value = .ok () := by
  have hdeferred := h.mem_props
  obtain ⟨supplied, hsupplied, rfl, rfl⟩ := h.values
  obtain ⟨hlast, hvalid⟩ := lastFor?_of_checked hsupplied hsound hprop
  have hmem : ∀ given ∈ schema.layout.props.filterMap Property.plainDefault? ++
      (supplied.filter fun s => s.1.kind.isPlain) ++ deferred schema.layout supplied,
      given.1 ∈ schema.layout.props := by
    intro given hgiven
    rcases List.mem_append.mp hgiven with hgiven | hgiven
    · exact (valid_of_drafted hsupplied hsound given hgiven).1
    · exact hdeferred given hgiven
  obtain ⟨_, hfinal, -, hwords⟩ := words_of_fills ((fills_drafted hsupplied hsound).append hfills)
    hsound (Bytes.length_zeros _) hmem hprop hdirect
  obtain ⟨-, rfl⟩ := Storage.fields.inj hfinal
  refine ⟨?_, hvalid⟩
  rw [hwords, lastFor?_founding hsound hprop hdirect, hlast, words_zeros hsound hprop]
  rfl

end Registry

/-- What an action does to the storage of live resources. -/
inductive Moment.Alters (m : Moment) : Prop
  /-- No storage is altered, and nothing is put into what was live. -/
  | spares (h : m.before.registry.SparesBytes m.after.registry)
      (hputs : ∀ {x res} name, m.before.registry.resource? x = some res → m.puts? x name = none)
  /-- A value is put into one property. -/
  | puts {id : ResourceId} {name : String} {value : Value}
      (h : m.before.registry.Puts m.after.registry id name value)
      (hputs : ∀ x other,
        m.puts? x other = if id = x ∧ name = other then some (some value) else none)
  /-- An instance is created. -/
  | founds {id : ResourceId} {schema : Schema} {props : List (String × Value)} {options : Options}
      {bytes : Bytes} {values : List (Property × Value)} (hsound : schema.layout.IsSound)
      (hdrafted : m.before.registry.Drafted schema props options bytes values)
      (h : m.before.registry.Founds m.after.registry id
        (Storage.Fills values (.fields schema bytes)))
      (hputs : ∀ x name, m.puts? x name = if id = x then some (lastGiven? name props) else none)

namespace Broadcast

variable {b : Broadcast} {action : Action}

/-- A write puts its value if it is done, and spares all storage if it fails. -/
theorem alters_put {m : RegistryM Unit} {id : ResourceId} {name : String} {value : Value}
    (hm : Ends m b.registry (fun _ after => b.registry.Puts after id name value)
      (fun _ after => b.registry.SparesBytes after))
    (hstep : b.step action = b.onRegistry m fun _ => .done)
    (hputs : ∀ x other, Moment.puts? ⟨b, action⟩ x other =
      if (b.step action).1 = .done ∧ id = x ∧ name = other then some (some value) else none) :
    Moment.Alters ⟨b, action⟩ := by
  rcases (onRegistry_ends hm fun _ => .done).1 with ⟨_, hanswer, h⟩ | ⟨e, hanswer, h⟩
  all_goals rw [← hstep] at hanswer h
  · refine .puts h fun x other => ?_
    rw [hputs, hanswer]
    simp
  · refine .spares h fun other _ => ?_
    rw [hputs, hanswer]
    simp

/-- A creation founds an instance, or it spares all storage: it answers with an instance that is
there, or it fails. -/
theorem alters_createInstance {schema : Schema} {props : List (String × Value)} {options : Options}
    (hsound : schema.layout.IsSound) (hw : b.registry.WellFormed)
    (hl : (b.step (.createInstance schema props options)).2.registry.supply.Lasts) :
    Moment.Alters ⟨b, .createInstance schema props options⟩ := by
  have hm := Registry.ends_createInstance_founds hw hsound props options
  rcases (onRegistry_ends hm .created).1 with ⟨id, hanswer, h⟩ | ⟨e, hanswer, h⟩
  · have hputs (x : ResourceId) (name : String) :
        Moment.puts? ⟨b, .createInstance schema props options⟩ x name =
          if id = x ∧ b.registry.resource? x = none then some (lastGiven? name props)
          else none := by
      unfold Moment.puts? Moment.answer step
      rw [hanswer]
    rcases h hl with ⟨h, -⟩ | ⟨bytes, values, hdrafted, h⟩
    · refine .spares h fun {x res} name hres => ?_
      rw [hputs, if_neg]
      rintro ⟨-, hnone⟩
      rw [hres] at hnone
      cases hnone
    · refine .founds hsound hdrafted h fun x name => ?_
      have hnone : b.registry.resource? id = none := by
        cases hres : b.registry.resource? id with
        | none => rfl
        | some res => exact absurd (hw.numbered hres).2 (Nat.not_le_of_lt h.new)
      rw [hputs]
      by_cases hx : id = x
      · subst hx
        rw [if_pos ⟨rfl, hnone⟩, if_pos rfl]
      · rw [if_neg (fun h => hx h.1), if_neg hx]
  · refine .spares (h hl) fun name _ => ?_
    unfold Moment.puts? Moment.answer step
    rw [hanswer]

/-- Every action spares all storage, or puts one value, or founds one instance. -/
theorem alters_step (hc : action.IsCompiled) (hw : b.registry.WellFormed)
    (hl : (b.step action).2.registry.supply.Lasts) : Moment.Alters ⟨b, action⟩ := by
  have hlb : b.registry.supply.Lasts := hl.mono (b.issued_le_step hc)
  have hspared (h : b.registry.SparesBytes (b.step action).2.registry)
      (hother : ∀ x name, Moment.puts? ⟨b, action⟩ x name = none) : Moment.Alters ⟨b, action⟩ :=
    .spares h fun _ _ => hother _ _
  have hends {α : Type} {m : RegistryM α} {answer : α → Answer}
      (h : Ends m b.registry (fun _ after => b.registry.SparesBytes after)
        (fun _ after => b.registry.SparesBytes after)) :
      b.registry.SparesBytes (b.onRegistry m answer).2.registry :=
    onRegistry_after (P := fun after => b.registry.SparesBytes after) h answer
  cases hinternal : action.isInternal with
  | false =>
    have hsame := sameBodies_step (b := b) hinternal
    refine hspared (.of_body (Nat.le_of_eq hsame.issued.symm) hsame.resources) fun x name => ?_
    cases action <;> first | rfl | cases hinternal
  | true =>
    cases action with
    | registerType type =>
      exact hspared (.of_quiet (Registry.quiet_registerType b.registry type)) fun _ _ => rfl
    | createOpaque thread type payload options =>
      refine hspared (hends ?_) fun _ _ => rfl
      unfold Registry.createOpaque
      rw [Ends.bind_iff, Ends.get_iff]
      cases b.registry.linkTo? thread with
      | none => exact .refl _
      | some position =>
        dsimp only
        split
        · exact .refl _
        · cases huncached : b.registry.cached? type options.cacheKey? with
          | some id => exact .refl _
          | none =>
            exact (Registry.ends_spawn type payload options (List.nodup_singleton position)
              b.registry huncached).imp (fun _ _ h => .of_spawns h.2 hlb) fun _ _ h => h.elim
    | createInstance schema props options =>
      exact alters_createInstance hc.isSound hw hl
    | createString text =>
      refine hspared (hends ((Registry.ends_createString text b.registry).imp
        (fun _ _ h => .of_interns h.2 hlb) fun _ _ h => h.elim)) fun _ _ => rfl
    | createBuffer buffer =>
      refine hspared (hends ((Registry.ends_createBuffer buffer b.registry).imp
        (fun _ _ h => .of_spawns h.2 hlb) fun _ _ h => h.elim)) fun _ _ => rfl
    | retain id =>
      exact hspared (hends (Registry.SparesBytes.ends_retain id b.registry)) fun _ _ => rfl
    | dispose id =>
      exact hspared (hends (Registry.SparesBytes.ends_dispose id b.registry)) fun _ _ => rfl
    | setProp id name value =>
      refine alters_put (Registry.ends_put_alters hlb .host) rfl fun x other => ?_
      unfold Moment.puts? Moment.answer
      cases (b.step (.setProp id name value)).1 <;> simp
    | setPropFromScript id name value =>
      refine alters_put (Registry.ends_put_alters hlb .script) rfl fun x other => ?_
      unfold Moment.puts? Moment.answer
      cases (b.step (.setPropFromScript id name value)).1 <;> simp
    | await id => exact hspared (.of_quiet (Registry.quiet_await b.registry id)) fun _ _ => rfl
    | processAcks =>
      exact hspared (.of_quiet (Registry.quiet_processAcks b.registry)) fun _ _ => rfl
    | elsewhere drawn pool =>
      exact hspared (.of_quiet ⟨fun _ => rfl, rfl, rfl, rfl, rfl, rfl, rfl, Nat.le_add_right _ _⟩)
        fun _ _ => rfl
    | setTick | connect | commit | flush | registerLoader | update | hangUp => cases hinternal

end Broadcast

/-- After an action, a property holds what the action put into it, or what it held before if the
action put nothing into it. -/
theorem Moment.words_direct {m : Moment} (h : m.Alters) (hw : m.before.registry.WellFormed)
    {x : ResourceId} {res' : Resource} {schema : Schema} {bytes' : Bytes} {prop : Property}
    (hres' : m.after.registry.resource? x = some res')
    (hstorage' : res'.storage = .fields schema bytes')
    (hprop : prop ∈ schema.layout.props) (hdirect : prop.IsDirect) :
    (m.puts? x prop.name = none ∧ ∃ res bytes, m.before.registry.resource? x = some res ∧
        res.storage = .fields schema bytes ∧
        prop.words (prop.slice bytes') = prop.words (prop.slice bytes)) ∨
      ∃ value?, m.puts? x prop.name = some value? ∧
        prop.words (prop.slice bytes') = prop.wordsGiven value? ∧
        ∀ value, value? = some value → prop.validate value = .ok () := by
  have hspared {res : Resource} (hres : m.before.registry.resource? x = some res)
      (heq : res'.storage = res.storage) (hputs : m.puts? x prop.name = none) :
      m.puts? x prop.name = none ∧ ∃ res bytes, m.before.registry.resource? x = some res ∧
        res.storage = .fields schema bytes ∧
        prop.words (prop.slice bytes') = prop.words (prop.slice bytes) :=
    ⟨hputs, res, bytes', hres, heq.symm.trans hstorage', rfl⟩
  have hnopayload {P : Prop} : (∃ p, res'.storage = .payload p) → P := by
    rintro ⟨p, hp⟩
    rw [hstorage'] at hp
    cases hp
  cases h with
  | spares h hputs =>
    rcases h.origin hres' with ⟨res, hres, heq⟩ | ⟨-, hp⟩
    · exact .inl (hspared hres heq (hputs prop.name hres))
    · exact hnopayload hp
  | @puts id name value h hputs =>
    obtain ⟨found, schema₀, bytes₀, written, hfound, hstorage₀, hwritten, hvalid, halters⟩ := h
    rcases halters.origin hres' with ⟨res, hres, heq⟩ | ⟨-, hp⟩
    · unfold Storage.Spliced at heq
      split at heq
      · rename_i hx
        subst hx
        obtain rfl : found = res := Option.some.inj (hfound.symm.trans hres)
        obtain ⟨schema', bytes, hstorage, hspliced⟩ := heq
        obtain ⟨rfl, rfl⟩ := Storage.fields.inj (hstorage₀.symm.trans hstorage)
        obtain ⟨rfl, rfl⟩ := Storage.fields.inj (hstorage'.symm.trans hspliced)
        have hsound := hw.sound hres
        rw [hstorage] at hsound
        obtain ⟨hmem, hname⟩ := Layout.mem_of_prop? hwritten
        rw [hputs, Registry.words_splice_encoding hsound.1 hsound.2 hmem hprop hdirect hvalid]
        by_cases heq : written = prop
        · subst heq
          rw [if_pos ⟨rfl, hname.symm⟩, if_pos rfl]
          exact .inr ⟨some value, rfl, rfl, fun _ hsame => Option.some.inj hsame ▸ hvalid⟩
        · have hne : name ≠ prop.name :=
            fun hsame => heq (hsound.1.eq_of_name hmem hprop (hname.trans hsame))
          rw [if_neg fun h => hne h.2, if_neg heq]
          exact .inl ⟨rfl, found, bytes₀, hres, hstorage, rfl⟩
      · rename_i hx
        exact .inl (hspared hres heq ((hputs _ _).trans (if_neg fun h => hx h.1.symm)))
    · exact hnopayload hp
  | @founds id schema₀ props options bytes values hsound hdrafted h hputs =>
    by_cases hx : x = id
    · subst hx
      have hfills := h.own hres'
      rw [hstorage'] at hfills
      obtain rfl := hfills.schema_eq
      exact .inr ⟨_, (hputs _ _).trans (if_pos rfl),
        hdrafted.words_filled hsound hfills hprop hdirect⟩
    · rcases h.others hx hres' with ⟨res, hres, heq⟩ | ⟨-, hp⟩
      · exact .inl (hspared hres heq ((hputs _ _).trans (if_neg (Ne.symm hx))))
      · exact hnopayload hp

namespace Run

variable {config : Config} {supply : Supply} {past : List Moment} {b : Broadcast}

/-- Whatever was done, a property holds what was last put into it, and this was accepted, or its
default, or zeros. -/
theorem words_direct (h : Run (.opened config supply) past b)
    (hc : ∀ m ∈ past, m.action.IsCompiled) (hl : b.registry.supply.Lasts) {x : ResourceId}
    {res : Resource} {schema : Schema} {bytes : Bytes} {prop : Property}
    (hres : b.registry.resource? x = some res) (hstorage : res.storage = .fields schema bytes)
    (hprop : prop ∈ schema.layout.props) (hdirect : prop.IsDirect) :
    prop.words (prop.slice bytes) = prop.wordsGiven (lastPut? x prop.name past) ∧
      ∀ value, lastPut? x prop.name past = some value → prop.validate value = .ok () := by
  induction h generalizing res bytes with
  | nil =>
    rw [Broadcast.resource?_opened] at hres
    cases hres
  | @snoc past b h action ih =>
    have hone : action.IsCompiled := hc ⟨b, action⟩ List.mem_cons_self
    have hrest : ∀ m ∈ past, m.action.IsCompiled := fun m hm => hc m (List.mem_cons_of_mem _ hm)
    have hlb : b.registry.supply.Lasts := hl.mono (b.issued_le_step hone)
    have hw := h.wellFormed hrest hlb
    have halters := b.alters_step hone hw hl
    have hwords := Moment.words_direct (m := ⟨b, action⟩) halters hw hres hstorage hprop hdirect
    unfold lastPut?
    rcases hwords with ⟨hputs, res₀, bytes₀, hres₀, hstorage₀, heq⟩ | ⟨value?, hputs, heq, hvalid⟩
    · rw [hputs, heq]
      exact ih hrest hlb hres₀ hstorage₀
    · rw [hputs]
      exact ⟨heq, hvalid⟩

/-- Whatever was done, an owning reference holds what was last put into it, with zeros in the slots
that were left over, and it was accepted. -/
theorem words_owning (h : Run (.opened config supply) past b)
    (hc : ∀ m ∈ past, m.action.IsCompiled) (hl : b.registry.supply.Lasts) {x : ResourceId}
    {res : Resource} {schema : Schema} {bytes : Bytes} {prop : Property}
    (hres : b.registry.resource? x = some res) (hstorage : res.storage = .fields schema bytes)
    (hprop : prop ∈ schema.layout.props) (howning : prop.isOwningRef = true) :
    prop.words (prop.slice bytes) = Registry.padded prop.count (lastIds x prop.name past) ∧
      ∀ value, lastPut? x prop.name past = some value → prop.validate value = .ok () := by
  have hsound := (h.wellFormed hc hl).sound hres
  rw [hstorage] at hsound
  obtain ⟨hwords, hvalid⟩ := h.words_direct hc hl hres hstorage hprop (.inr howning)
  refine ⟨hwords.trans ?_, hvalid⟩
  unfold Property.wordsGiven lastIds
  rw [Registry.default?_of_isOwningRef (hsound.1.sound prop hprop) howning, Option.or_none]
  cases hlast : lastPut? x prop.name past with
  | none =>
    have hempty : ([] : List ResourceId).length ≤ prop.count := Nat.zero_le _
    exact (Registry.padded_eq hempty).symm
  | some value =>
    have hplain : Property.plainWords? value = none := by
      cases hwords : Property.plainWords? value with
      | none => rfl
      | some words =>
        have his := prop.isPlain_of_validate (hvalid value hlast) hwords
        rw [(Kind.of_isReference (Bool.and_eq_true_iff.mp howning).1).1] at his
        cases his
    show prop.wordsOf value = _
    unfold Property.wordsOf
    rw [hplain]
    rfl

end Run

end Framecast
