import Framecast.Proofs.Accounts.Ledger
import Framecast.Proofs.Fields.Overwriting
import Framecast.Proofs.Run.Caching

/-!
# What a new instance is made of

Plain values are encoded before an instance has its number, and everything else is
written to it afterwards, with default texts where nothing was given. If a name is
repeated, later values take the place of earlier ones, and what these had taken is given
back. In the end every property has the last value that was given under its name, or its
default, or zeros, whatever was written in between.
-/

namespace Framecast

/-- The value that a property of a new instance is meant to have: the last one that was given under
its name, or its default. -/
def Property.resolved? (prop : Property) (props : List (String × Value)) : Option Value :=
  (lastGiven? prop.name props).or prop.default?

namespace Registry

/-- The registry in which a creation writes the last value that is meant for a property. -/
def writtenAt? (r : Registry) (schema : Schema) (props : List (String × Value)) (options : Options)
    (prop : Property) : Option Registry :=
  match (draft schema props options).run r with
  | .ok (.fresh bytes values) drafted =>
    let (id, entered) := drafted.enterInstance schema bytes options
    (lastWrite? id prop values entered).map Prod.snd
  | _ => none

variable {r after : Registry} {id : ResourceId} {schema : Schema} {prop : Property} {value : Value}
  {bytes : Bytes} {options : Options}

/-- Values are supplied by name, and the properties of a layout have different names. -/
theorem isSupplied_eq (hsound : schema.layout.IsSound) (hprop : prop ∈ schema.layout.props)
    {supplied : List (Property × Value)} (hmem : ∀ one ∈ supplied, one.1 ∈ schema.layout.props) :
    isSupplied supplied prop = (lastFor? prop supplied).isSome := by
  unfold isSupplied lastFor?
  rw [Option.isSome_map, Bool.eq_iff_iff, List.any_eq_true, List.find?_isSome]
  constructor
  · rintro ⟨one, hone, hname⟩
    have heq := hsound.eq_of_name (hmem one hone) hprop (beq_iff_eq.mp hname)
    exact ⟨one, List.mem_reverse.mpr hone, beq_iff_eq.mpr heq⟩
  · rintro ⟨one, hone, heq⟩
    have hname := congrArg Property.name (beq_iff_eq.mp heq)
    exact ⟨one, List.mem_reverse.mp hone, beq_iff_eq.mpr hname⟩

/-- Of the values that wait until a new instance has its number, the last one for a property is the
last one that was supplied for it, or its default. -/
theorem lastFor?_deferred (hsound : schema.layout.IsSound) (hprop : prop ∈ schema.layout.props)
    (hplain : prop.kind.isPlain = false) {supplied : List (Property × Value)}
    (hmem : ∀ one ∈ supplied, one.1 ∈ schema.layout.props) :
    lastFor? prop (deferred schema.layout supplied) =
      (lastFor? prop supplied).or prop.default? := by
  have hgiven : lastFor? prop (supplied.filter fun s => !s.1.kind.isPlain) =
      lastFor? prop supplied := by
    rw [lastFor?_filter prop fun p => !p.kind.isPlain, hplain]
    rfl
  have hsupplied : isSupplied (supplied.filter fun s => !s.1.kind.isPlain) prop =
      (lastFor? prop supplied).isSome := by
    rw [isSupplied_eq hsound hprop fun one hone => hmem one (List.mem_filter.mp hone).1, hgiven]
  have hdefault (given : List (Property × Value)) :
      lastFor? prop (schema.layout.props.filterMap (deferredDefault given)) =
        if isSupplied given prop then none else prop.default? := by
    rw [lastFor?_filterMap hprop fun p one hone => ?_]
    · unfold deferredDefault
      rw [hplain, Bool.or_false]
      split <;> simp [Function.comp_def]
    · unfold deferredDefault at hone
      split at hone
      · cases hone
      · obtain ⟨_, -, rfl⟩ := Option.map_eq_some_iff.mp hone
        rfl
  unfold deferred
  dsimp only
  rw [lastFor?_append, hdefault, hgiven, hsupplied]
  cases lastFor? prop supplied with
  | none => rw [Option.or_none]; rfl
  | some value => rfl

/-- Values that are written to other properties leave the bytes of a property alone. -/
theorem slice_of_fills {values : List (Property × Value)} {bytes' : Bytes}
    (h : Storage.Fills values (.fields schema bytes) (.fields schema bytes'))
    (hsound : schema.layout.IsSound) (hlength : bytes.length = schema.layout.byteLength)
    (hvalues : ∀ given ∈ values, given.1 ∈ schema.layout.props ∧ given.1 ≠ prop)
    (hprop : prop ∈ schema.layout.props) : prop.slice bytes' = prop.slice bytes := by
  generalize hbefore : Storage.fields schema bytes = before at h
  generalize hafter : Storage.fields schema bytes' = after at h
  induction h generalizing bytes with
  | nil _ =>
    obtain ⟨-, rfl⟩ := Storage.fields.inj (hafter.trans hbefore.symm)
    rfl
  | @cons other value rest _ _ _ r hvalid _ ih =>
    obtain ⟨rfl, rfl⟩ := Storage.fields.inj hbefore
    obtain ⟨hother, hne⟩ := hvalues _ List.mem_cons_self
    have hencoded := (r.length_encoding other value _).trans (hsound.length_slice hother hlength)
    rw [ih (hsound.length_splice hother hlength hencoded)
      (fun given hgiven => hvalues given (List.mem_cons_of_mem _ hgiven)) rfl hafter,
      hsound.slice_splice_of_ne hother hprop hne hlength hencoded]

/-- A new instance begins with zeros in every property that is not plain. -/
theorem Drafted.words_eq_zeros {props : List (String × Value)} {values : List (Property × Value)}
    (h : r.Drafted schema props options bytes values) (hsound : schema.layout.IsSound)
    (hprop : prop ∈ schema.layout.props) (hplain : prop.kind.isPlain = false) :
    prop.words (prop.slice bytes) = List.replicate prop.count 0 := by
  obtain ⟨supplied, hsupplied, -, rfl⟩ := h.values
  have hvalid := valid_of_drafted hsupplied hsound
  have hother : ∀ one ∈ schema.layout.props.filterMap Property.plainDefault? ++
      supplied.filter fun s => s.1.kind.isPlain,
      one.1 ∈ schema.layout.props ∧ one.1 ≠ prop := by
    intro one hone
    obtain ⟨hmem, his, -⟩ := hvalid one hone
    refine ⟨hmem, ?_⟩
    rintro rfl
    rw [hplain] at his
    cases his
  rw [slice_of_fills (fills_drafted hsupplied hsound) hsound (Bytes.length_zeros _) hother hprop]
  exact words_zeros hsound hprop

/-- What is written last to a property that is not plain is what it is meant to have. -/
theorem Drafted.lastFor?_eq {props : List (String × Value)} {values : List (Property × Value)}
    (h : r.Drafted schema props options bytes values) (hsound : schema.layout.IsSound)
    (hprop : prop ∈ schema.layout.props) (hplain : prop.kind.isPlain = false) :
    lastFor? prop values = prop.resolved? props := by
  obtain ⟨supplied, hsupplied, rfl, -⟩ := h.values
  rw [lastFor?_deferred hsound hprop hplain (mem_of_checked hsupplied),
    (lastFor?_of_checked hsupplied hsound hprop).1]
  rfl

/-- What becomes of the values of a new instance: each property that is not plain has the last one
under its name, or its default, or zeros. -/
theorem ends_createInstance_written (hw : r.WellFormed) (hi : r.IndexesLive)
    (hsound : schema.layout.IsSound) (props : List (String × Value)) (options : Options)
    (huncached : r.cached? schema.name options.cacheKey? = none) :
    Ends (createInstance schema props options) r
      (fun id after => after.supply.Lasts → ∃ res bytes, after.resource? id = some res ∧
        res.storage = .fields schema bytes ∧
        ∀ prop ∈ schema.layout.props, prop.kind.isPlain = false →
          (prop.resolved? props = none →
            prop.words (prop.slice bytes) = List.replicate prop.count 0) ∧
          ∀ value, prop.resolved? props = some value →
            ∃ mid, r.writtenAt? schema props options prop = some mid ∧
              prop.words (prop.slice bytes) = mid.wordsFor prop value ∧
              mid.supply.pool = r.supply.pool ∧ after.Bears (mid.numberFor value) value)
      (fun _ _ => True) := by
  apply ends_createInstance_of hsound
  · intro id _ hcached
    rw [huncached] at hcached
    cases hcached
  · exact fun _ _ => trivial
  · intro schemas bytes values hrun hdrafted
    apply (grows_fillInstance _ values options).ends_ok_of_lasts
    intro hl
    obtain ⟨hwentered, hf⟩ := hdrafted.entered hw hsound schemas hl
    have hindexes : ({ r with schemas } : Registry).IndexesLive := ⟨hi.1, hi.2, hi.3⟩
    have hientered := hindexes.insert (hw.resource?_nextId (.of_draw hl)) schema.name
      (.fields schema bytes) { options with hook? := none }
    have hfound := resource?_insert { r with schemas } schema.name (.fields schema bytes)
      { options with hook? := none } r.supply.nextId
    rw [show ({ r with schemas } : Registry).supply.nextId = r.supply.nextId from rfl,
      if_pos rfl] at hfound
    apply ends_fillInstance_of
    refine ((ends_writeEach_written hwentered hientered hf hsound hdrafted.mem_props hfound
      rfl).and ((spans_acts.writeEach _ values).upholds hwentered.isKeyed)).imp ?_ fun _ _ _ => trivial
    rintro _ filled ⟨hwritten, hu⟩
    refine ⟨fun _ _ => trivial, fun old bindings after hold hplaced hsupply hlast => ?_⟩
    rw [hsupply] at hlast
    obtain ⟨bytes', hbytes', hwritten⟩ := hwritten hlast old hold
    refine ⟨_, bytes', hplaced.found, hbytes', fun prop hprop hplain => ?_⟩
    have hsent : filled.Upholds after :=
      .replace (hu hlast).keyed hsupply hplaced hold rfl rfl rfl
    obtain ⟨hmeant, hspared, hwords⟩ := hwritten prop hprop
    rw [hdrafted.lastFor?_eq hsound hprop hplain] at hmeant
    refine ⟨fun hnone => ?_, fun value hvalue => ?_⟩
    · rw [hnone, Option.map_eq_none_iff] at hmeant
      rw [hspared hmeant, hdrafted.words_eq_zeros hsound hprop hplain]
    · rw [hvalue] at hmeant
      obtain ⟨⟨_, mid⟩, hwrite, rfl⟩ := Option.map_eq_some_iff.mp hmeant
      obtain ⟨heq, hpool, hbears⟩ := hwords _ mid hwrite
      refine ⟨mid, ?_, heq, hpool, hbears.mono hsent⟩
      unfold writtenAt?
      rw [hrun]
      exact congrArg (Option.map Prod.snd) hwrite

/-- A property accepts what it is given last, and its default. -/
theorem Drafted.validate_resolved {props : List (String × Value)}
    {values : List (Property × Value)} (h : r.Drafted schema props options bytes values)
    (hsound : schema.layout.IsSound) (hprop : prop ∈ schema.layout.props)
    (hvalue : prop.resolved? props = some value) : prop.validate value = .ok () := by
  obtain ⟨supplied, hsupplied, -⟩ := h.values
  rcases Option.or_eq_some_iff.mp hvalue with hgiven | ⟨-, hdefault⟩
  · exact (lastFor?_of_checked hsupplied hsound hprop).2 value hgiven
  · exact ((hsound.sound prop hprop).default value hdefault).1

end Registry

namespace Run

variable {config : Config} {supply : Supply} {past : List Moment} {b : Broadcast}

end Run

namespace Samples

/-- What is declared of a page: a title and a rank that have defaults, a raw buffer, a page that it
is on, and three slots for links. -/
def pageDeclared : List Declaration :=
  [{ Declaration.ofKind "title" .string with default? := some (.text "untitled") },
    { Declaration.ofKind "rank" .u32 with default? := some (.word 5) },
    .ofKind "body" .arrayBuffer, .reference "parent" "page", .refMap "links" "page" 3]

/-- The layout of a page. -/
def page : Layout := ⟨"page", pageDeclared.zipWith Declaration.place [0, 4, 8, 20, 24], 36⟩

theorem isCompiled_page : page.IsCompiled := by
  refine ⟨"page", pageDeclared, ?_, by decide +kernel⟩
  intro d hd n hn
  simp only [pageDeclared, List.mem_cons, List.not_mem_nil, or_false] at hd
  rcases hd with rfl | rfl | rfl | rfl | rfl
  all_goals first | exact Option.some.inj hn | cases hn

end Samples

end Framecast
