import Framecast.Proofs.Operation.Instance

/-!
# What a creation checks

The values of a new instance are checked before anything is created. The check changes
nothing but the schemas, and it passes exactly if the schema agrees with the one that
its type has, every value is one that its property accepts, every reference leads to
something of the declared type, and nothing is missing that must be given. It is passed
or failed before the cache is asked, so it is the same for what is there already.
-/

namespace Framecast

/-- An operation that changes nothing where something is so, and fails where it is not. -/
def Checks {ε σ α : Type} (m : EStateM ε σ α) (s : σ) (P : Prop) : Prop :=
  Ends m s (fun _ after => after = s ∧ P) (fun _ _ => ¬P)

namespace Checks

variable {ε σ α β : Type} {m : EStateM ε σ α} {s : σ} {P Q : Prop}

theorem congr (h : Checks m s P) (hiff : P ↔ Q) : Checks m s Q :=
  Ends.imp h (fun _ _ hgood => ⟨hgood.1, hiff.mp hgood.2⟩) fun _ _ hbad => mt hiff.mpr hbad

theorem pure (a : α) (hP : P) : Checks (Pure.pure a : EStateM ε σ α) s P := ⟨rfl, hP⟩

/-- Two checks in sequence check both. -/
theorem bind {f : α → EStateM ε σ β} (h : Checks m s P)
    (hf : ∀ a, P → Checks (f a) s Q) : Checks (m >>= f) s (P ∧ Q) := by
  unfold Checks
  rw [Ends.bind_iff]
  refine Ends.imp h ?_ fun _ _ hbad hboth => hbad hboth.1
  rintro a _ ⟨rfl, hP⟩
  exact Ends.imp (hf a hP) (fun _ _ hgood => ⟨hgood.1, hP, hgood.2⟩)
    fun _ _ hbad hboth => hbad hboth.2

/-- Checks on all elements of a list, one after another. -/
theorem forM {f : α → EStateM ε σ PUnit} {P : α → Prop} (h : ∀ a, Checks (f a) s (P a))
    (xs : List α) : Checks (xs.forM f) s (∀ a ∈ xs, P a) := by
  induction xs with
  | nil => exact ⟨rfl, fun _ hnil => nomatch hnil⟩
  | cons x xs ih =>
    rw [List.forM_eq_forM, List.forM_cons, ← List.forM_eq_forM]
    exact ((h x).bind fun _ _ => ih).congr List.forall_mem_cons.symm

/-- Checks on all elements of a list, also when what they find is collected. -/
theorem mapM {f : α → EStateM ε σ β} {P : α → Prop} (h : ∀ a, Checks (f a) s (P a))
    (xs : List α) : Checks (xs.mapM f) s (∀ a ∈ xs, P a) := by
  induction xs with
  | nil => exact ⟨rfl, fun _ hnil => nomatch hnil⟩
  | cons x xs ih =>
    rw [List.mapM_cons]
    refine ((h x).bind (Q := ∀ a ∈ xs, P a) fun _ _ => ?_).congr List.forall_mem_cons.symm
    exact (ih.bind (Q := True) fun _ _ => .pure _ trivial).congr (and_iff_left trivial)

end Checks

namespace Registry

variable {r : Registry} {schema : Schema} {options : Options}

/-- Whether a property of a schema accepts a value under its name, and every reference in the value
leads to something of the declared type. -/
def Suits (r : Registry) (schema : Schema) (given : String × Value) : Prop :=
  ∃ prop, schema.layout.prop? given.1 = some prop ∧ prop.validate given.2 = .ok () ∧
    ∀ expected, prop.target? = some expected → ∀ x ∈ targetsOf given.2,
      ∃ target, r.resource? x = some target ∧ target.type = expected

/-- Whether an instance of a schema may be created with some values. -/
structure Allows (r : Registry) (schema : Schema) (props : List (String × Value)) : Prop where
  /-- The schema that its type has, if it has one, agrees with this one. -/
  known : ∀ known, r.schemas[schema.name]? = some known → known.agrees schema = true
  /-- Every value suits a property. -/
  values : ∀ given ∈ props, r.Suits schema given
  /-- Nothing is missing that must be given. -/
  required : ∀ prop ∈ schema.layout.props, prop.required = true →
    ∃ given ∈ props, given.1 = prop.name

/-- What the schema has to say of a value is checked. -/
theorem checks_liftSchema {α : Type} (x : Except SchemaError α) (r : Registry) :
    Checks (liftSchema x) r (∃ a, x = .ok a) := by
  cases x with
  | ok a => exact ⟨rfl, a, rfl⟩
  | error e => exact fun ⟨_, hok⟩ => nomatch hok

/-- A reference is checked. -/
theorem checks_checkTarget (expected : String) (x : ResourceId) (r : Registry) :
    Checks (checkTarget expected x) r
      (∃ target, r.resource? x = some target ∧ target.type = expected) := by
  unfold Checks checkTarget find
  simp only [Ends.bind_iff, Ends.get_iff]
  cases hx : r.resource? x with
  | none =>
    rintro ⟨_, hsome, -⟩
    cases hsome
  | some target =>
    rw [Ends.pure_iff]
    split
    · rename_i hother
      rintro ⟨_, ⟨⟩, htype⟩
      simp [htype] at hother
    · rename_i hsame
      exact ⟨rfl, target, rfl, by simpa using hsame⟩

/-- The references in a value are checked, if the property declares a target. -/
theorem checks_checkTargets (prop : Property) (value : Value) (r : Registry) :
    Checks (checkTargets prop value) r
      (∀ expected, prop.target? = some expected → ∀ x ∈ targetsOf value,
        ∃ target, r.resource? x = some target ∧ target.type = expected) := by
  unfold checkTargets
  cases htarget : prop.target? with
  | none => exact ⟨rfl, fun _ hnone => nomatch hnone⟩
  | some expected =>
    refine (Checks.forM (fun x => checks_checkTarget expected x r) _).congr ?_
    simp

/-- A supplied value is checked. -/
theorem checks_checkSupplied (schema : Schema) (given : String × Value) (r : Registry) :
    Checks (checkSupplied schema given) r (r.Suits schema given) := by
  unfold checkSupplied Suits
  cases hprop : schema.layout.prop? given.1 with
  | none => exact fun ⟨_, hsome, _⟩ => nomatch hsome
  | some prop =>
    have hvalid : (∃ a, prop.validate given.2 = .ok a) ↔ prop.validate given.2 = .ok () :=
      ⟨fun ⟨_, hok⟩ => hok, fun hok => ⟨(), hok⟩⟩
    refine (((checks_liftSchema (prop.validate given.2) r).congr hvalid).bind fun _ _ =>
      ((checks_checkTargets prop given.2 r).bind (Q := True) fun _ _ => .pure _ trivial)).congr ?_
    rw [and_true]
    refine ⟨fun h => ⟨prop, rfl, h⟩, ?_⟩
    rintro ⟨_, ⟨⟩, h⟩
    exact h

/-- That nothing is missing is checked. -/
theorem checks_checkRequired {props : List (String × Value)} {supplied : List (Property × Value)}
    (h : List.Forall₂ (r.Checked schema) props supplied) (s : Registry) :
    Checks (checkRequired schema supplied) s
      (∀ prop ∈ schema.layout.props, prop.required = true →
        ∃ given ∈ props, given.1 = prop.name) := by
  have hsupplied (prop : Property) :
      isSupplied supplied prop = true ↔ ∃ given ∈ props, given.1 = prop.name := by
    unfold isSupplied
    induction h with
    | nil => simp
    | cons hone _ ih => simp [ih, hone.name]
  unfold checkRequired
  split
  · rename_i missing hmissing
    have hcond := List.find?_some hmissing
    simp only [Bool.and_eq_true, Bool.not_eq_true'] at hcond
    intro hall
    have hgiven := (hsupplied missing).mpr
      (hall missing (List.mem_of_find?_eq_some hmissing) hcond.1)
    rw [hcond.2] at hgiven
    cases hgiven
  · rename_i hnone
    refine ⟨rfl, fun prop hprop hrequired => (hsupplied prop).mp ?_⟩
    have hcond := List.find?_eq_none.mp hnone prop hprop
    simpa [hrequired] using hcond

/-- Encoding plain values that were accepted never fails. -/
theorem ends_foldlM_encodeSupplied_ok (hsound : schema.layout.IsSound)
    {plain : List (Property × Value)} (hplain : ∀ given ∈ plain, given.1 ∈ schema.layout.props ∧
      given.1.kind.isPlain = true ∧ given.1.validate given.2 = .ok ())
    (storage : Bytes) (r : Registry) :
    Ends (plain.foldlM encodeSupplied storage) r (fun _ _ => True) (fun _ _ => False) := by
  induction plain generalizing storage with
  | nil => exact trivial
  | cons given rest ih =>
    obtain ⟨hprop, hkind, hvalid⟩ := hplain given List.mem_cons_self
    obtain ⟨words, hwords, -⟩ :=
      Property.plainWords?_of_validate (hsound.sound given.1 hprop) hkind hvalid
    have hencoded : given.1.encodePlain given.2 (given.1.slice storage) =
        .ok ((given.1.slice storage).setWords words) := by
      unfold Property.encodePlain
      rw [hvalid, hwords]
      rfl
    rw [List.foldlM_cons, Ends.bind_iff]
    unfold encodeSupplied
    rw [hencoded]
    exact ih (fun one hone => hplain one (List.mem_cons_of_mem _ hone)) _

/-- A schema is refused exactly if its type has another one. -/
theorem ends_registerSchema_agrees (schema : Schema) (r : Registry) :
    Ends (registerSchema schema) r
      (fun _ after => after = { r with schemas := r.enrolled schema } ∧
        ∀ known, r.schemas[schema.name]? = some known → known.agrees schema = true)
      (fun _ _ => ¬∀ known, r.schemas[schema.name]? = some known → known.agrees schema = true) := by
  have hknown : Ends (registerSchema schema) r
      (fun _ _ => ∀ known, r.schemas[schema.name]? = some known → known.agrees schema = true)
      (fun _ _ => ¬∀ known, r.schemas[schema.name]? = some known →
        known.agrees schema = true) := by
    unfold registerSchema
    rw [Ends.bind_iff, Ends.get_iff]
    cases hfound : r.schemas[schema.name]? with
    | some known =>
      dsimp only
      split
      · rename_i hother
        intro hall
        simp [hall known rfl] at hother
      · rename_i hsame
        rintro _ ⟨⟩
        simpa using hsame
    | none => exact fun _ hnone => nomatch hnone
  exact ((ends_registerSchema schema r).and hknown).imp (fun _ _ h => ⟨h.1.1, h.2⟩)
    fun _ _ h => h.2

/-- A draft of an instance succeeds exactly if the instance may be created, whatever is cached under
its key. -/
theorem ends_draft_allows (hsound : schema.layout.IsSound) (props : List (String × Value))
    (options : Options) (r : Registry) :
    Ends (draft schema props options) r (fun _ _ => r.Allows schema props)
      (fun _ _ => ¬r.Allows schema props) := by
  unfold draft
  rw [Ends.bind_iff]
  apply (ends_registerSchema_agrees schema r).imp
  · rintro _ _ ⟨rfl, hknown⟩
    rw [Ends.bind_iff]
    refine ((Checks.mapM (fun given => checks_checkSupplied schema given _) props).and
      (ends_mapM_checkSupplied schema props _)).imp ?_ fun _ _ h hallows => h.1 hallows.values
    rintro supplied _ ⟨⟨rfl, hvalues⟩, -, hsupplied⟩
    rw [Ends.bind_iff]
    refine Ends.imp (checks_checkRequired hsupplied _) ?_ fun _ _ h hallows => h hallows.required
    rintro _ _ ⟨rfl, hrequired⟩
    have hallows : r.Allows schema props := ⟨hknown, hvalues, hrequired⟩
    rw [Ends.bind_iff, Ends.get_iff]
    split
    · exact hallows
    · rw [Ends.bind_iff]
      refine (ends_foldlM_encodeSupplied_ok hsound (fun given hgiven => ?_) _ _).imp
        (fun _ _ _ => hallows) fun _ _ h => h.elim
      obtain ⟨hmem, hplain⟩ := List.mem_filter.mp hgiven
      obtain ⟨_, hchecked⟩ := exists_checked hsupplied given hmem
      exact ⟨hchecked.mem, hplain, hchecked.valid⟩
  · exact fun _ _ h hallows => h hallows.known

/-- Where an instance is cached, a creation hands it back exactly if it may be created, and changes
nothing but the schemas. -/
theorem ends_createInstance_cached (hsound : schema.layout.IsSound) (props : List (String × Value))
    {x : ResourceId} (hcached : r.cached? schema.name options.cacheKey? = some x) :
    Ends (createInstance schema props options) r
      (fun id after => id = x ∧ r.Allows schema props ∧
        after = { r with schemas := r.enrolled schema })
      (fun _ after => ¬r.Allows schema props ∧ after = { r with schemas := r.enrolled schema }) := by
  unfold createInstance
  rw [Ends.bind_iff]
  refine ((ends_draft_allows hsound props options r).and (ends_draft hsound props options r)).imp
    ?_ fun _ _ h => h
  rintro drafted _ ⟨hallows, rfl, -, hfound, hfresh⟩
  cases drafted with
  | cached id =>
    have hsame := hfound id rfl
    rw [hcached] at hsame
    exact ⟨(Option.some.inj hsame).symm, hallows, rfl⟩
  | fresh bytes values =>
    have hnone := (hfresh bytes values rfl).uncached
    rw [hcached] at hnone
    cases hnone

end Registry

end Framecast
