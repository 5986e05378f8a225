import Mathlib.Algebra.Ring.Nat
import Mathlib.Data.List.Induction
import Framecast.Schema.Layout

/-!
# Which declarations compile

Compilation accepts exactly the declarations that keep every rule, have
different names and fit 32-bit offsets together. It answers with one layout
only, whose properties follow each other without a gap, or with a complaint
about the first declaration that cannot follow its predecessors.
-/

namespace Framecast

/-- A declaration whose number of words is the one its kind asks for. The constructors of
declarations give no other. -/
def Declaration.IsRegular (d : Declaration) : Prop := ∀ n, d.kind.fixedCount = some n → d.count = n

/-- The rules that one declaration keeps by itself, after a reference to the own type was spelt
out. -/
structure Declaration.IsValid (d : Declaration) : Prop where
  /-- References have a type, and its name is not empty. -/
  target : d.kind.isReference = true → ∃ target, d.target? = some target ∧ target ≠ ""
  /-- References have a slot. -/
  slots : d.kind.isReference = true → d.count ≠ 0
  /-- Only single references point backwards. -/
  backRef : d.backRef = true → d.kind = .ref
  /-- Scripts write only what the host may write. -/
  script : d.script = true → d.isMutable = true
  /-- Only numbers have bounds. -/
  bounds : d.min?.isSome ∨ d.max?.isSome → d.kind = .u32 ∨ d.kind = .f32
  /-- The lower bound is not above the upper one. -/
  ordered : ∀ low high, d.min? = some low → d.max? = some high → high.less low = false
  /-- A value that must be supplied has no default. -/
  optional : d.default?.isSome → d.required = false
  /-- Only plain kinds and texts have defaults. -/
  defaultKind : d.default?.isSome → d.kind.isPlain = true ∨ d.kind = .string
  /-- The property accepts its default. -/
  default : ∀ value, d.default? = some value → (d.place 0).validate value = .ok ()

namespace Layout

/-- The number of bytes that declarations ask for together. -/
def extent (declared : List Declaration) : Nat := (declared.map fun d => 4 * d.count).sum

/-- The declarations that the type `resource` may have together. -/
structure IsDeclarable (resource : String) (declared : List Declaration) : Prop where
  /-- Every name is new. -/
  names : (declared.map (·.name)).Nodup
  /-- Each declaration keeps the rules. -/
  valid : ∀ d ∈ declared, (d.resolve resource).IsValid
  /-- Together they fit 32-bit offsets. -/
  fits : extent declared ≤ maxLength

/-- Declarations laid out back to back from `offset` on. -/
def placeAll (resource : String) : Nat → List Declaration → List Property
  | _, [] => []
  | offset, d :: rest =>
    (d.resolve resource).place offset :: placeAll resource (offset + 4 * d.count) rest

/-- What a layout of `declared` looks like. -/
structure IsPacked (resource : String) (declared : List Declaration) (layout : Layout) : Prop where
  /-- The layout is that of the type. -/
  name : layout.name = resource
  /-- The properties are the declarations, in their order. -/
  declared : List.Forall₂ (fun d p => ∃ offset, p = (d.resolve resource).place offset) declared
    layout.props
  /-- Each property begins where the lengths of its predecessors add up to. -/
  offset : ∀ before p after, layout.props = before ++ p :: after →
    p.offset = (before.map Property.length).sum
  /-- The offsets increase. -/
  increasing : layout.props.Pairwise fun p q => p.offset < q.offset
  /-- No two properties meet. -/
  disjoint : layout.props.Pairwise fun p q =>
    ∀ place, ¬ ((p.offset ≤ place ∧ place < p.stop) ∧ (q.offset ≤ place ∧ place < q.stop))
  /-- Together the properties take up the storage. -/
  covered : ∀ place, place < layout.byteLength ↔
    ∃ p ∈ layout.props, p.offset ≤ place ∧ place < p.stop
  /-- References to the own type are spelt out. -/
  spelt : ∀ p ∈ layout.props, p.kind ≠ .selfRef

end Layout

/-- The property that a failure is about, if it is about one. -/
def SchemaError.prop? : SchemaError → Option String
  | .duplicateProp _ prop | .requiredWithDefault prop | .defaultNotSupported prop _
  | .zeroCapacity prop | .missingTarget prop | .backRefOnNonRef prop _
  | .scriptRequiresMutable prop | .boundsOnNonNumeric prop _ | .invertedBounds prop _ _
  | .kindMismatch prop _ | .lengthMismatch prop _ _ | .capacityExceeded prop _ _
  | .outOfBounds prop _ _ _ => some prop
  | .layoutTooLarge _ => none

/-- A complaint about `d` behind the declarations `before`, with its reason. -/
inductive Layout.Complains (resource : String) (before : List Declaration) (d : Declaration) :
    SchemaError → Prop where
  /-- The declaration breaks a rule, and the complaint names it. -/
  | invalid {e : SchemaError} (h : ¬ (d.resolve resource).IsValid) (he : e.prop? = some d.name) :
    Layout.Complains resource before d e
  /-- The declaration leads out of the storage. -/
  | tooLarge (h : maxLength < Layout.extent (before ++ [d])) :
    Layout.Complains resource before d (.layoutTooLarge resource)
  /-- The name has been taken. -/
  | duplicate (h : d.name ∈ before.map (·.name)) :
    Layout.Complains resource before d (.duplicateProp resource d.name)

theorem Kind.isNumeric_iff (k : Kind) : k.isNumeric = true ↔ k = .u32 ∨ k = .f32 := by
  cases k <;> decide

section Sequences

variable {ε β : Type} {check : Except ε Unit} {rest : Unit → Except ε β}

/-- A check and what follows it succeed when both do. -/
theorem Layout.bind_eq_ok_iff {b : β} :
    (check >>= rest) = .ok b ↔ check = .ok () ∧ rest () = .ok b := by
  cases check with
  | error e => exact ⟨fun h => (nomatch h), fun h => (nomatch h.1)⟩
  | ok u => exact ⟨fun h => ⟨rfl, h⟩, fun h => h.2⟩

/-- A check and what follows it fail at the first of the two that does. -/
theorem Layout.bind_eq_error_iff {e : ε} :
    (check >>= rest) = .error e ↔ check = .error e ∨ check = .ok () ∧ rest () = .error e := by
  cases check with
  | error e' =>
    constructor
    · rintro ⟨⟩
      exact .inl rfl
    · rintro (⟨⟨⟩⟩ | ⟨h, -⟩)
      · rfl
      · cases h
  | ok u => exact ⟨fun h => .inr ⟨rfl, h⟩, fun h => h.elim (fun h => (nomatch h)) And.right⟩

end Sequences

/-- A sequence that succeeds goes through its first part. -/
theorem Layout.ok_of_bind {ε α β : Type} {x : Except ε α} {f : α → Except ε β} {b : β}
    (h : (x >>= f) = .ok b) : ∃ a, x = .ok a ∧ f a = .ok b := by
  cases x with
  | error e => cases h
  | ok a => exact ⟨a, rfl, h⟩

namespace Declaration

variable {d : Declaration} {e : SchemaError}

/-- Whether the number of words is the one of the kind can be computed. -/
instance (d : Declaration) : Decidable d.IsRegular :=
  decidable_of_iff (d.kind.fixedCount.all (d.count == ·) = true) <| by
    unfold IsRegular
    cases d.kind.fixedCount <;> simp

@[simp]
theorem name_resolve (d : Declaration) (resource : String) :
    (d.resolve resource).name = d.name := by
  unfold resolve
  split <;> rfl

@[simp]
theorem count_resolve (d : Declaration) (resource : String) :
    (d.resolve resource).count = d.count := by
  unfold resolve
  split <;> rfl

/-- Spelling out a reference to the own type keeps the number of words right. -/
theorem isRegular_resolve {d : Declaration} (h : d.IsRegular) (resource : String) :
    (d.resolve resource).IsRegular := by
  unfold resolve
  split
  · rename_i hk
    intro n hn
    apply h
    rw [hk]
    exact hn
  · exact h

/-- No reference to the own type is left after it was spelt out. -/
theorem resolve_ne_selfRef (d : Declaration) (resource : String) :
    (d.resolve resource).kind ≠ .selfRef := by
  unfold resolve
  split
  · simp
  · assumption

theorem length_place (d : Declaration) (resource : String) (offset : Nat) :
    ((d.resolve resource).place offset).length = 4 * d.count :=
  congrArg (4 * ·) (count_resolve d resource)

theorem stop_place (d : Declaration) (resource : String) (offset : Nat) :
    ((d.resolve resource).place offset).stop = offset + 4 * d.count :=
  congrArg (offset + 4 * ·) (count_resolve d resource)

/-- What passes the check of references. -/
theorem checkReference_eq_ok_iff : d.checkReference = .ok () ↔
    (d.kind.isReference = true → ∃ target, d.target? = some target ∧ target ≠ "") ∧
      (d.kind.isReference = true → d.count ≠ 0) ∧ (d.backRef = true → d.kind = .ref) := by
  unfold checkReference lacksTarget
  cases d.target? <;> split_ifs <;> simp_all

theorem checkAccess_eq_ok_iff :
    d.checkAccess = .ok () ↔ (d.script = true → d.isMutable = true) := by
  unfold checkAccess
  split_ifs <;> simp_all

/-- What passes the check of bounds. -/
theorem checkBounds_eq_ok_iff : d.checkBounds = .ok () ↔
    (d.min?.isSome ∨ d.max?.isSome → d.kind = .u32 ∨ d.kind = .f32) ∧
      ∀ low high, d.min? = some low → d.max? = some high → high.less low = false := by
  unfold checkBounds
  rw [← Kind.isNumeric_iff]
  cases d.min? <;> cases d.max? <;> split_ifs <;> simp_all

/-- What passes the check of defaults. -/
theorem checkDefault_eq_ok_iff : d.checkDefault = .ok () ↔
    (d.default?.isSome → d.required = false) ∧
      (d.default?.isSome → d.kind.isPlain = true ∨ d.kind = .string) := by
  unfold checkDefault
  cases d.default? <;> cases d.kind.isPlain <;> split_ifs <;> simp_all

/-- The rules are what the checks of compilation let pass. -/
theorem isValid_iff : d.IsValid ↔ d.checkReference = .ok () ∧ d.checkAccess = .ok () ∧
    d.checkBounds = .ok () ∧ d.checkDefault = .ok () ∧
      ∀ value, d.default? = some value → (d.place 0).validate value = .ok () := by
  rw [checkReference_eq_ok_iff, checkAccess_eq_ok_iff, checkBounds_eq_ok_iff,
    checkDefault_eq_ok_iff]
  constructor
  · intro h
    exact ⟨⟨h.target, h.slots, h.backRef⟩, h.script, ⟨h.bounds, h.ordered⟩,
      ⟨h.optional, h.defaultKind⟩, h.default⟩
  · rintro ⟨⟨htarget, hslots, hbackRef⟩, hscript, ⟨hbounds, hordered⟩,
      ⟨hoptional, hdefaultKind⟩, hdefault⟩
    exact ⟨htarget, hslots, hbackRef, hscript, hbounds, hordered, hoptional, hdefaultKind,
      hdefault⟩

theorem checkReference_error (h : d.checkReference = .error e) : e.prop? = some d.name := by
  unfold checkReference at h
  split_ifs at h <;> cases h <;> rfl

/-- A complaint about access names the property. -/
theorem checkAccess_error (h : d.checkAccess = .error e) : e.prop? = some d.name := by
  unfold checkAccess at h
  split_ifs at h
  cases h
  rfl

/-- A complaint about bounds names the property. -/
theorem checkBounds_error (h : d.checkBounds = .error e) : e.prop? = some d.name := by
  unfold checkBounds at h
  split_ifs at h
  · cases h
    rfl
  split at h
  · split_ifs at h
    cases h
    rfl
  · cases h

theorem checkDefault_error (h : d.checkDefault = .error e) : e.prop? = some d.name := by
  unfold checkDefault at h
  split_ifs at h <;> cases h <;> rfl

end Declaration

namespace Property

variable {p : Property} {value : Value} {e : SchemaError}

theorem checkShape_error (h : p.checkShape value = .error e) : e.prop? = some p.name := by
  unfold checkShape at h
  split at h <;> (try split_ifs at h) <;> cases h <;> rfl

/-- A refused value is refused in the name of the property. -/
theorem validate_error (h : p.validate value = .error e) : e.prop? = some p.name := by
  unfold validate at h
  rcases Layout.bind_eq_error_iff.mp h with h | ⟨-, h⟩
  · exact checkShape_error h
  · unfold checkBounds at h
    split at h
    · cases h
    · split_ifs at h
      cases h
      rfl

end Property

/-- A property is passed on when it accepts its own default. -/
theorem Property.checked_eq_ok_iff {p q : Property} :
    (match p.default? with
      | some value => do
        p.validate value
        pure p
      | none => pure p) = .ok q ↔
    (∀ value, p.default? = some value → p.validate value = .ok ()) ∧ q = p := by
  cases p.default? with
  | none =>
    constructor
    · rintro ⟨⟩
      exact ⟨fun _ h => (nomatch h), rfl⟩
    · rintro ⟨-, rfl⟩
      rfl
  | some value =>
    simp only [Layout.bind_eq_ok_iff, Option.some.injEq, forall_eq']
    refine and_congr_right fun _ => ?_
    exact ⟨fun h => (Except.ok.inj h).symm, fun h => congrArg Except.ok h.symm⟩

/-- A property that is not passed on refuses its own default. -/
theorem Property.checked_eq_error_iff {p : Property} {e : SchemaError} :
    (match p.default? with
      | some value => do
        p.validate value
        pure p
      | none => pure p) = .error e ↔
    ∃ value, p.default? = some value ∧ p.validate value = .error e := by
  cases p.default? with
  | none => exact ⟨fun h => (nomatch h), fun ⟨_, h, _⟩ => (nomatch h)⟩
  | some value =>
    simp only [Layout.bind_eq_error_iff, Option.some.injEq, exists_eq_left']
    exact ⟨fun h => h.elim (fun h => h) fun h => (nomatch h.2), .inl⟩

namespace Layout

variable {resource : String} {offset : Nat} {d : Declaration} {p : Property} {e : SchemaError}

/-- One declaration compiles when it is valid and fits by itself, and then to the property in its
place. -/
theorem compileOne_eq_ok_iff : compileOne resource offset d = .ok p ↔
    (d.resolve resource).IsValid ∧ 4 * d.count ≤ maxLength ∧
      p = (d.resolve resource).place offset := by
  unfold compileOne
  simp only [bind_eq_ok_iff, Declaration.count_resolve, Declaration.isValid_iff]
  by_cases hbig : maxLength < 4 * d.count
  · rw [if_pos hbig]
    constructor
    · rintro ⟨-, -, -, -, h⟩
      cases h
    · rintro ⟨-, hfits, -⟩
      exact absurd hfits (Nat.not_le.mpr hbig)
  · rw [if_neg hbig]
    constructor
    · rintro ⟨href, haccess, hbounds, hkind, h⟩
      obtain ⟨hdefault, rfl⟩ := Property.checked_eq_ok_iff.mp h
      exact ⟨⟨href, haccess, hbounds, hkind, hdefault⟩, Nat.not_lt.mp hbig, rfl⟩
    · rintro ⟨⟨href, haccess, hbounds, hkind, hdefault⟩, -, rfl⟩
      exact ⟨href, haccess, hbounds, hkind, Property.checked_eq_ok_iff.mpr ⟨hdefault, rfl⟩⟩

/-- A declaration that does not compile breaks a rule, and the complaint names it, or does not
fit by itself. -/
theorem compileOne_error (h : compileOne resource offset d = .error e) :
    ¬ (d.resolve resource).IsValid ∧ e.prop? = some d.name ∨
      maxLength < 4 * d.count ∧ e = .layoutTooLarge resource := by
  rw [Declaration.isValid_iff, ← Declaration.name_resolve d resource]
  unfold compileOne at h
  simp only [bind_eq_error_iff, Declaration.count_resolve] at h
  rcases h with h | ⟨-, h | ⟨-, h | ⟨-, h | ⟨-, h⟩⟩⟩⟩
  · exact .inl ⟨fun hvalid => by simp [h] at hvalid, Declaration.checkReference_error h⟩
  · exact .inl ⟨fun hvalid => by simp [h] at hvalid, Declaration.checkAccess_error h⟩
  · exact .inl ⟨fun hvalid => by simp [h] at hvalid, Declaration.checkBounds_error h⟩
  · exact .inl ⟨fun hvalid => by simp [h] at hvalid, Declaration.checkDefault_error h⟩
  · split_ifs at h with hbig
    · cases h
      exact .inr ⟨hbig, rfl⟩
    · obtain ⟨value, hv, hvalue⟩ := Property.checked_eq_error_iff.mp h
      refine .inl ⟨?_, Property.validate_error hvalue⟩
      rintro ⟨-, -, -, -, hdefault⟩
      cases hvalue.symm.trans (hdefault value hv)

/-- A layout takes one more declaration that is valid, still fits and has a new name. -/
theorem extend_eq_ok_iff {layout after : Layout} : layout.extend d = .ok after ↔
    (d.resolve layout.name).IsValid ∧ layout.byteLength + 4 * d.count ≤ maxLength ∧
      d.name ∉ layout.props.map (·.name) ∧
        after = { layout with
          props := layout.props ++ [(d.resolve layout.name).place layout.byteLength],
          byteLength := layout.byteLength + 4 * d.count } := by
  have hname : ((d.resolve layout.name).place layout.byteLength).name = d.name :=
    Declaration.name_resolve d _
  have hlength := d.length_place layout.name layout.byteLength
  unfold extend
  constructor
  · intro h
    obtain ⟨p, hp, h⟩ := ok_of_bind h
    obtain ⟨hvalid, -, rfl⟩ := compileOne_eq_ok_iff.mp hp
    dsimp only at h
    rw [hname, hlength] at h
    by_cases hbig : maxLength < layout.byteLength + 4 * d.count
    · rw [if_pos hbig] at h
      cases h
    rw [if_neg hbig] at h
    by_cases hdup : layout.props.any (·.name == d.name) = true
    · rw [if_pos hdup] at h
      cases h
    rw [if_neg hdup] at h
    cases h
    exact ⟨hvalid, Nat.not_lt.mp hbig, by simpa using hdup, rfl⟩
  · rintro ⟨hvalid, hfits, hnew, rfl⟩
    rw [compileOne_eq_ok_iff.mpr ⟨hvalid, Nat.le_trans (Nat.le_add_left _ _) hfits, rfl⟩]
    dsimp only [bind, Except.bind]
    rw [hname, hlength, if_neg (Nat.not_lt.mpr hfits), if_neg (by simpa using hnew)]
    rfl

/-- A layout that does not take a declaration complains of a rule that it breaks, of its length or
of its name. -/
theorem extend_error {layout : Layout} (h : layout.extend d = .error e) :
    ¬ (d.resolve layout.name).IsValid ∧ e.prop? = some d.name ∨
      maxLength < layout.byteLength + 4 * d.count ∧ e = .layoutTooLarge layout.name ∨
        d.name ∈ layout.props.map (·.name) ∧ e = .duplicateProp layout.name d.name := by
  have hname : ((d.resolve layout.name).place layout.byteLength).name = d.name :=
    Declaration.name_resolve d _
  have hlength := d.length_place layout.name layout.byteLength
  unfold extend at h
  cases hp : compileOne layout.name layout.byteLength d with
  | error e' =>
    rw [hp] at h
    cases h
    rcases compileOne_error hp with hinvalid | ⟨hbig, he⟩
    · exact .inl hinvalid
    · exact .inr (.inl ⟨by omega, he⟩)
  | ok p =>
    rw [hp] at h
    obtain ⟨-, -, rfl⟩ := compileOne_eq_ok_iff.mp hp
    dsimp only [bind, Except.bind] at h
    rw [hname, hlength] at h
    by_cases hbig : maxLength < layout.byteLength + 4 * d.count
    · rw [if_pos hbig] at h
      cases h
      exact .inr (.inl ⟨hbig, rfl⟩)
    rw [if_neg hbig] at h
    by_cases hdup : layout.props.any (·.name == d.name) = true
    · rw [if_pos hdup] at h
      cases h
      exact .inr (.inr ⟨by simpa using hdup, rfl⟩)
    · rw [if_neg hdup] at h
      cases h

@[simp]
theorem extent_cons (d : Declaration) (rest : List Declaration) :
    extent (d :: rest) = 4 * d.count + extent rest :=
  rfl

/-- Declarations one longer ask for the bytes of the last one more. -/
@[simp]
theorem extent_append_singleton (before : List Declaration) (d : Declaration) :
    extent (before ++ [d]) = extent before + 4 * d.count := by
  simp [extent]

/-- The layout of declarations laid out back to back. -/
def packed (resource : String) (declared : List Declaration) : Layout :=
  ⟨resource, placeAll resource 0 declared, extent declared⟩

/-- The last of several declarations is placed behind the others. -/
theorem placeAll_append_singleton (before : List Declaration) (d : Declaration) :
    placeAll resource offset (before ++ [d]) =
      placeAll resource offset before ++
        [(d.resolve resource).place (offset + extent before)] := by
  induction before generalizing offset with
  | nil => rfl
  | cons c rest ih =>
    simp only [List.cons_append, placeAll, ih, extent, List.map_cons, List.sum_cons,
      Nat.add_assoc]

/-- Placing declarations keeps their names and their order. -/
theorem map_name_placeAll (resource : String) (offset : Nat) (declared : List Declaration) :
    (placeAll resource offset declared).map (·.name) = declared.map (·.name) := by
  induction declared generalizing offset with
  | nil => rfl
  | cons d rest ih =>
    rw [placeAll, List.map_cons, List.map_cons, ih]
    exact congrArg (· :: _) (Declaration.name_resolve d resource)

/-- One more declaration can stand behind the others when it is valid, still fits and has a new
name. -/
theorem isDeclarable_append_singleton {before : List Declaration} :
    IsDeclarable resource (before ++ [d]) ↔
      IsDeclarable resource before ∧ (d.resolve resource).IsValid ∧
        extent before + 4 * d.count ≤ maxLength ∧ d.name ∉ before.map (·.name) := by
  constructor
  · rintro ⟨hnames, hvalid, hfits⟩
    rw [extent_append_singleton] at hfits
    rw [List.map_append, List.map_singleton, List.nodup_append] at hnames
    refine ⟨⟨hnames.1, fun c hc => hvalid c (List.mem_append_left _ hc), by omega⟩,
      hvalid d (by simp), hfits, fun hd => ?_⟩
    exact hnames.2.2 _ hd _ (by simp) rfl
  · rintro ⟨⟨hnames, hvalid, -⟩, hd, hfits, hnew⟩
    refine ⟨?_, ?_, by rwa [extent_append_singleton]⟩
    · rw [List.map_append, List.map_singleton, List.nodup_append]
      refine ⟨hnames, List.pairwise_singleton _ _, ?_⟩
      rintro name hname _ hd rfl
      exact hnew (by rwa [List.mem_singleton.mp hd] at hname)
    · intro c hc
      rcases List.mem_append.mp hc with hc | hc
      · exact hvalid c hc
      · rwa [List.mem_singleton.mp hc]

/-- Behind declarations that were laid out, one more is added when they can stand together. -/
theorem extend_packed_eq_ok_iff {before : List Declaration} {layout : Layout}
    (hbefore : IsDeclarable resource before) :
    (packed resource before).extend d = .ok layout ↔
      IsDeclarable resource (before ++ [d]) ∧ layout = packed resource (before ++ [d]) := by
  have hpacked : packed resource (before ++ [d]) =
      ⟨resource, placeAll resource 0 before ++ [(d.resolve resource).place (extent before)],
        extent before + 4 * d.count⟩ := by
    rw [packed, placeAll_append_singleton, extent_append_singleton, Nat.zero_add]
  rw [extend_eq_ok_iff, isDeclarable_append_singleton, hpacked,
    ← map_name_placeAll resource 0 before]
  exact ⟨fun ⟨hvalid, hfits, hnew, h⟩ => ⟨⟨hbefore, hvalid, hfits, hnew⟩, h⟩,
    fun ⟨⟨_, hvalid, hfits, hnew⟩, h⟩ => ⟨hvalid, hfits, hnew, h⟩⟩

/-- A declaration that is not added behind others that were laid out is complained about with
reason. -/
theorem extend_packed_error {before : List Declaration}
    (h : (packed resource before).extend d = .error e) : Complains resource before d e := by
  rcases extend_error h with ⟨hinvalid, he⟩ | ⟨hbig, rfl⟩ | ⟨hdup, rfl⟩
  · exact .invalid hinvalid he
  · exact .tooLarge (by rwa [extent_append_singleton])
  · exact .duplicate (by rwa [← map_name_placeAll resource 0 before])

/-- Compiling one more declaration is adding it to what the others compile to. -/
theorem compile_append_singleton (before : List Declaration) (d : Declaration) :
    compile resource (before ++ [d]) = compile resource before >>= fun layout =>
      layout.extend d := by
  unfold compile
  rw [List.foldlM_append]
  refine congrArg _ (funext fun layout => ?_)
  rw [List.foldlM_cons]
  cases layout.extend d <;> rfl

/-- Declarations compile when they can stand together, and then to one layout only. -/
theorem compile_eq_ok_iff {declared : List Declaration} {layout : Layout} :
    compile resource declared = .ok layout ↔
      IsDeclarable resource declared ∧ layout = packed resource declared := by
  induction declared using List.reverseRecOn generalizing layout with
  | nil =>
    constructor
    · rintro ⟨⟩
      exact ⟨⟨List.nodup_nil, by simp, Nat.zero_le _⟩, rfl⟩
    · rintro ⟨-, rfl⟩
      rfl
  | append_singleton before d ih =>
    rw [compile_append_singleton]
    constructor
    · intro h
      obtain ⟨_, hinitial, h⟩ := ok_of_bind h
      obtain ⟨hbefore, rfl⟩ := ih.mp hinitial
      exact (extend_packed_eq_ok_iff hbefore).mp h
    · intro h
      have hbefore := (isDeclarable_append_singleton.mp h.1).1
      rw [ih.mpr ⟨hbefore, rfl⟩]
      exact (extend_packed_eq_ok_iff hbefore).mpr h

/-- Declarations that do not compile fail at the first that cannot follow its predecessors, and
the complaint is about that one. -/
theorem compile_error {declared : List Declaration} (h : compile resource declared = .error e) :
    ∃ before d after, declared = before ++ d :: after ∧ IsDeclarable resource before ∧
      ¬ IsDeclarable resource (before ++ [d]) ∧ Complains resource before d e := by
  induction declared using List.reverseRecOn with
  | nil => cases h
  | append_singleton initial last ih =>
    rw [compile_append_singleton] at h
    cases hinitial : compile resource initial with
    | error e' =>
      rw [hinitial] at h
      cases h
      obtain ⟨before, d, after, rfl, hbefore, hd, hcomplains⟩ := ih hinitial
      exact ⟨before, d, after ++ [last], by simp, hbefore, hd, hcomplains⟩
    | ok layout =>
      rw [hinitial] at h
      obtain ⟨hbefore, rfl⟩ := compile_eq_ok_iff.mp hinitial
      refine ⟨initial, last, [], rfl, hbefore, fun hd => ?_, extend_packed_error h⟩
      cases h.symm.trans ((extend_packed_eq_ok_iff hbefore).mpr ⟨hd, rfl⟩)

section Placed

variable {declared : List Declaration}

/-- What is laid out is a declaration in some place. -/
theorem mem_placeAll (hp : p ∈ placeAll resource offset declared) :
    ∃ d ∈ declared, ∃ start, p = (d.resolve resource).place start := by
  induction declared generalizing offset with
  | nil => cases hp
  | cons d rest ih =>
    rcases List.mem_cons.mp hp with rfl | hp
    · exact ⟨d, List.mem_cons_self, offset, rfl⟩
    · obtain ⟨c, hc, h⟩ := ih hp
      exact ⟨c, List.mem_cons_of_mem d hc, h⟩

/-- Declarations are laid out one by one. -/
theorem forall₂_placeAll (offset : Nat) (declared : List Declaration) :
    List.Forall₂ (fun d p => ∃ start, p = (d.resolve resource).place start) declared
      (placeAll resource offset declared) := by
  induction declared generalizing offset with
  | nil => exact .nil
  | cons d rest ih => exact .cons ⟨offset, rfl⟩ (ih _)

/-- What is laid out begins where its predecessors end. -/
theorem offset_of_placeAll {before after : List Property}
    (h : placeAll resource offset declared = before ++ p :: after) :
    p.offset = offset + (before.map Property.length).sum := by
  induction declared generalizing offset before with
  | nil => simp [placeAll] at h
  | cons d rest ih =>
    cases before with
    | nil =>
      cases h
      rfl
    | cons q before =>
      obtain ⟨rfl, hrest⟩ := List.cons.inj h
      rw [ih hrest, List.map_cons, List.sum_cons, Declaration.length_place, Nat.add_assoc]

/-- The bytes that declarations take up are those of the declarations one by one. -/
theorem covered_placeAll (resource : String) (offset : Nat) (declared : List Declaration)
    (place : Nat) :
    (offset ≤ place ∧ place < offset + extent declared) ↔
      ∃ p ∈ placeAll resource offset declared, p.offset ≤ place ∧ place < p.stop := by
  induction declared generalizing offset with
  | nil => simp [placeAll, extent]
  | cons d rest ih =>
    simp only [placeAll, List.mem_cons, exists_eq_or_imp, ← ih, Declaration.stop_place,
      extent_cons]
    show _ ↔ (offset ≤ place ∧ place < offset + 4 * d.count) ∨ _
    omega

/-- No two declarations that are laid out meet: each ends before the next begins. -/
theorem pairwise_placeAll (resource : String) (offset : Nat) (declared : List Declaration) :
    (placeAll resource offset declared).Pairwise fun p q => p.stop ≤ q.offset := by
  induction declared generalizing offset with
  | nil => exact .nil
  | cons d rest ih =>
    refine .cons (fun q hq => ?_) (ih _)
    obtain ⟨before, after, h⟩ := List.append_of_mem hq
    rw [offset_of_placeAll h, Declaration.stop_place]
    exact Nat.le_add_right _ _

/-- What is laid out ends inside the extent of the declarations. -/
theorem stop_le_of_placeAll (hp : p ∈ placeAll resource offset declared) :
    p.stop ≤ offset + extent declared := by
  induction declared generalizing offset with
  | nil => cases hp
  | cons d rest ih =>
    rw [extent_cons, ← Nat.add_assoc]
    rcases List.mem_cons.mp hp with rfl | hp
    · rw [Declaration.stop_place]
      exact Nat.le_add_right _ _
    · exact ih hp

/-- A regular declaration that is valid has bytes. -/
theorem count_pos (hd : d.IsRegular) (hvalid : (d.resolve resource).IsValid) : 0 < d.count := by
  rw [← Declaration.count_resolve d resource]
  cases hfixed : (d.resolve resource).kind.fixedCount with
  | some n =>
    rw [Declaration.isRegular_resolve hd resource n hfixed]
    revert hfixed
    cases (d.resolve resource).kind <;> simp [Kind.fixedCount] <;> omega
  | none =>
    refine Nat.pos_of_ne_zero (hvalid.slots ?_)
    revert hfixed
    cases (d.resolve resource).kind <;> simp [Kind.fixedCount, Kind.isReference]

/-- Declarations that can stand together are packed: in their order, each behind the last one,
without a gap. -/
theorem isPacked_packed (hregular : ∀ d ∈ declared, d.IsRegular)
    (h : IsDeclarable resource declared) :
    IsPacked resource declared (packed resource declared) := by
  have hapart := pairwise_placeAll resource 0 declared
  have hpos : ∀ p ∈ (packed resource declared).props, p.offset < p.stop := by
    intro p hp
    obtain ⟨d, hd, start, rfl⟩ := mem_placeAll hp
    have hcount := count_pos (hregular d hd) (h.valid d hd)
    rw [Declaration.stop_place]
    show start < start + 4 * d.count
    omega
  refine ⟨rfl, forall₂_placeAll 0 declared, ?_, ?_, ?_, ?_, ?_⟩
  · intro before p after h
    rw [offset_of_placeAll h, Nat.zero_add]
  · refine hapart.imp_of_mem fun hp _ hpq => ?_
    exact Nat.lt_of_lt_of_le (hpos _ hp) hpq
  · refine hapart.imp fun hpq place => ?_
    omega
  · intro place
    refine Iff.trans ?_ (covered_placeAll resource 0 declared place)
    rw [Nat.zero_add]
    exact ⟨fun h => ⟨Nat.zero_le _, h⟩, And.right⟩
  · intro p hp
    obtain ⟨d, -, start, rfl⟩ := mem_placeAll hp
    exact Declaration.resolve_ne_selfRef d resource

end Placed

/-- Compilation accepts exactly the declarations that can stand together and packs them; otherwise
it complains about the first declaration that cannot follow its predecessors. -/
theorem compile_accepts_exactly (resource : String) (declared : List Declaration)
    (hregular : ∀ d ∈ declared, d.IsRegular) :
    ((∃ layout, compile resource declared = .ok layout) ↔ IsDeclarable resource declared) ∧
    (∀ layout, compile resource declared = .ok layout → IsPacked resource declared layout) ∧
    (∀ e, compile resource declared = .error e → ∃ before d after,
      declared = before ++ d :: after ∧ IsDeclarable resource before ∧
        ¬ IsDeclarable resource (before ++ [d]) ∧ Complains resource before d e) := by
  refine ⟨?_, ?_, fun _ => compile_error⟩
  · constructor
    · rintro ⟨layout, h⟩
      exact (compile_eq_ok_iff.mp h).1
    · intro h
      exact ⟨_, compile_eq_ok_iff.mpr ⟨h, rfl⟩⟩
  · intro layout h
    obtain ⟨hdeclarable, rfl⟩ := compile_eq_ok_iff.mp h
    exact isPacked_packed hregular hdeclarable

end Layout

namespace Samples

/-- Every rule at work: a number with bounds and a default, a text with a default, and references
to the own type. -/
def declared : List Declaration :=
  [{ Declaration.ofKind "level" .u32 with
      default? := some (.word 3), min? := some (.ofWord 1), max? := some (.ofWord 9) },
    { Declaration.ofKind "label" .string with default? := some (.text "none") },
    { Declaration.ofKind "parent" .selfRef with backRef := true },
    Declaration.refArray "children" "node" 4]

/-- Three properties of one word each and four slots take up 28 bytes without a gap; a second
`label` is refused for its name. -/
theorem compiled_declared :
    (∃ layout, Layout.compile "node" declared = .ok layout ∧
      Layout.IsPacked "node" declared layout ∧ layout.byteLength = 28) ∧
    ∃ before d after,
      declared ++ [.ofKind "label" .vec3, .ofKind "parent" .rgb] = before ++ d :: after ∧
        Layout.IsDeclarable "node" before ∧ ¬ Layout.IsDeclarable "node" (before ++ [d]) ∧
        Layout.Complains "node" before d (.duplicateProp "node" "label") := by
  refine ⟨⟨_, rfl, (Layout.compile_accepts_exactly "node" declared ?_).2.1 _ rfl, rfl⟩,
    (Layout.compile_accepts_exactly "node" _ ?_).2.2 _ rfl⟩
  · decide
  · decide

end Samples

end Framecast
