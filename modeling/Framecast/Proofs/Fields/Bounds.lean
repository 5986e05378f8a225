import Framecast.Proofs.Fields.Puts

/-!
# Numbers within their bounds

A number is refused if it lies below the lower bound or above the upper one, and what is
neither lies between them, unless it is a NaN, which is not compared with anything. So
the numbers that were given to a property, and its default, are within its bounds. But
storage is zeros before anything is encoded, and a property without a default that was
given nothing has the number zero, whatever its bounds are.
-/

namespace Framecast

namespace Binary64

/-- Whether a number is at most another: less or equal, and false as soon as one side is a NaN. -/
def atMost (x y : Binary64) : Bool := x.less y || x.same y

/-- Of two numbers, one is less than the other or at least as great. -/
theorem atMost_of_not_less {x y : Binary64} (hx : x.isNaN = false) (hy : y.isNaN = false)
    (h : x.less y = false) : y.atMost x = true := by
  simp only [less, hx, hy, Bool.not_false, Bool.and_self, Bool.true_and,
    decide_eq_false_iff_not] at h
  simp only [atMost, less, same, hx, hy, Bool.not_false, Bool.and_self, Bool.true_and,
    Bool.or_eq_true, decide_eq_true_eq, beq_iff_eq]
  omega

/-- The exponent bits of a pattern are those that it was made of. -/
theorem exponentField_ofFields {exponent fraction : Nat} (he : exponent < 1 <<< 11)
    (hf : fraction < 1 <<< 52) : (ofFields false exponent fraction).exponentField = exponent := by
  have hbits : (ofFields false exponent fraction).bits.toNat = exponent * 2 ^ 52 + fraction := by
    show (UInt64.ofNat (0 + (exponent <<< 52) + fraction)).toNat = _
    rw [UInt64.toNat_ofNat', Nat.shiftLeft_eq, Nat.zero_add, Nat.mod_eq_of_lt]
    omega
  unfold exponentField
  rw [hbits, Nat.shiftRight_eq_div_pow, Nat.one_shiftLeft]
  omega

/-- Words are numbers. -/
theorem isNaN_ofWord (w : UInt32) : (ofWord w).isNaN = false := by
  unfold ofWord
  split
  · rfl
  · rename_i hzero
    have hpos : w.toNat ≠ 0 := fun h => hzero (UInt32.toNat_inj.mp h)
    have hlog : w.toNat.log2 < 32 := (Nat.log2_lt hpos).mpr w.toNat_lt
    have hlow : 2 ^ w.toNat.log2 ≤ w.toNat := Nat.log2_self_le hpos
    have hhigh : w.toNat < 2 ^ (w.toNat.log2 + 1) := Nat.lt_log2_self
    have hfraction :
        (w.toNat - 1 <<< w.toNat.log2) <<< (52 - w.toNat.log2) < 1 <<< 52 := by
      rw [Nat.shiftLeft_eq, Nat.one_shiftLeft, Nat.one_shiftLeft]
      calc (w.toNat - 2 ^ w.toNat.log2) * 2 ^ (52 - w.toNat.log2)
          < 2 ^ w.toNat.log2 * 2 ^ (52 - w.toNat.log2) := by
            refine Nat.mul_lt_mul_of_pos_right ?_ (Nat.two_pow_pos _)
            rw [Nat.pow_succ] at hhigh
            omega
        _ = 2 ^ 52 := by
            rw [← Nat.pow_add]
            congr 1
            omega
    unfold isNaN
    rw [exponentField_ofFields (by omega) hfraction]
    simp only [Bool.and_eq_false_imp, beq_iff_eq]
    omega

end Binary64

namespace Property

variable {p : Property} {value : Value} {part : Bytes}

/-- Whether a number is within the bounds that a property declares, as far as these are numbers. -/
structure Encloses (p : Property) (x : Binary64) : Prop where
  /-- The lower bound is at most the number. -/
  low : ∀ low, p.min? = some low → low.isNaN = false → low.atMost x = true
  /-- The number is at most the upper bound. -/
  high : ∀ high, p.max? = some high → high.isNaN = false → x.atMost high = true

/-- A number that a property accepts is within its bounds, unless it is a NaN. -/
theorem encloses_of_validate (h : p.validate value = .ok ()) {x : Binary64}
    (hx : value.number? = some x) (hnumber : x.isNaN = false) : p.Encloses x := by
  obtain ⟨_, -, hbounds⟩ := Layout.ok_of_bind h
  unfold checkBounds at hbounds
  rw [hx] at hbounds
  dsimp only at hbounds
  split at hbounds
  · cases hbounds
  · rename_i hinside
    simp only [below, above, Bool.or_eq_true, not_or, Bool.not_eq_true] at hinside
    constructor
    · intro low hlow hbound
      rw [hlow] at hinside
      exact Binary64.atMost_of_not_less hnumber hbound hinside.1
    · intro high hhigh hbound
      rw [hhigh] at hinside
      exact Binary64.atMost_of_not_less hbound hnumber hinside.2

/-- The value that a numeric property has before any is given to it: its default, or else zero. -/
def initial (p : Property) : Value :=
  p.default?.getD (if p.kind = .f32 then .float ⟨0⟩ else .word 0)

/-- Numeric properties are plain and have one word. -/
theorem of_isNumeric (hsound : p.IsSound) (h : p.kind.isNumeric = true) :
    p.kind.isPlain = true ∧ p.count = 1 := by
  rcases p.kind.isNumeric_iff.mp h with hk | hk
  · exact ⟨by rw [hk]; rfl, hsound.count_eq 1 (by rw [hk]; rfl)⟩
  · exact ⟨by rw [hk]; rfl, hsound.count_eq 1 (by rw [hk]; rfl)⟩

/-- A value of the shape of a numeric property is a word or a single. -/
theorem eq_of_checkShape (h : p.kind.isNumeric = true) (hshape : p.checkShape value = .ok ()) :
    (p.kind = .u32 ∧ ∃ w, value = .word w) ∨ (p.kind = .f32 ∧ ∃ x, value = .float x) := by
  unfold checkShape at hshape
  rcases p.kind.isNumeric_iff.mp h with hk | hk
  · rw [hk] at hshape
    cases value with
    | word w => exact .inl ⟨hk, w, rfl⟩
    | _ => cases hshape
  · rw [hk] at hshape
    cases value with
    | float x => exact .inr ⟨hk, x, rfl⟩
    | _ => cases hshape

/-- What a numeric property was given, or has before, is of its shape. -/
theorem checkShape_getD_initial (hsound : p.IsSound) (h : p.kind.isNumeric = true)
    {given? : Option Value}
    (hgiven : ∀ value, given? = some value → p.validate value = .ok ()) :
    p.checkShape (given?.getD p.initial) = .ok () := by
  have hvalid {value : Value} (hvalid : p.validate value = .ok ()) :
      p.checkShape value = .ok () := (Layout.ok_of_bind hvalid).choose_spec.1
  cases given? with
  | some value => exact hvalid (hgiven value rfl)
  | none =>
    unfold initial
    cases hdefault : p.default? with
    | some value => exact hvalid (hsound.default value hdefault).1
    | none =>
      unfold checkShape
      rcases p.kind.isNumeric_iff.mp h with hk | hk <;> rw [hk] <;> rfl

/-- The words that a numeric property was given, or has before. -/
theorem wordsGiven_of_isNumeric (hsound : p.IsSound) (h : p.kind.isNumeric = true)
    (given? : Option Value) : p.wordsGiven given? = p.wordsOf (given?.getD p.initial) := by
  unfold wordsGiven initial
  cases given? with
  | some value => rfl
  | none =>
    cases p.default? with
    | some value => rfl
    | none =>
      show List.replicate p.count 0 = _
      rw [(of_isNumeric hsound h).2]
      rcases p.kind.isNumeric_iff.mp h with hk | hk <;> rw [hk] <;> rfl

/-- The value of a numeric property is the one whose words it has. -/
theorem plainValue?_of_words (hsound : p.IsSound) (h : p.kind.isNumeric = true)
    (hshape : p.checkShape value = .ok ()) (hwords : p.words part = p.wordsOf value) :
    p.plainValue? part = some value := by
  have hword : p.words part = [part.word 0] := by
    unfold words
    rw [(of_isNumeric hsound h).2]
    rfl
  rw [hword] at hwords
  unfold plainValue?
  rcases eq_of_checkShape h hshape with ⟨hk, w, rfl⟩ | ⟨hk, x, rfl⟩
  · rw [hk, List.head_eq_of_cons_eq hwords]
  · rw [hk, List.head_eq_of_cons_eq hwords]

/-- The number of a numeric property that was given something valid or has a default is within its
bounds, unless it is a NaN. -/
theorem encloses_getD_initial (hsound : p.IsSound) (h : p.kind.isNumeric = true)
    {given? : Option Value} (hgiven : ∀ value, given? = some value → p.validate value = .ok ())
    (hsome : (given?.or p.default?).isSome = true) {x : Binary64}
    (hx : (given?.getD p.initial).number? = some x)
    (hnumber : p.kind = .u32 ∨ x.isNaN = false) : p.Encloses x := by
  have hnan : x.isNaN = false := by
    rcases hnumber with hk | hnan
    · rcases eq_of_checkShape h (checkShape_getD_initial hsound h hgiven) with
        ⟨-, w, hw⟩ | ⟨hk', -⟩
      · rw [hw] at hx
        cases hx
        exact Binary64.isNaN_ofWord w
      · rw [hk] at hk'
        cases hk'
    · exact hnan
  have hvalid : p.validate (given?.getD p.initial) = .ok () := by
    cases given? with
    | some value => exact hgiven value rfl
    | none =>
      unfold initial
      cases hdefault : p.default? with
      | some value => exact (hsound.default value hdefault).1
      | none =>
        rw [hdefault] at hsome
        cases hsome
  exact encloses_of_validate hvalid hx hnan

end Property

namespace Run

variable {config : Config} {supply : Supply} {past : List Moment} {b : Broadcast}

/-- Whatever was done, while fewer than `2 ^ 32 - 1` numbers have been given out, a numeric property has
the number that was last given to it, or its default, or else zero. In the first two cases the number is
within the bounds, if neither is a NaN. -/
theorem bounds_given (h : Run (.opened config supply) past b)
    (hc : ∀ m ∈ past, m.action.IsCompiled) (hl : b.registry.supply.Lasts) {x : ResourceId}
    {res : Resource} {schema : Schema} {bytes : Bytes} {prop : Property}
    (hres : b.registry.resource? x = some res) (hstorage : res.storage = .fields schema bytes)
    (hprop : prop ∈ schema.layout.props) (hnumeric : prop.kind.isNumeric = true) :
    ∃ value number, value = (lastPut? x prop.name past).getD prop.initial ∧
      b.registry.getProp x prop.name = .ok value ∧ value.number? = some number ∧
      (lastPut? x prop.name past = none → prop.default? = none → number.isZero = true) ∧
      (((lastPut? x prop.name past).or prop.default?).isSome = true →
        prop.kind = .u32 ∨ number.isNaN = false → prop.Encloses number) := by
  have hsound := (h.wellFormed hc hl).sound hres
  rw [hstorage] at hsound
  have hown := hsound.1.sound prop hprop
  obtain ⟨hwords, hvalid⟩ := h.words_direct hc hl hres hstorage hprop
    (.inl (Property.of_isNumeric hown hnumeric).1)
  rw [Property.wordsGiven_of_isNumeric hown hnumeric] at hwords
  have hshape := Property.checkShape_getD_initial hown hnumeric hvalid
  have hread : b.registry.getProp x prop.name =
      .ok ((lastPut? x prop.name past).getD prop.initial) := by
    unfold Registry.getProp Registry.valueOf
    simp only [hres, hstorage, hsound.1.prop?_of_mem hprop,
      Property.plainValue?_of_words hown hnumeric hshape hwords]
  have hnumber : ∃ number,
      ((lastPut? x prop.name past).getD prop.initial).number? = some number := by
    rcases Property.eq_of_checkShape hnumeric hshape with ⟨-, w, hw⟩ | ⟨-, y, hy⟩
    · exact ⟨_, by rw [hw]; rfl⟩
    · exact ⟨_, by rw [hy]; rfl⟩
  obtain ⟨number, hnumber⟩ := hnumber
  refine ⟨_, number, rfl, hread, hnumber, fun hnone hdefault => ?_, fun hsome =>
    Property.encloses_getD_initial hown hnumeric hvalid hsome hnumber⟩
  rw [hnone, Option.getD_none, Property.initial, hdefault, Option.getD_none] at hnumber
  split at hnumber
  · cases hnumber
    decide
  · cases hnumber
    decide

end Run

namespace Samples

/-- What is declared of the level of a gauge: a word of at least five. -/
def levelDeclared : Declaration :=
  { Declaration.ofKind "level" .u32 with min? := some (.ofWord 5) }

/-- What is declared of the heat of a gauge: a number from zero to a hundred. -/
def heatDeclared : Declaration :=
  { Declaration.ofKind "heat" .f32 with min? := some (.ofWord 0), max? := some (.ofWord 100) }

/-- The level of a gauge. -/
def level : Property := levelDeclared.place 0

/-- The heat of a gauge. -/
def heat : Property := heatDeclared.place 4

/-- The layout of a gauge. -/
def gauge : Layout := ⟨"gauge", [level, heat], 8⟩

theorem isCompiled_gauge : gauge.IsCompiled :=
  ⟨"gauge", [levelDeclared, heatDeclared], by decide, by decide +kernel⟩

/-- A gauge that is created with some values, and some writes to it. -/
def gauged (props : List (String × Value)) (puts : List (String × Value)) :
    List Moment × Broadcast :=
  (Broadcast.opened ⟨.game, 4⟩ ⟨0, .initial⟩).play
    (.createInstance ⟨0, gauge⟩ props {} :: puts.map fun (name, value) => .setProp 1 name value)

theorem isCompiled_gauged (props puts : List (String × Value)) :
    ∀ m ∈ (gauged props puts).1, m.action.IsCompiled := by
  refine Broadcast.isCompiled_play _ fun action h => ?_
  rcases List.mem_cons.mp h with rfl | h
  · exact isCompiled_gauge
  · obtain ⟨_, -, rfl⟩ := List.mem_map.mp h
    trivial

/-- A gauge that is created with a level of seven, which is then to be three. -/
def filledGauge : List Moment × Broadcast := gauged [("level", .word 7)] [("level", .word 3)]

/-- A gauge that is created with nothing, whose heat is then set to a NaN. -/
def emptyGauge : List Moment × Broadcast := gauged [] [("heat", .float ⟨0x7FC00000⟩)]

/-- A level of seven is read back and within its bound, and a level of three is refused. -/
theorem bounds_given_filledGauge :
    filledGauge.1.map Moment.answer =
      [.failed (.schema (.outOfBounds "level" (.ofWord 3) (some (.ofWord 5)) none)), .created 1] ∧
    filledGauge.2.registry.getProp 1 "level" = .ok (.word 7) ∧ level.Encloses (.ofWord 7) := by
  have hrun : Run (.opened ⟨.game, 4⟩ ⟨0, .initial⟩) filledGauge.1 filledGauge.2 := .play _ _
  have hlasts : filledGauge.2.registry.supply.Lasts := by decide +kernel
  have hgauge : (filledGauge.2.registry.resource? 1).map Resource.storage =
      some (.fields ⟨0, gauge⟩ [7, 0, 0, 0, 0, 0, 0, 0]) := by decide +kernel
  have hput : lastPut? 1 level.name filledGauge.1 = some (.word 7) := by decide +kernel
  obtain ⟨res, hres, hstorage⟩ := Option.map_eq_some_iff.mp hgauge
  obtain ⟨value, number, hvalue, hread, hnumber, -, hbounds⟩ :=
    Run.bounds_given hrun (isCompiled_gauged _ _) hlasts hres hstorage
      (List.mem_cons_self : level ∈ gauge.props) rfl
  rw [hput] at hvalue hbounds
  obtain rfl : value = .word 7 := hvalue
  obtain rfl : Binary64.ofWord 7 = number := Option.some.inj hnumber
  exact ⟨by decide +kernel, hread, hbounds rfl (.inl rfl)⟩

/-- The level of the empty gauge is zero, which is less than five, and its heat is a NaN, which is
neither at least zero nor at most a hundred. -/
theorem emptyGauge_out_of_bounds :
    Run (.opened ⟨.game, 4⟩ ⟨0, .initial⟩) emptyGauge.1 emptyGauge.2 ∧
    emptyGauge.1.map Moment.answer = [.done, .created 1] ∧
    (emptyGauge.2.registry.resource? 1).map Resource.type = some "gauge" ∧
    emptyGauge.2.registry.getProp 1 "level" = .ok (.word 0) ∧
    level.min? = some (.ofWord 5) ∧ (Binary64.ofWord 5).atMost (.ofWord 0) = false ∧
    emptyGauge.2.registry.getProp 1 "heat" = .ok (.float ⟨0x7FC00000⟩) ∧
    heat.min? = some (.ofWord 0) ∧ heat.max? = some (.ofWord 100) ∧
    (Binary64.ofWord 0).atMost (Binary32.widen ⟨0x7FC00000⟩) = false ∧
    (Binary32.widen ⟨0x7FC00000⟩).atMost (.ofWord 100) = false :=
  ⟨.play _ _, by decide +kernel, by decide +kernel, by decide +kernel, rfl, by decide +kernel,
    by decide +kernel, rfl, rfl, by decide +kernel, by decide +kernel⟩

end Samples

end Framecast
