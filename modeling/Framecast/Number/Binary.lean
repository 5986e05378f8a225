/-!
# Binary floating-point patterns

Numbers travel as the bit patterns of the two IEEE 754 interchange formats, so
that the payload of a NaN and the sign of zero survive. Order and equality are
those of the standard, decided in exact integers: a NaN compares with nothing,
and the two zeros are equal. Widening a single to a double is exact; only a
signalling NaN changes, to the quiet NaN with the same payload.
-/

namespace Framecast

/-- A single-precision number, as its 32-bit pattern. -/
structure Binary32 where
  /-- Sign, eight exponent bits and 23 fraction bits, most significant first. -/
  bits : UInt32
  deriving DecidableEq, Repr, Inhabited

/-- A double-precision number, as its 64-bit pattern. -/
structure Binary64 where
  /-- Sign, eleven exponent bits and 52 fraction bits, most significant first. -/
  bits : UInt64
  deriving DecidableEq, Repr, Inhabited

namespace Binary64

/-- The pattern with the given sign, exponent field and fraction field. -/
def ofFields (negative : Bool) (exponent fraction : Nat) : Binary64 :=
  ⟨UInt64.ofNat ((if negative then 1 <<< 63 else 0) + (exponent <<< 52) + fraction)⟩

/-- The sign bit. -/
def negative (x : Binary64) : Bool := 1 <<< 63 ≤ x.bits.toNat

/-- The eleven exponent bits. -/
def exponentField (x : Binary64) : Nat := (x.bits.toNat >>> 52) % (1 <<< 11)

/-- The 52 fraction bits. -/
def fractionField (x : Binary64) : Nat := x.bits.toNat % (1 <<< 52)

/-- All exponent bits set and some fraction bit set. -/
def isNaN (x : Binary64) : Bool := x.exponentField == 2047 && x.fractionField != 0

/-- All exponent bits set and no fraction bit set. -/
def isInfinite (x : Binary64) : Bool := x.exponentField == 2047 && x.fractionField == 0

/-- Either of the two zeros. -/
def isZero (x : Binary64) : Bool := x.exponentField == 0 && x.fractionField == 0

/-- A signed integer that orders all patterns but the NaNs as the numbers they stand for. -/
def orderKey (x : Binary64) : Int :=
  if x.negative then -(x.bits.toNat % (1 <<< 63) : Nat) else (x.bits.toNat % (1 <<< 63) : Nat)

/-- The order of the standard: false as soon as one side is a NaN. -/
def less (x y : Binary64) : Bool := !x.isNaN && !y.isNaN && x.orderKey < y.orderKey

/-- The equality of the standard: a NaN differs from itself and the zeros agree. -/
def same (x y : Binary64) : Bool := !x.isNaN && !y.isNaN && x.orderKey == y.orderKey

/-- An unsigned word as a double; every word is represented exactly. -/
def ofWord (w : UInt32) : Binary64 :=
  if w = 0 then ofFields false 0 0
  else ofFields false (w.toNat.log2 + 1023) ((w.toNat - (1 <<< w.toNat.log2)) <<< (52 - w.toNat.log2))

theorem less_self (x : Binary64) : x.less x = false := by simp [less]

theorem less_antisymm {x y : Binary64} (h : x.less y = true) : y.less x = false := by
  simp only [less, Bool.and_eq_true, decide_eq_true_eq] at h
  simp only [less, Bool.and_eq_false_imp, decide_eq_false_iff_not]
  omega

end Binary64

namespace Binary32

/-- The sign bit. -/
def negative (x : Binary32) : Bool := 1 <<< 31 ≤ x.bits.toNat

/-- The eight exponent bits. -/
def exponentField (x : Binary32) : Nat := (x.bits.toNat >>> 23) % (1 <<< 8)

/-- The 23 fraction bits. -/
def fractionField (x : Binary32) : Nat := x.bits.toNat % (1 <<< 23)

/-- The double that stands for the same number. A NaN keeps its sign and its payload, in the
leading fraction bits, and becomes quiet. -/
def widen (x : Binary32) : Binary64 :=
  let fraction := x.fractionField
  if x.exponentField = 255 then
    if fraction = 0 then .ofFields x.negative 2047 0
    else
      .ofFields x.negative 2047
        (if fraction < 1 <<< 22 then fraction <<< 29 + (1 <<< 51) else fraction <<< 29)
  else if x.exponentField = 0 then
    if fraction = 0 then .ofFields x.negative 0 0
    else
      .ofFields x.negative (fraction.log2 + 874)
        ((fraction - (1 <<< fraction.log2)) <<< (52 - fraction.log2))
  else .ofFields x.negative (x.exponentField + 896) (fraction <<< 29)

/-- The equality of the standard on singles. -/
def same (x y : Binary32) : Bool := x.widen.same y.widen

end Binary32

end Framecast
