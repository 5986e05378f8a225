import Framecast.Number.Binary

/-!
# The shortest decimal that reads back

Every decimal strictly between the two midpoints around a double reads back as
that double; the midpoints themselves do so when the significand is even. Among
the grids of the powers of ten, from coarse to fine, the first with a point in
that interval gives the shortest decimal. Of the two grid points around the
number the nearer is taken, and of two equally near the larger.

All comparisons are between natural numbers, after clearing denominators.
-/

namespace Framecast

/-- A positive decimal `digits * 10 ^ exponent`. -/
structure Decimal where
  /-- The significant digits, read as one number. -/
  digits : Nat
  /-- The power of ten of the last digit. -/
  exponent : Int
  deriving DecidableEq, Repr, Inhabited

namespace Shortest

/-- A positive binary number `significand * 2 ^ exponent` with the interval of the reals that
round to it, in quarters of its last place. -/
structure Target where
  /-- The significand, without its sign. -/
  significand : Nat
  /-- The power of two of the last significand bit. -/
  exponent : Int
  /-- How many quarters the interval reaches below: one at a power of two, otherwise two. -/
  below : Nat

/-- The magnitude of a finite nonzero double. -/
def Target.ofBinary (x : Binary64) : Target :=
  if x.exponentField = 0 then ⟨x.fractionField, -1074, 2⟩
  else
    ⟨(1 <<< 52) + x.fractionField, (x.exponentField : Int) - 1075,
      if x.fractionField = 0 ∧ 1 < x.exponentField then 1 else 2⟩

/-- A decimal grid and a binary grid brought to a common denominator. -/
structure Scale where
  /-- One step of the decimal grid. -/
  ten : Nat
  /-- A quarter of the last place of the binary number. -/
  quarter : Nat

/-- The common scale of `10 ^ s` and of the quarters of a target. -/
def Target.scale (t : Target) (s : Int) : Scale :=
  let q := t.exponent - 2
  ⟨Nat.pow 10 s.toNat <<< (-q).toNat, Nat.pow 10 (-s).toNat <<< q.toNat⟩

/-- Whether the decimal `d * 10 ^ s` rounds to the target; the ends count for an even
significand only. -/
def Target.covers (t : Target) (s : Int) (d : Nat) : Bool :=
  let c := t.scale s
  let low := (4 * t.significand - t.below) * c.quarter
  let high := (4 * t.significand + 2) * c.quarter
  if t.significand % 2 = 0 then low ≤ d * c.ten && d * c.ten ≤ high
  else low < d * c.ten && d * c.ten < high

/-- The neighbour of the target on the grid `10 ^ s` that rounds to it, if there is one: the
nearer of two, and the larger of two equally near. -/
def Target.neighbour? (t : Target) (s : Int) : Option Nat :=
  let c := t.scale s
  let d := 4 * t.significand * c.quarter / c.ten
  let excess := 4 * t.significand * c.quarter - d * c.ten
  match t.covers s d, t.covers s (d + 1) with
  | true, true => some (if 2 * excess < c.ten then d else d + 1)
  | true, false => some d
  | false, true => some (d + 1)
  | false, false => none

/-- The first hit on the grids `10 ^ s`, `10 ^ (s - 1)`, …, at most `n` of them. -/
def Target.search (t : Target) : Nat → Int → Decimal
  | 0, s => ⟨0, s⟩
  | n + 1, s =>
    match t.neighbour? s with
    | some d => ⟨d, s⟩
    | none => t.search n (s - 1)

end Shortest

/-- The shortest decimal that reads back as the finite nonzero double `x`, sign apart. No double
reaches `10 ^ 309`, and the smallest one is found at `10 ^ (-324)`. -/
def Binary64.shortest (x : Binary64) : Decimal := (Shortest.Target.ofBinary x).search 640 310

end Framecast
