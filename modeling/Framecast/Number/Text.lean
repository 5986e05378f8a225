import Framecast.Number.Shortest

/-!
# Numbers in messages

Messages show a number by its shortest decimal. The plain form is positional at
every size and shows no point after a whole number. The form used for bounds
always shows a point or an exponent: it is positional from `0.0001` up to, but
without, ten to the sixteenth, and scientific outside.
-/

namespace Framecast

namespace Decimal

/-- The significant digits as text. -/
def digitText (d : Decimal) : String := toString d.digits

/-- The power of ten of the leading digit. -/
def magnitude (d : Decimal) : Int := d.exponent + d.digitText.length - 1

/-- Whether the decimal is a whole number as written. -/
def isWhole (d : Decimal) : Bool := 0 ≤ d.exponent

/-- The decimal written out with zeros and a point where it needs them. -/
def positional (d : Decimal) : String :=
  let digits := d.digitText.toList
  let places := (-d.exponent).toNat
  if d.isWhole then String.ofList (digits ++ List.replicate d.exponent.toNat '0')
  else if places < digits.length then
    String.ofList
      (digits.take (digits.length - places) ++ '.' :: digits.drop (digits.length - places))
  else String.ofList ('0' :: '.' :: (List.replicate (places - digits.length) '0' ++ digits))

/-- The decimal with one digit before the point and a power of ten. -/
def scientific (d : Decimal) : String :=
  let digits := d.digitText.toList
  let rest := digits.drop 1
  let point := if rest.isEmpty then rest else '.' :: rest
  String.ofList (digits.take 1 ++ point) ++ "e" ++ toString d.magnitude

end Decimal

namespace Binary64

/-- The sign shown before a magnitude. -/
def signText (x : Binary64) : String := if x.negative then "-" else ""

/-- The plain form: no exponent, and no point after a whole number. -/
def plainText (x : Binary64) : String :=
  if x.isNaN then "NaN"
  else if x.isInfinite then x.signText ++ "inf"
  else if x.isZero then x.signText ++ "0"
  else x.signText ++ x.shortest.positional

/-- The form used for bounds, with a point or an exponent in every finite number. -/
def boundText (x : Binary64) : String :=
  if x.isNaN then "NaN"
  else if x.isInfinite then x.signText ++ "inf"
  else if x.isZero then x.signText ++ "0.0"
  else
    let d := x.shortest
    if d.magnitude < -4 || 16 ≤ d.magnitude then x.signText ++ d.scientific
    else x.signText ++ d.positional ++ (if d.isWhole then ".0" else "")

/-- An optional bound: the word `None`, or the number inside `Some(…)`. -/
def limitText : Option Binary64 → String
  | none => "None"
  | some x => "Some(" ++ x.boundText ++ ")"

end Binary64

end Framecast
