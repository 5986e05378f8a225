import Framecast.Schema.Kind
import Framecast.Number.Text

/-!
# What can go wrong in a schema

A declaration can be refused while a layout is compiled, and a value can be
refused by the property it is meant for. Each failure is named for its cause,
and `message` gives its wording.
-/

namespace Framecast

/-- A refused declaration or value. -/
inductive SchemaError where
  /-- Two properties share a name. -/
  | duplicateProp (resource prop : String)
  /-- The layout does not fit 32-bit offsets. -/
  | layoutTooLarge (resource : String)
  /-- A property that must be supplied has a default. -/
  | requiredWithDefault (prop : String)
  /-- A kind that has no defaults has one. -/
  | defaultNotSupported (prop : String) (kind : Kind)
  /-- A collection without slots. -/
  | zeroCapacity (prop : String)
  /-- A reference to no type. -/
  | missingTarget (prop : String)
  /-- A back-reference that is not a single reference. -/
  | backRefOnNonRef (prop : String) (kind : Kind)
  /-- A property that scripts may write and the host may not. -/
  | scriptRequiresMutable (prop : String)
  /-- Bounds on a kind that has no order. -/
  | boundsOnNonNumeric (prop : String) (kind : Kind)
  /-- A lower bound above the upper one. -/
  | invertedBounds (prop : String) (min max : Binary64)
  /-- A value of another shape. -/
  | kindMismatch (prop : String) (kind : Kind)
  /-- A wrong number of components. -/
  | lengthMismatch (prop : String) (expected actual : Nat)
  /-- More references than slots. -/
  | capacityExceeded (prop : String) (capacity actual : Nat)
  /-- A number outside its bounds. -/
  | outOfBounds (prop : String) (value : Binary64) (min max : Option Binary64)
  deriving DecidableEq, Repr

/-- The wording of a schema failure. -/
def SchemaError.message : SchemaError → String
  | duplicateProp resource prop =>
    "resource `" ++ resource ++ "` declares property `" ++ prop ++ "` twice"
  | layoutTooLarge resource => "resource `" ++ resource ++ "` exceeds the addressable layout size"
  | requiredWithDefault prop => "required property `" ++ prop ++ "` cannot declare a default"
  | defaultNotSupported prop kind =>
    "property `" ++ prop ++ "` of kind " ++ kind.name ++ " cannot declare a default"
  | zeroCapacity prop => "reference collection `" ++ prop ++ "` needs a non-zero capacity"
  | missingTarget prop => "reference property `" ++ prop ++ "` names no target type"
  | backRefOnNonRef prop kind =>
    "property `" ++ prop ++ "` is marked as a back-reference but is a " ++ kind.name
  | scriptRequiresMutable prop => "script-writable property `" ++ prop ++ "` must also be mutable"
  | boundsOnNonNumeric prop kind =>
    "property `" ++ prop ++ "` of kind " ++ kind.name ++ " cannot declare bounds"
  | invertedBounds prop min max =>
    "property `" ++ prop ++ "` has min " ++ min.plainText ++ " above max " ++ max.plainText
  | kindMismatch prop kind => "value for property `" ++ prop ++ "` does not fit kind " ++ kind.name
  | lengthMismatch prop expected actual =>
    "property `" ++ prop ++ "` expects " ++ toString expected ++ " elements, got "
      ++ toString actual
  | capacityExceeded prop capacity actual =>
    "property `" ++ prop ++ "` holds at most " ++ toString capacity ++ " references, got "
      ++ toString actual
  | outOfBounds prop value min max =>
    "value " ++ value.plainText ++ " for property `" ++ prop ++ "` is outside "
      ++ Binary64.limitText min ++ "..=" ++ Binary64.limitText max

end Framecast
