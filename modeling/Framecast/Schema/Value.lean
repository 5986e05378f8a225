import Framecast.RawBuffer
import Framecast.Number.Binary
import Framecast.Ring.Record

/-!
# Property values

A value is what a property is given or read back as, whatever its layout.
-/

namespace Framecast

/-- The value of a property. -/
inductive Value where
  /-- A truth value. -/
  | bool (b : Bool)
  /-- An unsigned word. -/
  | word (w : UInt32)
  /-- A single-precision number. -/
  | float (x : Binary32)
  /-- The components of a vector, colour, rotation or matrix. -/
  | floats (xs : List Binary32)
  /-- A text; the empty text means that there is none. -/
  | text (s : String)
  /-- A raw buffer. -/
  | buffer (b : RawBuffer)
  /-- A reference, or none. -/
  | ref (id : Option ResourceId)
  /-- The slots of a collection, each a reference or none. -/
  | refs (slots : List (Option ResourceId))
  deriving DecidableEq, Repr, Inhabited

namespace Value

/-- The number that bounds apply to. -/
def number? : Value → Option Binary64
  | .word w => some (.ofWord w)
  | .float x => some x.widen
  | _ => none

/-- Whether two lists of components agree one by one. -/
def sameFloats : List Binary32 → List Binary32 → Bool
  | [], [] => true
  | x :: xs, y :: ys => x.same y && sameFloats xs ys
  | _, _ => false

/-- Equality of values: numbers compare as numbers and buffers by their storage. -/
def same : Value → Value → Bool
  | .bool a, .bool b => a == b
  | .word a, .word b => a == b
  | .float a, .float b => a.same b
  | .floats a, .floats b => sameFloats a b
  | .text a, .text b => a == b
  | .buffer a, .buffer b => a.sameStorage b
  | .ref a, .ref b => a == b
  | .refs a, .refs b => a == b
  | _, _ => false

end Value

end Framecast
