import Framecast.View

/-!
# Typed properties

A marker ties a property to the type it is read as. Reading goes by the words of
the property's own bytes alone, so a marker that reaches past them has no answer.
References are resolved: only those to a resource of the marker's own type count.
-/

namespace Framecast

/-- How a property is declared and read. -/
inductive Marker where
  /-- A truth value. -/
  | bool
  /-- An unsigned word. -/
  | u32
  /-- A set of flags. -/
  | bitmask
  /-- A single-precision number. -/
  | f32
  /-- The components of a kind of fixed shape. -/
  | floats (kind : Kind)
  /-- One of so many variants, numbered from zero. -/
  | variant (count : Nat)
  /-- An interned text. -/
  | string
  /-- A raw buffer. -/
  | arrayBuffer
  /-- An owning reference. -/
  | ref (target : String)
  /-- A reverse pointer. -/
  | backRef (target : String)
  /-- A dense list of at most so many references. -/
  | refArray (target : String) (capacity : Nat)
  /-- So many numbered slots of references. -/
  | refMap (target : String) (capacity : Nat)
  deriving DecidableEq, Repr, Inhabited

/-- What a typed property reads as. -/
inductive Reading where
  /-- A truth value. -/
  | bool (b : Bool)
  /-- A word. -/
  | word (w : UInt32)
  /-- A number. -/
  | float (x : Binary32)
  /-- Components. -/
  | floats (xs : List Binary32)
  /-- A variant, unless the word names none. -/
  | variant (number : Option UInt32)
  /-- A text; unset and missing texts are empty. -/
  | text (s : String)
  /-- A raw buffer, unless there is none. -/
  | buffer (b : Option RawBuffer)
  /-- A resource of the marker's type, unless there is none. -/
  | handle (id : Option ResourceId)
  /-- The resources of the marker's type in a list. -/
  | handles (ids : List ResourceId)
  /-- What is in each slot. -/
  | slots (ids : List (Option ResourceId))
  deriving DecidableEq, Repr, Inhabited

namespace Marker

/-- The bare declaration of a property. -/
def declare (m : Marker) (name : String) : Declaration :=
  match m with
  | .bool => .ofKind name .bool
  | .u32 => .ofKind name .u32
  | .bitmask => .ofKind name .bitmask
  | .f32 => .ofKind name .f32
  | .floats kind => .ofKind name kind
  | .variant _ => .ofKind name .enumeration
  | .string => .ofKind name .string
  | .arrayBuffer => .ofKind name .arrayBuffer
  | .ref target => .reference name target
  | .backRef target => { Declaration.reference name target with backRef := true }
  | .refArray target capacity => .refArray name target capacity
  | .refMap target capacity => .refMap name target capacity

/-- The words from word `i` on up to the first zero, at most `n` of them. -/
def readRun (bytes : Bytes) : Nat → Nat → Option (List UInt32)
  | 0, _ => some []
  | n + 1, i =>
    match bytes.word? i with
    | none => none
    | some w => if w = 0 then some [] else (readRun bytes n (i + 1)).map (w :: ·)

/-- Reads a property from its own bytes, if the marker stays inside them. -/
def read? (m : Marker) (view : View) (bytes : Bytes) : Option Reading :=
  match m with
  | .bool => (bytes.word? 0).map fun w => .bool (w != 0)
  | .u32 | .bitmask => (bytes.word? 0).map .word
  | .f32 => (bytes.single? 0).map .float
  | .floats kind => (bytes.singles? (kind.fixedCount.getD 0)).map .floats
  | .variant count =>
    (bytes.word? 0).map fun w => .variant (if w.toNat < count then some w else none)
  | .string =>
    (bytes.word? 0).map fun w => .text (if w = 0 then "" else (view.string? w).getD "")
  | .arrayBuffer => (bytes.word? 2).map fun w => .buffer (if w = 0 then none else view.buffer? w)
  | .ref target | .backRef target =>
    (bytes.word? 0).map fun w => .handle (view.resolve? target w)
  | .refArray target capacity =>
    (readRun bytes capacity 0).map fun ws => .handles (ws.filterMap (view.resolve? target))
  | .refMap target capacity =>
    (bytes.words? capacity).map fun ws => .slots (ws.map (view.resolve? target))

end Marker

namespace View

/-- Reads a property of an instance of a layout through a marker. The result holds nothing when
the marker reaches past the property's own bytes. -/
def readProp (view : View) (id : ResourceId) (layout : Layout) (name : String) (marker : Marker) :
    Except ResourceError (Option Reading) :=
  match view.type? id with
  | none => .error (.notFound id)
  | some actual =>
    if actual != layout.name then .error (.typeMismatch id layout.name actual)
    else
      match layout.prop? name with
      | none => .error (.unknownProp layout.name name)
      | some prop =>
        match view.bytes? id with
        | none => .error (.notFound id)
        | some bytes =>
          if bytes.length < prop.stop then .error (.notFound id)
          else .ok (marker.read? view (prop.slice bytes))

end View

end Framecast
