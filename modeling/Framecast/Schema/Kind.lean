/-!
# Property kinds

A property has one of seventeen kinds. All kinds are built from 32-bit words, and
all but the two collections have a fixed number of them.
-/

namespace Framecast

/-- The kind of a property. -/
inductive Kind where
  /-- A truth value. -/
  | bool
  /-- An unsigned word. -/
  | u32
  /-- A single-precision number. -/
  | f32
  /-- Two components. -/
  | vec2
  /-- Three components. -/
  | vec3
  /-- A colour. -/
  | rgb
  /-- A colour with opacity. -/
  | rgba
  /-- A rotation. -/
  | quat
  /-- A square matrix of order four. -/
  | mat4
  /-- A set of flags. -/
  | bitmask
  /-- A variant, by number. -/
  | enumeration
  /-- The number of an interned string. -/
  | string
  /-- Length, mutability and number of a raw buffer. -/
  | arrayBuffer
  /-- A reference to a resource. -/
  | ref
  /-- A reference to another resource of the declaring type; compiled into `ref`. -/
  | selfRef
  /-- A dense list of references. -/
  | refArray
  /-- Numbered slots of references. -/
  | refMap
  deriving DecidableEq, Repr, Inhabited

namespace Kind

/-- All kinds, in the order of their declaration. -/
def all : List Kind :=
  [bool, u32, f32, vec2, vec3, rgb, rgba, quat, mat4, bitmask, enumeration, string, arrayBuffer,
    ref, selfRef, refArray, refMap]

/-- The name shown for a kind. -/
def name : Kind → String
  | bool => "bool"
  | u32 => "u32"
  | f32 => "f32"
  | vec2 => "vec2"
  | vec3 => "vec3"
  | rgb => "rgb"
  | rgba => "rgba"
  | quat => "quat"
  | mat4 => "mat4"
  | bitmask => "bitmask"
  | enumeration => "enum"
  | string => "string"
  | arrayBuffer => "arrayBuffer"
  | ref => "ref"
  | selfRef => "selfRef"
  | refArray => "refArray"
  | refMap => "refMap"

/-- The kind shown under a name. -/
def ofName? (text : String) : Option Kind := all.find? (·.name == text)

/-- The number of words of a kind of fixed shape. -/
def fixedCount : Kind → Option Nat
  | bool | u32 | f32 | bitmask | enumeration | string | ref | selfRef => some 1
  | vec2 => some 2
  | vec3 | rgb | arrayBuffer => some 3
  | rgba | quat => some 4
  | mat4 => some 16
  | refArray | refMap => none

/-- Kinds whose words are resource numbers that may hold a reference. -/
def isReference : Kind → Bool
  | ref | selfRef | refArray | refMap => true
  | _ => false

/-- Kinds whose words are the value itself. -/
def isPlain (k : Kind) : Bool := !k.isReference && k != string && k != arrayBuffer

/-- Kinds that accept bounds. -/
def isNumeric : Kind → Bool
  | u32 | f32 => true
  | _ => false

theorem mem_all (k : Kind) : k ∈ all := by cases k <;> decide

end Kind

end Framecast
