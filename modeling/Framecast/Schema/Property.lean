import Framecast.Schema.Error
import Framecast.Schema.Value

/-!
# Properties in their place

A compiled property knows its kind, its place in the storage of an instance and
which values it accepts. Plain values are encoded word by word into the
property's own bytes and decoded from them.
-/

namespace Framecast

/-- A property with its place in the layout. -/
structure Property where
  /-- The name, unique in its layout. -/
  name : String
  /-- The kind; never `selfRef` after compilation. -/
  kind : Kind
  /-- The number of words. -/
  count : Nat
  /-- Where its bytes begin. -/
  offset : Nat
  /-- Whether every new instance must be given a value. -/
  required : Bool
  /-- Whether the host may write it after construction. -/
  isMutable : Bool
  /-- Whether scripts may write it. -/
  script : Bool
  /-- Whether it is a reverse pointer that keeps nothing alive. -/
  backRef : Bool
  /-- The value of an instance that was given none. -/
  default? : Option Value
  /-- The lower bound. -/
  min? : Option Binary64
  /-- The upper bound. -/
  max? : Option Binary64
  /-- The type that references must have. -/
  target? : Option String
  deriving DecidableEq, Repr, Inhabited

/-- Equality of optional bounds, as numbers. -/
def sameBound : Option Binary64 → Option Binary64 → Bool
  | none, none => true
  | some x, some y => x.same y
  | _, _ => false

/-- Equality of optional defaults, as values. -/
def sameDefault : Option Value → Option Value → Bool
  | none, none => true
  | some x, some y => x.same y
  | _, _ => false

namespace Property

/-- The number of bytes. -/
def length (p : Property) : Nat := 4 * p.count

/-- Where its bytes end. -/
def stop (p : Property) : Nat := p.offset + p.length

/-- The property's own bytes inside the storage of an instance. -/
def slice (p : Property) (storage : Bytes) : Bytes := storage.slice p.offset p.length

/-- The storage with the property's own bytes replaced. -/
def splice (p : Property) (storage part : Bytes) : Bytes := storage.splice p.offset part

/-- Whether writes hold and release references. -/
def isOwningRef (p : Property) : Bool := p.kind.isReference && !p.backRef

/-- Equality of properties: numbers compare as numbers, everything else exactly. -/
def same (p q : Property) : Bool :=
  p.name == q.name && p.kind == q.kind && p.count == q.count && p.offset == q.offset
    && p.required == q.required && p.isMutable == q.isMutable && p.script == q.script
    && p.backRef == q.backRef && sameDefault p.default? q.default? && sameBound p.min? q.min?
    && sameBound p.max? q.max? && p.target? == q.target?

/-- Checks the shape of a value against the kind. -/
def checkShape (p : Property) (value : Value) : Except SchemaError Unit :=
  match p.kind, value with
  | .bool, .bool _ => .ok ()
  | .u32, .word _ | .bitmask, .word _ | .enumeration, .word _ => .ok ()
  | .f32, .float _ => .ok ()
  | .vec2, .floats xs | .vec3, .floats xs | .rgb, .floats xs | .rgba, .floats xs
  | .quat, .floats xs | .mat4, .floats xs =>
    if xs.length = p.count then .ok () else .error (.lengthMismatch p.name p.count xs.length)
  | .string, .text _ => .ok ()
  | .arrayBuffer, .buffer _ => .ok ()
  | .ref, .ref _ => .ok ()
  | .refArray, .refs slots =>
    if p.count < slots.length then .error (.capacityExceeded p.name p.count slots.length)
    else if slots.all Option.isSome then .ok ()
    else .error (.kindMismatch p.name p.kind)
  | .refMap, .refs slots =>
    if p.count < slots.length then .error (.capacityExceeded p.name p.count slots.length)
    else .ok ()
  | _, _ => .error (.kindMismatch p.name p.kind)

/-- Whether a number lies below the lower bound. -/
def below (p : Property) (x : Binary64) : Bool := p.min?.any x.less

/-- Whether a number lies above the upper bound. -/
def above (p : Property) (x : Binary64) : Bool := p.max?.any (·.less x)

/-- Checks a number against the bounds; values that are no numbers pass. -/
def checkBounds (p : Property) (value : Value) : Except SchemaError Unit :=
  match value.number? with
  | none => .ok ()
  | some x =>
    if p.below x || p.above x then .error (.outOfBounds p.name x p.min? p.max?) else .ok ()

/-- Accepts the values of the property's shape that respect its bounds. -/
def validate (p : Property) (value : Value) : Except SchemaError Unit := do
  p.checkShape value
  p.checkBounds value

/-- The words of a plain value. -/
def plainWords? : Value → Option (List UInt32)
  | .bool b => some [if b then 1 else 0]
  | .word w => some [w]
  | .float x => some [x.bits]
  | .floats xs => some (xs.map Binary32.bits)
  | _ => none

/-- Writes a valid plain value over the property's own bytes. Texts, buffers and references are
not plain: writing them concerns other resources. -/
def encodePlain (p : Property) (value : Value) (bytes : Bytes) : Except SchemaError Bytes := do
  p.validate value
  match plainWords? value with
  | some words => .ok (bytes.setWords words)
  | none => .error (.kindMismatch p.name p.kind)

/-- The words of a property's own bytes. -/
def words (p : Property) (bytes : Bytes) : List UInt32 := (List.range p.count).map bytes.word

/-- The plain value that the property's own bytes stand for. -/
def plainValue? (p : Property) (bytes : Bytes) : Option Value :=
  match p.kind with
  | .bool => some (.bool (bytes.word 0 != 0))
  | .u32 | .bitmask | .enumeration => some (.word (bytes.word 0))
  | .f32 => some (.float ⟨bytes.word 0⟩)
  | .vec2 | .vec3 | .rgb | .rgba | .quat | .mat4 =>
    some (.floats ((p.words bytes).map Binary32.mk))
  | .string | .arrayBuffer | .ref | .selfRef | .refArray | .refMap => none

end Property

end Framecast
