import Framecast.Schema.Property

/-!
# Declarations and compiled layouts

A resource type is declared as a list of properties. Compilation checks each
declaration and lays the properties out back to back, in the order of their
declaration, so that everyone who compiles a declaration gets the same layout.
The first declaration that cannot follow its predecessors is the one reported.
-/

namespace Framecast

/-- The declaration of a property. -/
structure Declaration where
  /-- The name. -/
  name : String
  /-- The kind. -/
  kind : Kind
  /-- The number of words. -/
  count : Nat
  /-- The type that references must have. -/
  target? : Option String := none
  /-- The value of an instance that was given none. -/
  default? : Option Value := none
  /-- Whether every new instance must be given a value. -/
  required : Bool := false
  /-- Whether the host may write it after construction. -/
  isMutable : Bool := true
  /-- Whether scripts may write it. -/
  script : Bool := false
  /-- Whether it is a reverse pointer that keeps nothing alive. -/
  backRef : Bool := false
  /-- The lower bound. -/
  min? : Option Binary64 := none
  /-- The upper bound. -/
  max? : Option Binary64 := none
  deriving DecidableEq, Repr, Inhabited

/-- A compiled layout: the properties of a resource type in their places. -/
structure Layout where
  /-- The type tag that all instances share. -/
  name : String
  /-- The properties, in the order of declaration and of offsets. -/
  props : List Property
  /-- The number of bytes of an instance. -/
  byteLength : Nat
  deriving DecidableEq, Repr, Inhabited

namespace Declaration

/-- A declaration of a kind with nothing special about it. A collection declared this way has no
slots. -/
def ofKind (name : String) (kind : Kind) : Declaration :=
  { name, kind, count := kind.fixedCount.getD 0 }

/-- A single reference to a resource of type `target`. -/
def reference (name target : String) : Declaration :=
  { ofKind name .ref with target? := some target }

/-- A dense list of at most `capacity` references. -/
def refArray (name target : String) (capacity : Nat) : Declaration :=
  { reference name target with kind := .refArray, count := capacity }

/-- Numbered slots for `capacity` references. -/
def refMap (name target : String) (capacity : Nat) : Declaration :=
  { reference name target with kind := .refMap, count := capacity }

/-- The declaration with a reference to the own type spelt out for `resource`. -/
def resolve (d : Declaration) (resource : String) : Declaration :=
  if d.kind = .selfRef then { d with kind := .ref, target? := some resource } else d

/-- Whether references to no type are declared. -/
def lacksTarget (d : Declaration) : Bool := d.target?.getD "" == ""

/-- The property that a declaration becomes at `offset`. -/
def place (d : Declaration) (offset : Nat) : Property :=
  { name := d.name, kind := d.kind, count := d.count, offset, required := d.required,
    isMutable := d.isMutable, script := d.script, backRef := d.backRef, default? := d.default?,
    min? := d.min?, max? := d.max?, target? := d.target? }

/-- Checks what a declaration says about references. -/
def checkReference (d : Declaration) : Except SchemaError Unit :=
  if d.kind.isReference && d.lacksTarget then .error (.missingTarget d.name)
  else if d.kind.isReference && d.count == 0 then .error (.zeroCapacity d.name)
  else if d.backRef && d.kind != .ref then .error (.backRefOnNonRef d.name d.kind)
  else .ok ()

/-- Checks who may write the property. -/
def checkAccess (d : Declaration) : Except SchemaError Unit :=
  if d.script && !d.isMutable then .error (.scriptRequiresMutable d.name) else .ok ()

/-- Checks the bounds: on numbers only, and not inverted. -/
def checkBounds (d : Declaration) : Except SchemaError Unit :=
  if (d.min?.isSome || d.max?.isSome) && !d.kind.isNumeric then
    .error (.boundsOnNonNumeric d.name d.kind)
  else
    match d.min?, d.max? with
    | some low, some high =>
      if high.less low then .error (.invertedBounds d.name low high) else .ok ()
    | _, _ => .ok ()

/-- Checks that a default is declared only where there can be one. -/
def checkDefault (d : Declaration) : Except SchemaError Unit :=
  if d.default?.isNone then .ok ()
  else if d.required then .error (.requiredWithDefault d.name)
  else if !d.kind.isPlain && d.kind != .string then .error (.defaultNotSupported d.name d.kind)
  else .ok ()

end Declaration

namespace Layout

/-- The largest number of bytes, the last 32-bit offset. -/
def maxLength : Nat := 0xFFFFFFFF

/-- Checks one declaration of `resource` and places it at `offset`. -/
def compileOne (resource : String) (offset : Nat) (declared : Declaration) :
    Except SchemaError Property := do
  let d := declared.resolve resource
  d.checkReference
  d.checkAccess
  d.checkBounds
  d.checkDefault
  if maxLength < 4 * d.count then throw (.layoutTooLarge resource)
  let prop := d.place offset
  match prop.default? with
  | some value => prop.validate value
  | none => pure ()
  return prop

/-- Adds one declaration behind the properties placed so far. -/
def extend (layout : Layout) (declared : Declaration) : Except SchemaError Layout := do
  let prop ← compileOne layout.name layout.byteLength declared
  if maxLength < layout.byteLength + prop.length then throw (.layoutTooLarge layout.name)
  if layout.props.any (·.name == prop.name) then throw (.duplicateProp layout.name prop.name)
  return { layout with
    props := layout.props ++ [prop], byteLength := layout.byteLength + prop.length }

/-- The layout of a type without properties. -/
def empty (name : String) : Layout := ⟨name, [], 0⟩

/-- Compiles the declarations of a resource type, in their order. -/
def compile (name : String) (declared : List Declaration) : Except SchemaError Layout :=
  declared.foldlM extend (empty name)

/-- The property of a name. -/
def prop? (layout : Layout) (name : String) : Option Property :=
  layout.props.find? (·.name == name)

/-- The position of a property in the order of declaration. -/
def index? (layout : Layout) (name : String) : Option Nat :=
  layout.props.findIdx? (·.name == name)

/-- The properties whose words hold references. -/
def owningRefs (layout : Layout) : List Property := layout.props.filter Property.isOwningRef

/-- Encodes the default of one property into its place, if it has a plain one. -/
def storeDefault (storage : Bytes) (prop : Property) : Bytes :=
  match prop.default? with
  | some value =>
    if prop.kind.isPlain then
      match prop.encodePlain value (prop.slice storage) with
      | .ok part => prop.splice storage part
      | .error _ => storage
    else storage
  | none => storage

/-- The storage of an instance that was given nothing: zeros, with every plain default in its
place. -/
def defaultBytes (layout : Layout) : Bytes :=
  layout.props.foldl storeDefault (Bytes.zeros layout.byteLength)

/-- Equality of layouts: one name, one length, and equal properties under equal names. The order
of the properties is not compared. -/
def same (a b : Layout) : Bool :=
  a.name == b.name && a.props.length == b.props.length
    && a.props.all (fun p => (b.prop? p.name).any p.same) && a.byteLength == b.byteLength

end Layout

/-- A layout in circulation. Two schemas are one when they were published together or when their
layouts are equal, so that a layout whose numbers include a NaN, which is not equal to itself, can
still be used again. -/
structure Schema where
  /-- The number under which the layout was published. -/
  serial : Nat
  /-- The layout. -/
  layout : Layout
  deriving DecidableEq, Repr, Inhabited

namespace Schema

/-- The type tag. -/
def name (s : Schema) : String := s.layout.name

/-- Whether two schemas stand for one resource type. -/
def agrees (s t : Schema) : Bool := s.serial == t.serial || s.layout.same t.layout

theorem agrees_self (s : Schema) : s.agrees s = true := by simp [agrees]

end Schema

/-- One word of an instance that holds a reference. -/
structure HeldRef where
  /-- The property it belongs to. -/
  prop : Property
  /-- The slot inside a collection; zero elsewhere. -/
  slot : Nat
  /-- The resource referred to, never zero. -/
  id : ResourceId
  deriving DecidableEq, Repr

namespace Property

/-- The slots of a property that can hold a reference, with what they hold. -/
def refSlots (p : Property) (bytes : Bytes) : List (Nat × ResourceId) :=
  match p.kind with
  | .string => [(0, bytes.word 0)]
  | .arrayBuffer => [(0, bytes.word 2)]
  | _ => if p.isOwningRef then (List.range p.count).map fun i => (i, bytes.word i) else []

/-- The references held by one property of an instance. -/
def heldRefs (p : Property) (storage : Bytes) : List HeldRef :=
  ((p.refSlots (p.slice storage)).filter (·.2 != 0)).map fun (slot, id) => ⟨p, slot, id⟩

end Property

/-- The references held by an instance, in the order of its properties and of their slots. Texts,
buffers and owning references count; back-references and empty slots do not. -/
def Layout.heldRefs (layout : Layout) (storage : Bytes) : List HeldRef :=
  layout.props.flatMap (·.heldRefs storage)

end Framecast
