import Framecast.Typed.Marker

/-!
# Resource classes

A class declares the properties of a resource type together with the markers they
are read through. A class without properties names an opaque type. A class whose
declaration does not compile has no schema, and nothing that needs one works.
-/

namespace Framecast

/-- A declared property of a class. -/
structure Field where
  /-- Its name. -/
  name : String
  /-- How it is declared and read. -/
  marker : Marker
  /-- The value of an instance that was given none. -/
  default? : Option Value := none
  /-- Whether every new instance must be given a value. -/
  required : Bool := false
  /-- Whether it can be written after construction. -/
  isMutable : Bool := true
  /-- Whether scripts may write it. -/
  script : Bool := false
  /-- The lower bound. -/
  min? : Option Binary64 := none
  /-- The upper bound. -/
  max? : Option Binary64 := none
  deriving DecidableEq, Repr, Inhabited

namespace Field

/-- The declaration of a field. -/
def declaration (f : Field) : Declaration :=
  { f.marker.declare f.name with
    default? := f.default?, required := f.required, isMutable := f.isMutable, script := f.script,
    min? := f.min?, max? := f.max? }

end Field

/-- A declared class of resources. -/
structure ResourceClass where
  /-- The type tag. -/
  tag : String
  /-- The number under which its layout is published. -/
  serial : Nat
  /-- Its properties; an opaque class has none to speak of. -/
  fields? : Option (List Field)
  deriving DecidableEq, Repr, Inhabited

namespace ResourceClass

/-- The properties, in the order of declaration. -/
def fields (c : ResourceClass) : List Field := c.fields?.getD []

/-- The property of a name. -/
def field? (c : ResourceClass) (name : String) : Option Field := c.fields.find? (·.name == name)

/-- The schema, if the class has properties and its declaration compiles. -/
def schema? (c : ResourceClass) : Option Schema :=
  c.fields?.bind fun fields =>
    match Layout.compile c.tag (fields.map Field.declaration) with
    | .ok layout => some ⟨c.serial, layout⟩
    | .error _ => none

/-- Values given by field name, in the order of declaration. -/
def arrange {α : Type} (c : ResourceClass) (given : String → Option α) : List (Field × α) :=
  c.fields.filterMap fun f => (given f.name).map fun a => (f, a)

end ResourceClass

end Framecast
