import Framecast.Registry.Basic

/-!
# Who keeps a resource alive

Reverse look-up over the references that instances hold.
-/

namespace Framecast

/-- One slot of one property of one instance that keeps a resource alive. -/
structure Retainer where
  /-- The instance. -/
  holder : ResourceId
  /-- Its type tag. -/
  type : String
  /-- The property. -/
  prop : String
  /-- The slot inside a collection; zero elsewhere. -/
  slot : Nat
  deriving DecidableEq, Repr

namespace Retainer

/-- The order in which retainers are listed: by holder, then by property name, then by slot. -/
def order (a b : Retainer) : Ordering :=
  (compare a.holder b.holder).then ((compare a.prop b.prop).then (compare a.slot b.slot))

/-- Whether a retainer is listed no later than another. -/
def le (a b : Retainer) : Bool := (order a b).isLE

end Retainer

namespace Registry

/-- The slots through which one resource keeps another alive. -/
def retainersIn (id : ResourceId) (resource : Resource) : List Retainer :=
  (resource.storage.heldRefs.filter (·.id == id)).map fun held =>
    ⟨resource.id, resource.type, held.prop.name, held.slot⟩

/-- Every slot that keeps a resource alive, in order. -/
def retainers (r : Registry) (id : ResourceId) : List Retainer :=
  (r.live.flatMap (retainersIn id)).mergeSort Retainer.le

end Registry

end Framecast
