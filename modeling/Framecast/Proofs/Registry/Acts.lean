import Framecast.Proofs.Registry.Within

/-!
# Operations as chains of acts

A reference that is given back as the last one takes its resource along, and whatever
that resource alone kept alive. So the strokes of an operation come in acts, none of
which leaves a count at zero that was not zero before. But for the creation of an
instance, everything that the host does to resources is a chain of acts.
-/

namespace Framecast

namespace Registry

/-- One act of an operation. What is added is incidental and has no hook. -/
inductive Act : Registry → Registry → Prop
  /-- A reference is taken on what is there or not. -/
  | retain {r : Registry} (id : ResourceId) : Act r (r.modifyResource id Resource.retained)
  /-- One of several references is given back. -/
  | release {r : Registry} {id : ResourceId} {res : Resource} (h : r.resource? id = some res)
      (hmore : 1 < res.refCount) : Act r (r.modifyResource id Resource.released)
  /-- The last reference is given back, and the resource is destroyed. -/
  | dispose {r : Registry} {id : ResourceId} {res : Resource} (h : r.resource? id = some res)
      (hlast : res.refCount ≤ 1) : Act r ((r.modifyResource id Resource.released).destroy id)
  /-- The bytes of a property are replaced. -/
  | store {r : Registry} (id : ResourceId) (prop : Property) (part : Bytes) :
    Act r (r.storeBytes id prop part)
  /-- A resource is added. -/
  | add {r after : Registry} {res : Resource} (h : r.Adds after res) (hhook : res.hook? = none)
      (hmould : res.mould.IsIncidental) : Act r after

/-- A chain of acts. -/
abbrev Acts : Registry → Registry → Prop := Relation.ReflTransGen Act

variable {r after : Registry}

/-- An act is a chain of strokes. -/
theorem Act.strokes (h : r.Act after) : r.Strokes after := by
  cases h with
  | retain id => exact strokes_retained r id
  | release => exact strokes_released r _
  | dispose => exact (strokes_released r _).trans (strokes_destroy _ _)
  | store id prop part => exact strokes_storeBytes r id prop part
  | add h hhook hmould => exact .single (.add h hhook hmould)

theorem Acts.strokes (h : r.Acts after) : r.Strokes after := by
  induction h with
  | refl => exact .refl
  | tail _ hstep ih => exact ih.trans hstep.strokes

/-- An operation that is a chain of acts, however it ends. -/
abbrev Traced {α : Type} (m : RegistryM α) : Prop := Within Acts m

/-- Adding something incidental without a hook. -/
theorem traced_spawn {type : String} {storage : Storage} {options : Options}
    (hhook : options.hook? = none)
    (hmould : Mould.IsIncidental ⟨type, options.cacheKey?, storage.frame⟩) (positions : List Nat) :
    Traced (spawn type storage options positions) := by
  intro r
  refine (ends_spawn_adds type storage options positions r).imp ?_ fun _ _ h => h.elim
  rintro _ after ⟨-, res, hadds, heq, hmade⟩
  exact .single (.add hadds (heq.trans hhook) (hmade ▸ hmould))

/-- Chains of acts span what the host does. -/
theorem spans_acts : Spans Acts where
  retained _ id := .single (.retain id)
  dispose id r := by
    apply (ends_dispose id r).imp
    · rintro _ after ⟨res, hres, ⟨-, hmore, rfl⟩ | ⟨-, hlast, rfl⟩⟩
      · exact .single (.release hres hmore)
      · exact .single (.dispose hres hlast)
    · rintro _ after ⟨-, -, rfl⟩
      exact .refl
  stored _ id prop part _ := .single (.store id prop part)
  spawn _ _ _ positions hhook hmould := traced_spawn hhook hmould positions

end Registry

end Framecast
