import Framecast.Proofs.Registry.Acts
import Framecast.Proofs.Registry.Dropping

/-!
# Numbers only go up

No stroke takes a number back, and so no operation does, whether it ends well or
badly. So if numbers have not run out at the end of a run, they had not run out
before.
-/

namespace Framecast

namespace Registry

variable {α β : Type}

@[simp] theorem supply_storeBytes (r : Registry) (id : ResourceId) (prop : Property)
    (part : Bytes) : (r.storeBytes id prop part).supply = r.supply :=
  supply_modifyResource r id _

/-- What neither a change of resources nor a removal touches, a cascade leaves alone. -/
theorem cascade_keep (f : Registry → α) (hresources : ∀ r resources, f { r with resources } = f r)
    (hremove : ∀ res r, f (r.remove res) = f r) (n : Nat) (worklist : List ResourceId)
    (r : Registry) : f (cascade n worklist r) = f r := by
  induction n generalizing worklist r with
  | zero => rfl
  | succ n ih =>
    unfold cascade
    split
    · rfl
    · split
      · rfl
      · rename_i res _
        obtain ⟨resources, hdropped⟩ := foldl_dropHeld_eq res.storage.heldRefs (r.remove res, _)
        rw [ih, hdropped, hresources, hremove]

@[simp] theorem supply_destroy (r : Registry) (id : ResourceId) :
    (r.destroy id).supply = r.supply :=
  cascade_keep Registry.supply (fun _ _ => rfl) supply_remove _ _ _

@[simp] theorem schemas_destroy (r : Registry) (id : ResourceId) :
    (r.destroy id).schemas = r.schemas :=
  cascade_keep Registry.schemas (fun _ _ => rfl) schemas_remove _ _ _

/-- No act declares anything. -/
theorem Act.schemas {r after : Registry} (h : r.Act after) : after.schemas = r.schemas := by
  cases h with
  | retain | release => exact schemas_modifyResource _ _ _
  | dispose => rw [schemas_destroy, schemas_modifyResource]
  | store => exact schemas_modifyResource _ _ _
  | add h => exact h.schemas

theorem Acts.schemas {r after : Registry} (h : r.Acts after) : after.schemas = r.schemas := by
  induction h with
  | refl => rfl
  | tail _ hstep ih => exact hstep.schemas.trans ih

/-- A stroke takes no number back. -/
theorem Stroke.issued_le {r after : Registry} (h : r.Stroke after) :
    r.supply.issued ≤ after.supply.issued := by
  cases h with
  | declare _ _ h => exact h
  | touch id _ => rw [supply_modifyResource]
  | add h _ =>
    rw [h.supply]
    exact Nat.le_succ _
  | remove _ => rw [supply_remove]

/-- A chain of strokes takes no number back. -/
theorem Strokes.issued_le {r after : Registry} (h : r.Strokes after) :
    r.supply.issued ≤ after.supply.issued := by
  induction h with
  | refl => exact Nat.le_refl _
  | tail _ hstep ih => exact ih.trans hstep.issued_le

/-- At least as many numbers were given out as before. -/
def IssuesMore (r after : Registry) : Prop := r.supply.issued ≤ after.supply.issued

instance : IsPreorder Registry IssuesMore where
  refl _ := Nat.le_refl _
  trans _ _ _ h h' := Nat.le_trans h h'

/-- An operation that takes no number back. -/
abbrev Grows (m : RegistryM α) : Prop := Within IssuesMore m

theorem Within.grows {m : RegistryM α} (hm : Within Acts m) : Grows m := fun r =>
  (hm r).imp (fun _ _ h => Strokes.issued_le (Acts.strokes h)) fun _ _ h =>
    Strokes.issued_le (Acts.strokes h)

theorem issuesMore_of_eq {r after : Registry} (h : after.supply.issued = r.supply.issued) :
    r.IssuesMore after := Nat.le_of_eq h.symm

theorem grows_bind (id : ResourceId) (positions : List Nat) : Grows (bind id positions) :=
  (Within.find id).bind fun _ => Within.modify fun _ => issuesMore_of_eq rfl

/-- Entering a resource takes one number. -/
theorem grows_spawn (type : String) (storage : Storage) (options : Options)
    (positions : List Nat) : Grows (spawn type storage options positions) := by
  intro r
  refine (ends_spawn_adds type storage options positions r).imp ?_ fun _ _ h => h.elim
  rintro _ after ⟨-, res, hadds, -⟩
  unfold IssuesMore
  rw [hadds.supply]
  exact Nat.le_succ _

/-- Creating an opaque resource. -/
theorem grows_createOpaque (thread : Thread) (type : String) (p : Payload) (options : Options) :
    Grows (createOpaque thread type p options) := by
  unfold createOpaque
  apply Within.get.bind
  intro r
  cases r.linkTo? thread with
  | none => exact .throw _
  | some position =>
    dsimp only
    split
    · exact .throw_bind _ _
    · cases r.cached? type options.cacheKey? with
      | some id => exact .pure id
      | none => exact grows_spawn _ _ _ _

/-- Writing the values of a new instance ends as writing them one after another does, but that the
instance is destroyed after a failure. -/
theorem ends_writeAll_iff {r : Registry} {id : ResourceId} {values : List (Property × Value)}
    {good : Unit → Registry → Prop} {bad : ResourceError → Registry → Prop} :
    Ends (writeAll id values) r good bad ↔
      Ends (writeEach id values) r good fun e after => bad e (after.destroy id) := by
  unfold Ends writeAll
  simp only [EStateM.run]
  cases writeEach id values r <;> rfl

/-- Writing the values of a new instance. -/
theorem grows_writeAll (id : ResourceId) (values : List (Property × Value)) :
    Grows (writeAll id values) := by
  intro r
  rw [ends_writeAll_iff]
  apply ((spans_acts.writeEach id values).grows r).imp
  · exact fun _ _ h => h
  · exact fun _ _ h => by rwa [IssuesMore, supply_destroy]

/-- Sending an instance, after it was given its hook. -/
theorem grows_sendInstance (id : ResourceId) (hook? : Option String) :
    Grows (do
      modify (·.modifyResource id fun resource => { resource with hook? })
      bind id (← get).allLinks
      return id) :=
  (Within.modify fun _ => issuesMore_of_eq (by simp)).bind fun _ => Within.get.bind fun _ =>
    (grows_bind _ _).bind fun _ => .pure _

theorem grows_fillInstance (id : ResourceId) (values : List (Property × Value))
    (options : Options) : Grows (fillInstance id values options) :=
  (grows_writeAll id values).bind fun _ => grows_sendInstance id options.hook?

end Registry

end Framecast
