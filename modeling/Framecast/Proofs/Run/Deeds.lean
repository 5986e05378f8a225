import Framecast.Proofs.Operation.Deeds
import Framecast.Proofs.Registry.Indexes
import Framecast.Proofs.Run.Steps

/-!
# The deeds of the host

Each action on the resources of the producer is a deed, unless it takes in what
consumers have answered. What it adds with a hook is what it answers with, and the
hook is the one that was asked for.
-/

namespace Framecast

namespace Action

/-- The hook that is asked for. -/
def hook? : Action → Option String
  | .createOpaque _ _ _ options | .createInstance _ _ options => options.hook?
  | _ => none

end Action

/-- What an action does to the resources of the producer, as its answer tells it: what is added is
what it answers with, and has the hook that is asked for. If a hook is asked for and nothing is added,
what it answers with was cached. -/
def Registry.Deals (r : Registry) (hook? : Option String) (ending : Answer × Broadcast) : Prop :=
  ∃ new?, r.Deed ending.2.registry new? ∧
    (∀ new, new? = some new → ending.1 = .created new.1 ∧ new.2 = hook?) ∧
    (new? = none → hook? ≠ none → ∀ id, ending.1 = .created id → ∃ slot, (slot, id) ∈ r.cache)

theorem Registry.Strokes.deals {r : Registry} {ending : Answer × Broadcast}
    (h : r.Strokes ending.2.registry) : r.Deals none ending := by
  refine ⟨none, .strokes h, fun new hnew => ?_, fun _ hasked => absurd rfl hasked⟩
  cases hnew

namespace Broadcast

variable {b : Broadcast} {action : Action}

theorem deals_traced {α : Type} {m : RegistryM α} (hm : Registry.Traced m) (answer : α → Answer) :
    b.registry.Deals none (b.onRegistry m answer) :=
  Registry.Strokes.deals (onRegistry_after (P := fun after => b.registry.Strokes after)
    ((hm b.registry).imp (fun _ _ h => h.strokes) fun _ _ h => h.strokes) answer)

/-- A creation adds what it answers with, or answers with what was cached. -/
theorem deals_created {m : RegistryM ResourceId} {type : String} {options : Options}
    (hm : Ends m b.registry
      (fun id after => after.supply.Lasts →
        b.registry.Deed after (some (id, options.hook?)) ∨
          b.registry.Deed after none ∧ b.registry.cached? type options.cacheKey? = some id)
      (fun _ after => after.supply.Lasts → b.registry.Deed after none))
    (hl : (b.onRegistry m .created).2.registry.supply.Lasts) :
    b.registry.Deals options.hook? (b.onRegistry m .created) := by
  rcases (onRegistry_ends hm .created).1 with ⟨id, hanswer, hdeed⟩ | ⟨e, hanswer, hdeed⟩
  · rcases hdeed hl with hdeed | ⟨hdeed, hcached⟩
    · refine ⟨_, hdeed, fun new hsome => ?_, fun hnone => ?_⟩
      · cases hsome
        exact ⟨hanswer, rfl⟩
      · cases hnone
    · refine ⟨none, hdeed, fun new hnew => ?_, fun _ _ x hx => ?_⟩
      · cases hnew
      · rw [hanswer] at hx
        cases hx
        obtain ⟨slot, hmem, -⟩ := Registry.mem_cache_of_cached? hcached
        exact ⟨slot, hmem⟩
  · refine ⟨none, hdeed hl, fun new hnew => ?_, fun _ _ x hx => ?_⟩
    · cases hnew
    · rw [hanswer] at hx
      cases hx

/-- Every action that takes no answers in is a deed. -/
theorem deed_step (h : action.isInternal = true) (hacks : action.takesAcks = false)
    (hc : action.IsCompiled) (hw : b.registry.WellFormed)
    (hl : (b.step action).2.registry.supply.Lasts) :
    b.registry.Deals action.hook? (b.step action) := by
  cases action with
  | registerType type =>
    apply Registry.Strokes.deals
    unfold step withRegistry Registry.registerType
    dsimp only
    split
    · exact .refl
    · exact .single (.declare b.registry.schemas _ (Nat.le_refl _))
  | createOpaque thread type payload options =>
    exact deals_created ((Registry.ends_createOpaque_deed thread type payload options
      b.registry).imp (fun _ _ h _ => h) fun _ _ h _ => h) hl
  | createInstance schema props options =>
    exact deals_created (Registry.ends_createInstance_deed hw hc.isSound props options) hl
  | createString text => exact deals_traced (Registry.spans_acts.createString text) _
  | createBuffer buffer => exact deals_traced (Registry.spans_acts.createBuffer buffer) _
  | retain id => exact deals_traced (Registry.spans_acts.retain id) _
  | dispose id => exact deals_traced (Registry.spans_acts.dispose id) _
  | setProp id name value => exact deals_traced (Registry.spans_acts.put .host) _
  | setPropFromScript id name value =>
    exact deals_traced (Registry.spans_acts.put .script) _
  | elsewhere drawn pool =>
    exact Registry.Strokes.deals (.single (.declare b.registry.schemas b.registry.loaderTypes
      (Nat.le_add_right _ _)))
  | setTick | connect | commit | flush | registerLoader | update | hangUp => cases h
  | await | processAcks => cases hacks

end Broadcast

end Framecast
