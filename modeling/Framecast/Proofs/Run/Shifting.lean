import Framecast.Proofs.Operation.Shifts
import Framecast.Proofs.Run.Steps

/-!
# Actions as chains of shifts

Of the actions that concern the producer alone each is a chain of shifts, whatever
schemas it uses and however many numbers were given out before; only that numbers are
drawn elsewhere is none. The others leave all bodies of resources alone. So in every
run, of any length, a resource is entered under its own number.
-/

namespace Framecast

/-- Resources with the same bodies are entered under the same numbers. -/
theorem Registry.SameBodies.isKeyed {r r' : Registry} (h : r.SameBodies r') (hkeyed : r.IsKeyed) :
    r'.IsKeyed := by
  intro x res' hx
  obtain ⟨res, hres, heq⟩ := h.origin hx
  have hev : res.Evolves res' := .of_body heq.symm
  exact hev.id.trans (hkeyed x res hres)

namespace Broadcast

variable {b : Broadcast} {action : Action}

/-- An action that concerns the producer alone is a chain of shifts, unless numbers are drawn
elsewhere. -/
theorem shifts_step (h : action.isInternal = true)
    (helsewhere : ∀ drawn pool, action ≠ .elsewhere drawn pool) :
    b.registry.Shifts (b.step action).2.registry := by
  have hoperation {α : Type} {m : RegistryM α} (hm : Registry.Within Registry.Shifts m)
      (answer : α → Answer) : b.registry.Shifts (b.onRegistry m answer).2.registry :=
    onRegistry_after (hm b.registry) answer
  have hspans := Registry.spans_shifts
  cases action with
  | registerType type =>
    have hsupply : (b.registry.registerType type).supply = b.registry.supply := by
      unfold Registry.registerType
      split <;> rfl
    exact (Registry.quiet_registerType b.registry type).shifts hsupply
  | createOpaque thread type payload options =>
    exact hoperation (Registry.within_createOpaque thread type payload options) _
  | createInstance schema props options =>
    exact hoperation (Registry.within_createInstance schema props options) _
  | createString text => exact hoperation (hspans.createString text) _
  | createBuffer buffer => exact hoperation (hspans.createBuffer buffer) _
  | retain id => exact hoperation (hspans.retain id) _
  | dispose id => exact hoperation (hspans.dispose id) _
  | setProp id name value => exact hoperation (hspans.put .host) _
  | setPropFromScript id name value => exact hoperation (hspans.put .script) _
  | await id =>
    exact (Registry.quiet_await b.registry id).shifts (Registry.supply_await b.registry id)
  | processAcks =>
    exact (Registry.quiet_processAcks b.registry).shifts (Registry.supply_processAcks b.registry)
  | elsewhere drawn pool => exact absurd rfl (helsewhere drawn pool)
  | setTick | connect | commit | flush | registerLoader | update | hangUp => cases h

/-- An action that concerns the producer alone is a chain of shifts, or it only draws numbers. -/
theorem shifts_or_draws_step (h : action.isInternal = true) :
    b.registry.Shifts (b.step action).2.registry ∨
      ∃ supply, (b.step action).2.registry = { b.registry with supply } := by
  by_cases helsewhere : ∃ drawn pool, action = .elsewhere drawn pool
  · obtain ⟨drawn, pool, rfl⟩ := helsewhere
    exact .inr ⟨_, rfl⟩
  · exact .inl (shifts_step h fun drawn pool heq => helsewhere ⟨drawn, pool, heq⟩)

/-- Every action leaves resources entered under their own numbers. -/
theorem isKeyed_step (action : Action) (h : b.registry.IsKeyed) :
    (b.step action).2.registry.IsKeyed := by
  cases hinternal : action.isInternal with
  | false => exact (sameBodies_step hinternal).isKeyed h
  | true =>
    rcases shifts_or_draws_step hinternal with hshifts | ⟨_, heq⟩
    · exact hshifts.isKeyed h
    · rw [heq]
      exact h

end Broadcast

/-- In every run resources are entered under their own numbers. -/
theorem Run.isKeyed {config : Config} {supply : Supply} {past : List Moment} {b : Broadcast}
    (h : Run (.opened config supply) past b) : b.registry.IsKeyed := by
  induction h with
  | nil =>
    intro x res hx
    rw [Broadcast.resource?_opened] at hx
    cases hx
  | snoc _ action ih => exact Broadcast.isKeyed_step action ih

end Framecast
