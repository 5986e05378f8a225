import Framecast.Proofs.Run.Shifting

/-!
# The settings stay

A producer is opened with its settings, and nothing that is done later changes them:
neither what the host does to resources, nor what consumers answer, nor what goes over
the wires. So every ring of a producer was opened for the same number of records.
-/

namespace Framecast

namespace Registry

variable {r after : Registry}

/-- No shift changes the settings. -/
theorem Shift.config (h : r.Shift after) : after.config = r.config := by
  cases h with
  | quiet h => exact h.config
  | touch | enter | ship => rfl
  | @remove id res _ =>
    obtain ⟨_, heq⟩ := remove_eq res r
    rw [heq]

theorem Shifts.config (h : r.Shifts after) : after.config = r.config := by
  induction h with
  | refl => rfl
  | tail _ hstep ih => exact hstep.config.trans ih

theorem Reframed.config (h : r.Reframed after) : after.config = r.config := by
  obtain ⟨⟨_, _, _, rfl⟩, -⟩ := h
  rfl

end Registry

namespace Broadcast

variable {b : Broadcast} {action : Action}

/-- No operation of a consumer changes the settings of the producer. -/
theorem config_onConnection {α : Type} (b : Broadcast) (k : Nat) (m : ConnectionM α) :
    (b.onConnection k m).2.registry.config = b.registry.config := by
  unfold onConnection
  split
  · rfl
  · split <;> rfl

/-- No action changes the settings. -/
theorem config_step (b : Broadcast) (action : Action) :
    (b.step action).2.registry.config = b.registry.config := by
  cases hinternal : action.isInternal with
  | true =>
    rcases shifts_or_draws_step hinternal with hshifts | ⟨_, heq⟩
    · exact hshifts.config
    · rw [heq]
  | false =>
    cases action with
    | setTick | hangUp => rfl
    | connect thread =>
      rcases b.step_connect thread with ⟨wire, -, hstep⟩ | ⟨e, hstep⟩
      all_goals rw [hstep]
    | commit => exact b.reframed_commit.config
    | flush =>
      apply onRegistry_after (P := fun after => after.config = b.registry.config)
      apply (Registry.ends_flush b.registry).imp
      · rintro _ after ⟨retired, h, -, rfl⟩
        have hretired := h.config.trans b.registry.quiet_processAcks.config
        exact hretired
      · rintro _ after ⟨retired, h, hafter⟩
        have hretired := h.config.trans b.registry.quiet_processAcks.config
        rcases hafter with rfl | rfl
        · exact hretired
        · exact hretired
    | registerLoader k type loader => exact config_onConnection b k _
    | update k tick => exact config_onConnection b k _
    | registerType | createOpaque | createInstance | createString | createBuffer | retain |
      dispose | setProp | setPropFromScript | await | processAcks | elsewhere => cases hinternal

end Broadcast

/-- In every state of a run the settings are those that the producer was opened with. -/
theorem Run.config_eq {config : Config} {supply : Supply} {past : List Moment} {b : Broadcast}
    (h : Run (.opened config supply) past b) : b.registry.config = config := by
  induction h with
  | nil => rfl
  | snoc _ action ih => exact (Broadcast.config_step _ action).trans ih

end Framecast
