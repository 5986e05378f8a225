import Framecast.Proofs.Feed.Agreement
import Framecast.Proofs.Frames.Coherence
import Framecast.Proofs.Guarded.Creation
import Framecast.Proofs.Guarded.Frames

/-!
# No action ever faults

In every run the registry stays intact: bytes, bindings and retired buffers have the
lengths and the places that whoever looks them up relies on. So every action of the
producer, whatever numbers, names and values it is given, does with all its guards
what it does without them. A commit is always done, and a flush is done or fails
because one of the links refuses its outbox.
-/

namespace Framecast

/-- A registry in which whatever is looked up by position is where it is looked for. -/
structure Registry.IsIntact (r : Registry) : Prop where
  /-- The bytes of every instance are as many as its layout says. -/
  instances : ∀ {id res schema bytes}, r.resource? id = some res →
    res.storage = .fields schema bytes → bytes.length = schema.layout.byteLength
  /-- The buffer that a binding names for them was allocated on the link of the binding, with slots
  of that length. -/
  bound : ∀ {id res schema bytes b buffer}, r.resource? id = some res →
    res.storage = .fields schema bytes → b ∈ res.bindings → b.data? = some buffer →
    b.link < r.links.length ∧ r.Provides ⟨b.link, buffer, schema.layout.byteLength⟩
  /-- The buffer of what was set aside or retired was allocated on its link, with slots as long as
  the final bytes. -/
  retired : ∀ f ∈ r.disposed.toList ++ r.retired.toList,
    f.link < r.links.length ∧ r.Provides f.claim
  /-- No buffer has two owners. -/
  owned : (r.claims.map Claim.cell).Nodup

/-- A registry that is sturdy and wired is intact. -/
theorem Registry.IsSturdy.isIntact {r : Registry} (h : r.IsSturdy) (hw : r.IsWired) :
    r.IsIntact := by
  refine ⟨fun hres hstorage => ?_, fun {id res schema bytes b buffer} hres hstorage hb hdata => ?_,
    fun f hf => ?_, hw.apart⟩
  · have hsound := h.sound hres
    rw [hstorage] at hsound
    exact hsound.2
  · have hsound := h.sound hres
    rw [hstorage] at hsound
    have hclaim : (⟨b.link, buffer, schema.layout.byteLength⟩ : Claim) ∈ r.claims := by
      refine Registry.mem_claims.mpr (.inl ⟨id, res, hres, List.mem_flatMap.mpr ⟨b, hb, ?_⟩⟩)
      rw [hstorage, Binding.claims_fields, hdata, hsound.2]
      exact List.mem_cons_of_mem _ List.mem_cons_self
    exact ⟨(h.linked id res hres).2 b hb, hw.provided _ hclaim⟩
  · have hclaim : f.claim ∈ r.claims := by
      rcases List.mem_append.mp hf with hf | hf
      · exact Registry.mem_claims.mpr (.inr (.inl ⟨f, hf, rfl⟩))
      · exact Registry.mem_claims.mpr (.inr (.inr ⟨f, hf, rfl⟩))
    have hprovided := hw.provided _ hclaim
    exact ⟨Registry.lt_of_allocated hprovided.1, hprovided⟩

namespace Broadcast

variable {b : Broadcast}

/-- An operation that is followed is answered with its guards as without them. -/
theorem onGuarded_eq {α : Type} {g : GuardedM α} {m : RegistryM α}
    {good : α → Registry → Prop} {bad : Registry → Prop} (h : Follows g m b.registry good bad)
    (answer : α → Answer) : b.onGuarded g answer = .ok (b.onRegistry m answer) := by
  unfold onGuarded onRegistry
  unfold Follows Ends at h
  cases hm : m.run b.registry with
  | ok a after =>
    rw [hm] at h
    rw [h.1]
  | error e after =>
    rw [hm] at h
    rw [h.1]

/-- An action is done with its guards as without them. -/
theorem guardedStep_eq (h : b.registry.IsSturdy) (hw : b.registry.IsWired) {action : Action}
    (hc : action.IsCompiled) : b.guardedStep action = .ok (b.step action) := by
  cases action with
  | createOpaque thread type payload options =>
    exact onGuarded_eq (Guarded.follows_createOpaque thread type payload options _) _
  | createInstance schema props options =>
    exact onGuarded_eq (Guarded.follows_createInstance h hc.isSound props options) _
  | createString text => exact onGuarded_eq (Guarded.follows_createString text _) _
  | createBuffer buffer => exact onGuarded_eq (Guarded.follows_createBuffer buffer _) _
  | dispose id => exact onGuarded_eq (Guarded.follows_dispose h id) _
  | setProp id name value => exact onGuarded_eq (Guarded.follows_setProp h id name value) _
  | setPropFromScript id name value =>
    exact onGuarded_eq (Guarded.follows_setPropFromScript h id name value) _
  | commit => exact onGuarded_eq (Guarded.follows_commit hw) _
  | flush => exact onGuarded_eq (Guarded.follows_flush hw) _
  | connect | setTick | registerType | retain | await | processAcks | elsewhere | registerLoader |
    update | hangUp => rfl

/-- A flush of a wired registry is done, or one of the links refuses its outbox. -/
theorem step_flush_answer (h : b.registry.IsWired) :
    (b.step .flush).1 = .done ∨
      ∃ link ∈ b.registry.links, ∃ e, (b.step .flush).1 = .failed e ∧ link.Refuses e := by
  have hends : ((∃ a : Unit, (b.step .flush).1 = .done ∧ True) ∨
      ∃ e, (b.step .flush).1 = .failed e ∧ ∃ link ∈ b.registry.links, link.Refuses e) ∧
        (b.step .flush).2.replicas = b.replicas :=
    onRegistry_ends (Registry.ends_flush_refuses h) fun _ => .done
  rcases hends.1 with ⟨-, hdone, -⟩ | ⟨e, hfailed, link, hlink, hrefuses⟩
  · exact .inl hdone
  · exact .inr ⟨link, hlink, e, hfailed, hrefuses⟩

end Broadcast

/-- In every state that a run leads to, the registry is intact. Reading any property by any number
and name, reading the references of any resource and encoding the defaults of any compiled layout
stays inside the bytes. Any action that uses compiled schemas is done with all its guards as
without them. A commit is done, and a flush is done or fails for lack of room in a ring or because
a consumer is gone. -/
theorem Run.never_faults {config : Config} {supply : Supply} {past : List Moment} {b : Broadcast}
    (h : Run (.opened config supply) past b) (hc : ∀ m ∈ past, m.action.IsCompiled)
    (hl : b.registry.supply.Lasts) :
    b.registry.IsIntact ∧
    (∀ id name, b.registry.getProp? id name = some (b.registry.getProp id name)) ∧
    (∀ id res, b.registry.resource? id = some res →
      res.storage.heldRefs? = some res.storage.heldRefs) ∧
    (∀ layout : Layout, layout.IsCompiled → layout.defaultBytes? = some layout.defaultBytes) ∧
    (∀ action : Action, action.IsCompiled → b.guardedStep action = .ok (b.step action)) ∧
    (b.step .commit).1 = .done ∧
    ((b.step .flush).1 = .done ∨
      ∃ link ∈ b.registry.links, ∃ e, (b.step .flush).1 = .failed e ∧ link.Refuses e) := by
  have hsturdy : b.registry.IsSturdy :=
    (h.wellFormed hc hl).isSturdy (h.knowsBuffers hc hl 0).1
  have hwired := h.isWired
  refine ⟨hsturdy.isIntact hwired, fun id name => ?_, fun id res hres => ?_,
    fun layout hlayout => ?_, fun action haction => ?_, ?_, ?_⟩
  · exact Registry.getProp?_eq hsturdy.sound id name
  · exact Storage.heldRefs?_eq (hsturdy.sound hres)
  · exact Layout.defaultBytes?_eq hlayout.isSound
  · exact Broadcast.guardedStep_eq hsturdy hwired haction
  · rw [Broadcast.step_commit hwired]
  · exact Broadcast.step_flush_answer hwired

namespace Samples

/-- Two lamps that are sent to a consumer, of which the first is then disposed of. -/
def dimmed : List Moment × Broadcast :=
  (Broadcast.opened ⟨.game, 4⟩ ⟨0, .initial⟩).play
    [.connect .render,
      .createInstance ⟨0, lamp⟩ [("level", .word 3)] {},
      .createInstance ⟨0, lamp⟩ [] {},
      .flush,
      .commit,
      .dispose 1,
      .setProp 2 "level" (.word 9),
      .flush]

theorem isCompiled_dimmed : ∀ m ∈ dimmed.1, m.action.IsCompiled :=
  Broadcast.isCompiled_play _ (by simp [Action.IsCompiled, isCompiled_lamp])

/-- With one lamp alive and the buffers of the other one retired, the registry is intact, and the
next commit runs into none of its guards. -/
theorem never_faults_dimmed :
    dimmed.2.registry.supply.Lasts ∧ dimmed.2.registry.live.length = 1 ∧
    dimmed.2.registry.retired.size = 2 ∧ dimmed.2.registry.IsIntact ∧
    dimmed.2.registry.getProp? 2 "level" = some (.ok (.word 9)) ∧
    dimmed.2.guardedStep .commit = .ok (dimmed.2.step .commit) ∧
    (dimmed.2.step .commit).1 = .done := by
  have hlasts : dimmed.2.registry.supply.Lasts := by decide +kernel
  have hread : dimmed.2.registry.getProp 2 "level" = .ok (.word 9) := by decide +kernel
  have hrun : Run (.opened ⟨.game, 4⟩ ⟨0, .initial⟩) dimmed.1 dimmed.2 := .play _ _
  obtain ⟨hintact, hreads, -, -, hguarded, hcommit, -⟩ :=
    Run.never_faults hrun isCompiled_dimmed hlasts
  exact ⟨hlasts, by decide +kernel, by decide +kernel, hintact, hread ▸ hreads 2 "level",
    hguarded .commit trivial, hcommit⟩

end Samples

end Framecast
