import Framecast.Proofs.Frames.Publishing
import Framecast.Proofs.Run.Actions

/-!
# One step of a run

An action either concerns the producer alone, and then it is a chain of elementary
changes, or it goes over the wires, and then no resource shows it. In both cases
numbers only go up and a well-formed registry stays well formed.
-/

namespace Framecast

namespace Registry

variable {r r' r'' : Registry}

/-- A registry in which no resource shows a difference. -/
structure SameBodies (r r' : Registry) : Prop where
  /-- The resources are the same. -/
  resources : ∀ id, (r'.resource? id).map Resource.body = (r.resource? id).map Resource.body
  /-- They are listed and cached alike. -/
  indexes : r'.indexes = r.indexes
  /-- No number was given out here. -/
  issued : r'.supply.issued = r.supply.issued

namespace SameBodies

protected theorem trans (h : r.SameBodies r') (h' : r'.SameBodies r'') : r.SameBodies r'' :=
  ⟨fun id => (h'.resources id).trans (h.resources id), h'.indexes.trans h.indexes,
    h'.issued.trans h.issued⟩

theorem of_eq (h : r'.resources = r.resources) (hi : r'.indexes = r.indexes)
    (hs : r'.supply = r.supply) : r.SameBodies r' := by
  refine ⟨fun id => ?_, hi, by rw [hs]⟩
  unfold resource?
  rw [h]

/-- What is there was there before, with the same body. -/
theorem origin (h : r.SameBodies r') {x : ResourceId} {res' : Resource}
    (hx : r'.resource? x = some res') : ∃ res, r.resource? x = some res ∧ res.body = res'.body := by
  have hbody := h.resources x
  rw [hx, Option.map_some] at hbody
  exact Option.map_eq_some_iff.mp hbody.symm

/-- Well-formedness shows in the bodies of the resources. -/
theorem wellFormed (h : r.SameBodies r') (hw : r.WellFormed) : r'.WellFormed := by
  constructor
  · intro x res' hx
    obtain ⟨res, hres, heq⟩ := h.origin hx
    have hev : res.Evolves res' := .of_body heq.symm
    exact hev.id.trans (hw.keyed hres)
  · intro x res' hx
    obtain ⟨res, hres, -⟩ := h.origin hx
    rw [h.issued]
    exact hw.numbered hres
  · intro x res' hx
    obtain ⟨res, hres, heq⟩ := h.origin hx
    have hev : res.Evolves res' := .of_body heq.symm
    exact hev.storage.isSound (hw.sound hres)
  · intro x res' hx
    obtain ⟨res, hres, heq⟩ := h.origin hx
    have hev : res.Evolves res' := .of_body heq.symm
    exact hev.isNamed (hw.named hres)

end SameBodies

theorem sameBodies_processAcks (r : Registry) : r.SameBodies r.processAcks :=
  ⟨(quiet_processAcks r).resources, (quiet_processAcks r).indexes, by rw [supply_processAcks]⟩

/-- A registry in which only what goes over the wires may differ. -/
structure Rests (r r' : Registry) : Prop where
  /-- The resources are the same. -/
  resources : r'.resources = r.resources
  /-- They are listed and cached alike. -/
  indexes : r'.indexes = r.indexes
  /-- The waits are the same. -/
  waits : r'.waits = r.waits
  /-- The host is told nothing. -/
  journal : r'.journal = r.journal
  /-- No number is given out. -/
  supply : r'.supply = r.supply
  /-- Nothing is declared. -/
  schemas : r'.schemas = r.schemas

theorem Rests.lookup (h : r.Rests r') (x : ResourceId) : r'.resource? x = r.resource? x :=
  congrArg (·[x]?) h.resources

theorem Reframed.rests (h : r.Reframed r') : r.Rests r' := by
  obtain ⟨⟨_, _, _, rfl⟩, -⟩ := h
  exact ⟨rfl, rfl, rfl, rfl, rfl, rfl⟩

theorem Reframed.sameBodies {retired : Registry} (h : r.processAcks.Reframed retired) :
    r.SameBodies retired :=
  (sameBodies_processAcks r).trans (.of_eq h.resources h.rests.indexes h.supply)

/-- Opening a link changes no resource. -/
theorem ends_connect (thread : Thread) (r : Registry) :
    Ends (connect thread) r
      (fun position after => position = r.links.length ∧ ∃ wire,
        Wire.create r.config.ringCapacity = .ok wire ∧
        after = { r with links := r.links ++ [⟨thread, #[], wire⟩] })
      (fun _ after => after = r) := by
  unfold connect
  rw [Ends.bind_iff, Ends.get_iff]
  by_cases hrefused :
      (decide (thread = r.config.producer) || r.links.any (·.thread == thread)) = true
  · simp only [if_pos hrefused]
    rfl
  · simp only [if_neg hrefused]
    cases hwire : Wire.create r.config.ringCapacity with
    | error cause => rfl
    | ok wire => exact ⟨rfl, wire, rfl, rfl⟩

end Registry

namespace Broadcast

variable {b : Broadcast} {action : Action}

/-- An operation of the producer leaves the consumers alone and ends as it ends. -/
theorem onRegistry_ends {α : Type} {m : RegistryM α} {good : α → Registry → Prop}
    {bad : ResourceError → Registry → Prop} (h : Ends m b.registry good bad) (answer : α → Answer) :
    ((∃ a, (b.onRegistry m answer).1 = answer a ∧ good a (b.onRegistry m answer).2.registry) ∨
        ∃ e, (b.onRegistry m answer).1 = .failed e ∧ bad e (b.onRegistry m answer).2.registry) ∧
      (b.onRegistry m answer).2.replicas = b.replicas := by
  unfold onRegistry
  split
  · exact ⟨.inl ⟨_, rfl, h.of_ok ‹_›⟩, rfl⟩
  · exact ⟨.inr ⟨_, rfl, h.of_error ‹_›⟩, rfl⟩

/-- What holds of both ends of an operation of the producer holds afterwards. -/
theorem onRegistry_after {α : Type} {m : RegistryM α} {P : Registry → Prop}
    (h : Ends m b.registry (fun _ => P) (fun _ => P)) (answer : α → Answer) :
    P (b.onRegistry m answer).2.registry := by
  rcases (onRegistry_ends h answer).1 with ⟨_, -, hP⟩ | ⟨_, -, hP⟩
  · exact hP
  · exact hP

/-- A link is opened and a replica is put at its far end, or nothing happens. -/
theorem step_connect (b : Broadcast) (thread : Thread) :
    (∃ wire, Wire.create b.registry.config.ringCapacity = .ok wire ∧
        b.step (.connect thread) = (.done, { b with
          registry := { b.registry with links := b.registry.links ++ [⟨thread, #[], wire⟩] }
          replicas := b.replicas.push (.create thread) })) ∨
      ∃ e, b.step (.connect thread) = (.failed e, b) := by
  have hconnect := Registry.ends_connect thread b.registry
  cases hrun : (Registry.connect thread).run b.registry with
  | ok position after =>
    obtain ⟨-, wire, hwire, rfl⟩ := hconnect.of_ok hrun
    refine .inl ⟨wire, hwire, ?_⟩
    simp only [step, connect, hrun]
  | error e after =>
    obtain rfl := hconnect.of_error hrun
    refine .inr ⟨e, ?_⟩
    simp only [step, connect, hrun]

/-- However a commit ends, only snapshots and retired buffers have changed. -/
theorem reframed_commit (b : Broadcast) : b.registry.Reframed (b.step .commit).2.registry :=
  onRegistry_after (P := fun after => b.registry.Reframed after)
    (Registry.reframed_commit b.registry) _

/-- An action that goes over the wires changes nothing else, once answers were taken in if it takes
them in. -/
theorem rests_step (h : action.isInternal = false) :
    (if action.takesAcks then b.registry.processAcks else b.registry).Rests
      (b.step action).2.registry := by
  have hconnection {α : Type} (k : Nat) (m : ConnectionM α) :
      b.registry.Rests (b.onConnection k m).2.registry := by
    unfold onConnection
    split
    · exact ⟨rfl, rfl, rfl, rfl, rfl, rfl⟩
    · split <;> exact ⟨rfl, rfl, rfl, rfl, rfl, rfl⟩
  cases action with
  | connect thread =>
    rcases b.step_connect thread with ⟨wire, -, h⟩ | ⟨e, h⟩
    all_goals
      rw [h]
      exact ⟨rfl, rfl, rfl, rfl, rfl, rfl⟩
  | commit => exact b.reframed_commit.rests
  | flush =>
    have hsent {retired : Registry} (h : b.registry.processAcks.Reframed retired)
        (links : List Link) : b.registry.processAcks.Rests { retired with links } :=
      ⟨h.rests.resources, h.rests.indexes, h.rests.waits, h.rests.journal, h.rests.supply,
        h.rests.schemas⟩
    apply onRegistry_after (P := fun after => b.registry.processAcks.Rests after)
    apply (Registry.ends_flush b.registry).imp
    · rintro _ after ⟨retired, h, -, rfl⟩
      exact hsent h _
    · rintro _ after ⟨retired, h, rfl | rfl⟩
      · exact h.rests
      · exact hsent h _
  | registerLoader k type loader => exact hconnection k _
  | update k tick => exact hconnection k _
  | setTick | hangUp => exact ⟨rfl, rfl, rfl, rfl, rfl, rfl⟩
  | registerType | createOpaque | createInstance | createString | createBuffer | retain |
    dispose | setProp | setPropFromScript | await | processAcks | elsewhere => cases h

/-- An action that goes over the wires shows in no resource. -/
theorem sameBodies_step (h : action.isInternal = false) :
    b.registry.SameBodies (b.step action).2.registry := by
  have hrests := rests_step (b := b) h
  refine .trans ?_ (.of_eq hrests.resources hrests.indexes hrests.supply)
  split
  · exact Registry.sameBodies_processAcks _
  · exact .of_eq rfl rfl rfl

/-- That numbers are drawn elsewhere shows only in the numbers that are left. -/
theorem quiet_elsewhere (b : Broadcast) (drawn : Nat) (pool : BufferPool) :
    b.registry.Quiet (b.step (.elsewhere drawn pool)).2.registry :=
  ⟨fun _ => rfl, rfl, rfl, rfl, rfl, rfl, rfl, Nat.le_add_right _ _⟩

/-- An action that concerns the producer alone conserves the references outside of instances, unless
the host takes a reference by it or gives one back. -/
theorem keepsOutside_step (h : action.isInternal = true) (hc : action.IsCompiled)
    (hw : b.registry.WellFormed) (hl : (b.step action).2.registry.supply.Lasts)
    (hretain : ∀ id, action ≠ .retain id) (hdispose : ∀ id, action ≠ .dispose id) :
    b.registry.KeepsOutside (b.step action).2.registry := by
  have hwrites {id : ResourceId} {limit limit' : Multiset ResourceId} {m : RegistryM Unit}
      (h : Ends m b.registry
        (fun _ after => after.supply.Lasts → b.registry.Writes after id limit)
        (fun _ after => after.supply.Lasts → b.registry.Writes after id limit'))
      (answer : Unit → Answer) (hl : (b.onRegistry m answer).2.registry.supply.Lasts) :
      b.registry.KeepsOutside (b.onRegistry m answer).2.registry := by
    refine onRegistry_after (P := fun after => after.supply.Lasts → b.registry.KeepsOutside after) ?_
      answer hl
    exact h.imp (fun _ _ h hl => (h hl).keepsOutside) fun _ _ h hl => (h hl).keepsOutside
  cases action with
  | registerType type => exact (Registry.quiet_registerType b.registry type).keepsOutside
  | createOpaque thread type payload options =>
    apply onRegistry_after
    apply (Registry.ends_createOpaque thread type payload options b.registry).imp
    · exact fun _ _ h => h.keepsOutside
    · rintro _ after rfl
      exact .refl _
  | createInstance schema props options =>
    exact onRegistry_after (Registry.ends_createInstance hw hc.isSound props options) _ hl
  | createString text =>
    apply onRegistry_after
    apply (Registry.ends_createString text b.registry).imp
    · exact fun _ _ h => h.2.neutral.keepsOutside
    · exact fun _ _ h => h.elim
  | createBuffer buffer =>
    apply onRegistry_after
    apply (Registry.ends_createBuffer buffer b.registry).imp
    · exact fun _ _ h => h.2.neutral.keepsOutside
    · exact fun _ _ h => h.elim
  | retain id => exact absurd rfl (hretain id)
  | dispose id => exact absurd rfl (hdispose id)
  | setProp id name value => exact hwrites (Registry.ends_put hw .host) _ hl
  | setPropFromScript id name value =>
    exact hwrites (Registry.ends_put hw .script) _ hl
  | await id => exact (Registry.quiet_await b.registry id).keepsOutside
  | processAcks => exact (Registry.quiet_processAcks b.registry).keepsOutside
  | elsewhere drawn pool => exact (b.quiet_elsewhere drawn pool).keepsOutside
  | setTick | connect | commit | flush | registerLoader | update | hangUp => cases h

/-- An action that concerns the producer alone is a chain of elementary changes. -/
theorem changes_step (h : action.isInternal = true) (hc : action.IsCompiled)
    (hw : b.registry.WellFormed) (hl : (b.step action).2.registry.supply.Lasts) :
    b.registry.Changes (b.step action).2.registry := by
  by_cases hretain : ∃ id, action = .retain id
  · obtain ⟨id, rfl⟩ := hretain
    apply onRegistry_after
    apply (Registry.ends_retain id b.registry).imp
    · rintro _ after ⟨res, hres, -, rfl⟩
      exact .single ⟨True, 0, 0, id ::ₘ 0, 0, id ::ₘ 0, .retain hres⟩
    · rintro _ after ⟨-, -, rfl⟩
      exact .refl
  by_cases hdispose : ∃ id, action = .dispose id
  · obtain ⟨id, rfl⟩ := hdispose
    apply onRegistry_after
    apply (Registry.ends_dispose id b.registry).imp
    · rintro _ after ⟨res, hres, ⟨-, -, rfl⟩ | ⟨-, hcount, rfl⟩⟩
      · exact .single ⟨True, 0, id ::ₘ 0, 0, 0, 0, .release hres⟩
      · have hchain : Edits True 0 ⟨b.registry, id ::ₘ 0, 0⟩
            ⟨(b.registry.modifyResource id Resource.released).destroy id, 0, 0⟩ :=
          Registry.edits_released_destroy hres hcount
        exact hchain.changes
    · rintro _ after ⟨-, -, rfl⟩
      exact .refl
  exact (keepsOutside_step h hc hw hl (fun id heq => hretain ⟨id, heq⟩)
    fun id heq => hdispose ⟨id, heq⟩).changes

/-- No action takes a number back. -/
theorem issued_le_step (b : Broadcast) (hc : action.IsCompiled) :
    b.registry.supply.issued ≤ (b.step action).2.registry.supply.issued := by
  cases hinternal : action.isInternal with
  | false => exact (sameBodies_step hinternal).issued.ge
  | true =>
    have hgrows {α : Type} {m : RegistryM α} (h : Registry.Grows m) (answer : α → Answer) :
        b.registry.supply.issued ≤ (b.onRegistry m answer).2.registry.supply.issued :=
      onRegistry_after (h b.registry) answer
    cases action with
    | registerType type => exact (Registry.quiet_registerType b.registry type).issued
    | createOpaque thread type payload options =>
      exact hgrows (Registry.grows_createOpaque thread type payload options) _
    | createInstance schema props options =>
      exact onRegistry_after (Registry.ends_createInstance_issued hc.isSound props options _) _
    | createString text => exact hgrows (Registry.spans_acts.createString text).grows _
    | createBuffer buffer => exact hgrows (Registry.spans_acts.createBuffer buffer).grows _
    | retain id => exact hgrows (Registry.spans_acts.retain id).grows _
    | dispose id => exact hgrows (Registry.spans_acts.dispose id).grows _
    | setProp id name value => exact hgrows (Registry.spans_acts.put .host).grows _
    | setPropFromScript id name value =>
      exact hgrows (Registry.spans_acts.put .script).grows _
    | await id => exact (Registry.quiet_await b.registry id).issued
    | processAcks => exact (Registry.quiet_processAcks b.registry).issued
    | elsewhere drawn pool => exact Nat.le_add_right _ _
    | setTick | connect | commit | flush | registerLoader | update | hangUp => cases hinternal

/-- A well-formed registry stays well formed in every step, while numbers last. -/
theorem wellFormed_step (hc : action.IsCompiled) (hw : b.registry.WellFormed)
    (hl : (b.step action).2.registry.supply.Lasts) : (b.step action).2.registry.WellFormed := by
  cases hinternal : action.isInternal with
  | true => exact (changes_step hinternal hc hw hl).wellFormed hw hl
  | false => exact (sameBodies_step hinternal).wellFormed hw

/-- What is live under a number that was given out before was live before. -/
theorem origin_step (hc : action.IsCompiled) (hw : b.registry.WellFormed)
    (hl : (b.step action).2.registry.supply.Lasts) {x : ResourceId}
    (hx : x.toNat ≤ b.registry.supply.issued) {res' : Resource}
    (hres' : (b.step action).2.registry.resource? x = some res') :
    ∃ res, b.registry.resource? x = some res ∧ res.Evolves res' := by
  cases hinternal : action.isInternal with
  | true => exact (changes_step hinternal hc hw hl).origin hw hl hx hres'
  | false =>
    have hsame : b.registry.SameBodies (b.step action).2.registry := sameBodies_step hinternal
    have hbody := hsame.resources x
    rw [hres', Option.map_some] at hbody
    obtain ⟨res, hres, heq⟩ := Option.map_eq_some_iff.mp hbody.symm
    exact ⟨res, hres, .of_body heq.symm⟩

@[simp] theorem resource?_opened (config : Config) (supply : Supply) (x : ResourceId) :
    (opened config supply).registry.resource? x = none := Std.TreeMap.getElem?_emptyc

end Broadcast

namespace Run

variable {config : Config} {supply : Supply} {past : List Moment} {b : Broadcast}

/-- A registry without resources is well formed. -/
theorem wellFormed_opened (config : Config) (supply : Supply) :
    (Broadcast.opened config supply).registry.WellFormed := by
  constructor
  all_goals
    intro x res hx
    rw [Broadcast.resource?_opened] at hx
    cases hx

/-- Whatever was done, the registry is well formed while numbers last. -/
theorem wellFormed (h : Run (.opened config supply) past b)
    (hc : ∀ m ∈ past, m.action.IsCompiled) (hl : b.registry.supply.Lasts) :
    b.registry.WellFormed := by
  induction h with
  | nil => exact wellFormed_opened config supply
  | @snoc past b h action ih =>
    have hone : action.IsCompiled := hc ⟨b, action⟩ List.mem_cons_self
    have hle := b.issued_le_step hone
    have hw := ih (fun m hm => hc m (List.mem_cons_of_mem _ hm)) (hl.mono hle)
    exact Broadcast.wellFormed_step hone hw hl

/-- What holds at the start of a run and is kept by each of its actions holds at its end. -/
theorem keeps {P : List Moment → Broadcast → Prop} (h : Run (.opened config supply) past b)
    (hc : ∀ m ∈ past, m.action.IsCompiled) (hl : b.registry.supply.Lasts)
    (hstart : P [] (.opened config supply))
    (hstep : ∀ past b action, Run (.opened config supply) past b →
      (∀ m ∈ past, m.action.IsCompiled) → action.IsCompiled → b.registry.supply.Lasts →
      (b.step action).2.registry.supply.Lasts → P past b →
        P (⟨b, action⟩ :: past) (b.step action).2) : P past b := by
  induction h with
  | nil => exact hstart
  | @snoc past b h action ih =>
    have hone : action.IsCompiled := hc ⟨b, action⟩ List.mem_cons_self
    have hrest : ∀ m ∈ past, m.action.IsCompiled := fun m hm => hc m (List.mem_cons_of_mem _ hm)
    have hlasts : b.registry.supply.Lasts := hl.mono (b.issued_le_step hone)
    exact hstep past b action h hrest hone hlasts hl (ih hrest hlasts)

/-- What holds in the beginning and is kept by every action on a well-formed registry holds in every
state. -/
theorem kept {P : Broadcast → Prop} (h : Run (.opened config supply) past b)
    (hc : ∀ m ∈ past, m.action.IsCompiled) (hl : b.registry.supply.Lasts)
    (hstart : P (.opened config supply))
    (hstep : ∀ b action, b.registry.WellFormed → action.IsCompiled →
      (b.step action).2.registry.supply.Lasts → P b → P (b.step action).2) : P b :=
  h.keeps (P := fun _ b => P b) hc hl hstart fun _ b action h hrest hone hlasts hl =>
    hstep b action (h.wellFormed hrest hlasts) hone hl

end Run

end Framecast
