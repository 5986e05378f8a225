import Framecast.Proofs.Cascade.Survival
import Framecast.Proofs.Operation.Deeds
import Framecast.Proofs.Registry.Indexes
import Framecast.Proofs.Run.Steps

/-!
# What survives an action

Whatever the host does, what was live before and still is is as it was made, and no
count comes to rest at zero again. Schemas are entered by creations of instances only,
and the one that is entered for a type stays.
-/

namespace Framecast

namespace Registry

variable {α : Type} {r after : Registry} {id : ResourceId} {schema : Schema} {options : Options}

theorem Within.upholds {m : RegistryM α} (hm : Traced m) (hkeyed : r.IsKeyed) :
    Ends m r (fun _ after => after.supply.Lasts → r.Upholds after)
      (fun _ after => after.supply.Lasts → r.Upholds after) :=
  (hm r).imp (fun _ _ h hl => Acts.upholds h hkeyed hl) fun _ _ h hl => Acts.upholds h hkeyed hl

theorem Within.schemas {m : RegistryM α} (hm : Traced m) (r : Registry) :
    Ends m r (fun _ after => after.schemas = r.schemas)
      (fun _ after => after.schemas = r.schemas) :=
  (hm r).imp (fun _ _ h => Acts.schemas h) fun _ _ h => Acts.schemas h

/-- How filling an instance ends: it is there, or it is gone, and what survives besides stays
counted. -/
theorem ends_fillInstance_upholds (hkeyed : r.IsKeyed) (id : ResourceId)
    (values : List (Property × Value)) (options : Options) :
    Ends (fillInstance id values options) r
      (fun found after => found = id ∧ (∃ res, after.resource? id = some res) ∧
        (after.supply.Lasts → r.Upholds after))
      (fun _ after => after.supply.Lasts → r.Upholds after) := by
  apply ends_fillInstance_of
  refine (spans_acts.writeEach id values r).imp ?_ ?_
  · intro _ filled hacts
    have hfilled := Acts.upholds hacts hkeyed
    refine ⟨fun _ _ => hfilled, fun old bindings after hold hplaced hsupply =>
      ⟨rfl, ⟨_, hplaced.found⟩, fun hl => ?_⟩⟩
    have hupheld := hfilled (hsupply ▸ hl)
    exact hupheld.trans (.replace hupheld.keyed hsupply hplaced hold rfl rfl rfl)
  · intro _ filled hacts hl
    rw [supply_destroy] at hl
    have hfilled := Acts.upholds hacts hkeyed hl
    exact hfilled.trans (upholds_destroy hfilled.keyed id)

/-- How filling a draft ends: it is there as it was made, or it is gone. -/
theorem Drafts.ends_fillInstance_upholds {entered : Registry} {res : Resource}
    (h : r.Drafts entered res) (hkeyed : r.IsKeyed) (values : List (Property × Value))
    (options : Options) :
    Ends (fillInstance r.supply.nextId values options) entered
      (fun id after => after.supply.Lasts → r.Upholds after ∧
        ∃ res', after.resource? id = some res' ∧ res'.mould = res.mould)
      (fun _ after => after.supply.Lasts → r.Upholds after) := by
  have hupholds {after : Registry} (hle : entered.supply.issued ≤ after.supply.issued)
      (hl : after.supply.Lasts) (hfilled : after.supply.Lasts → entered.Upholds after) :
      r.Upholds after :=
    (Upholds.place hkeyed (hl.mono hle) h.supply h.toPlaces h.keyed).trans (hfilled hl)
  refine ((grows_fillInstance r.supply.nextId values options entered).and
    (Registry.ends_fillInstance_upholds (h.isKeyed hkeyed h.keyed) r.supply.nextId values
      options)).imp ?_ ?_
  · rintro id after ⟨hle, rfl, ⟨res', hres'⟩, hfilled⟩ hl
    refine ⟨hupholds hle hl hfilled, res', hres', ?_⟩
    have hissued : r.supply.nextId.toNat ≤ entered.supply.issued := by
      have hlast : r.supply.draw.Lasts := h.supply ▸ hl.mono hle
      rw [h.supply]
      exact Nat.le_of_eq (Supply.toNat_nextId hlast.of_draw)
    obtain ⟨draft, hdraft, hmould, -⟩ := (hfilled hl).origin hissued hres'
    rw [h.found] at hdraft
    cases hdraft
    exact hmould
  · rintro _ after ⟨hle, hfilled⟩ hl
    exact hupholds hle hl hfilled

/-- How a creation of an instance ends. What it answers with is there, of the type and under the key
that were asked for: it is new and of the schema if nothing was cached, or it is what was cached. -/
theorem ends_createInstance_upholds (hw : r.WellFormed) (hi : r.IndexesLive)
    (hsound : schema.layout.IsSound) (props : List (String × Value)) (options : Options) :
    Ends (createInstance schema props options) r
      (fun id after => after.supply.Lasts → r.Upholds after ∧
        ∃ res frame, after.resource? id = some res ∧
          res.mould = ⟨schema.name, options.cacheKey?, frame⟩ ∧
            (frame = .fields schema [] ∧ r.cached? schema.name options.cacheKey? = none ∨
              r.resource? id = some res ∧ r.cached? schema.name options.cacheKey? = some id))
      (fun _ after => after.supply.Lasts → r.Upholds after) := by
  have henrolled (schemas : Std.TreeMap String Schema) : r.Upholds { r with schemas } :=
    .of_body hw.isKeyed (Nat.le_refl _) fun _ => rfl
  apply ends_createInstance_of hsound
  · intro id schemas hcached _
    obtain ⟨res, hres, htype, hkey⟩ := hi.of_cached? hcached
    refine ⟨henrolled schemas, res, res.storage.frame, hres, ?_, .inr ⟨hres, hcached⟩⟩
    unfold Resource.mould
    rw [htype, hkey]
  · exact fun _ schemas _ => henrolled schemas
  · intro schemas bytes values _ hdrafted
    have hdraft := drafts_enterInstance { r with schemas } schema bytes options
    refine (hdraft.ends_fillInstance_upholds (henrolled schemas).keyed values options).imp ?_ ?_
    · intro id after hfilled hl
      obtain ⟨hupholds, res, hres, hmould⟩ := hfilled hl
      exact ⟨(henrolled schemas).trans hupholds, res, _, hres, hmould,
        .inl ⟨rfl, hdrafted.uncached⟩⟩
    · exact fun _ after hfilled hl => (henrolled schemas).trans (hfilled hl)

/-- Filling an instance declares nothing. -/
theorem ends_fillInstance_schemas (id : ResourceId) (values : List (Property × Value))
    (options : Options) (r : Registry) :
    Ends (fillInstance id values options) r (fun _ after => after.schemas = r.schemas)
      (fun _ after => after.schemas = r.schemas) := by
  apply ends_fillInstance_of
  refine ((spans_acts.writeEach id values).schemas r).imp ?_ ?_
  · exact fun _ filled hfilled => ⟨fun _ _ => hfilled,
      fun _ _ _ _ hplaced _ => hplaced.schemas.trans hfilled⟩
  · exact fun _ filled hfilled => (schemas_destroy filled id).trans hfilled

/-- A creation of an instance enters its schema, however it ends, and it succeeds only if the schema
is known then. -/
theorem ends_createInstance_schemas (hsound : schema.layout.IsSound)
    (props : List (String × Value)) (options : Options) (r : Registry) :
    Ends (createInstance schema props options) r
      (fun _ after => after.schemas = r.enrolled schema ∧ after.Knows schema)
      (fun _ after => after.schemas = r.enrolled schema) := by
  apply ends_createInstance_knows hsound
  · exact fun _ hknows _ => ⟨rfl, hknows⟩
  · exact fun _ => rfl
  · intro bytes values hknows _ _
    refine (ends_fillInstance_schemas r.supply.nextId values options _).imp ?_ fun _ _ h => h
    intro _ after hschemas
    refine ⟨hschemas, ?_⟩
    unfold Knows
    rw [hschemas]
    exact hknows

end Registry

namespace Action

/-- The schema that an action has entered, if its type has none. -/
def schema? : Action → Option Schema
  | .createInstance schema _ _ => some schema
  | _ => none

end Action

namespace Broadcast

variable {b : Broadcast} {action : Action}

/-- Whatever the host does, what survives is as it was made and stays counted. -/
theorem upholds_step (hc : action.IsCompiled) (hw : b.registry.WellFormed)
    (hi : b.registry.IndexesLive) (hl : (b.step action).2.registry.supply.Lasts) :
    b.registry.Upholds (b.step action).2.registry := by
  have hkeyed := hw.isKeyed
  have hquiet {after : Registry} (h : b.registry.Quiet after) : b.registry.Upholds after :=
    .of_body hkeyed h.issued h.resources
  have hafter {α : Type} {m : RegistryM α} {answer : α → Answer}
      (hm : Ends m b.registry (fun _ after => after.supply.Lasts → b.registry.Upholds after)
        (fun _ after => after.supply.Lasts → b.registry.Upholds after))
      (hl : (b.onRegistry m answer).2.registry.supply.Lasts) :
      b.registry.Upholds (b.onRegistry m answer).2.registry :=
    onRegistry_after (P := fun after => after.supply.Lasts → b.registry.Upholds after) hm answer hl
  cases hinternal : action.isInternal with
  | false =>
    have hsame := sameBodies_step (b := b) hinternal
    exact .of_body hkeyed (Nat.le_of_eq hsame.issued.symm) hsame.resources
  | true =>
    cases action with
    | registerType type => exact hquiet (Registry.quiet_registerType b.registry type)
    | createOpaque thread type p options =>
      refine hafter
        ((Registry.ends_createOpaque_adds thread type p options b.registry).imp ?_ ?_) hl
      · rintro _ after (⟨rfl, -⟩ | ⟨-, res, hadds, -⟩) hl
        · exact .refl hkeyed
        · exact .place hkeyed hl hadds.supply hadds.toPlaces hadds.keyed
      · rintro _ after rfl -
        exact .refl hkeyed
    | createInstance schema props options =>
      exact hafter ((Registry.ends_createInstance_upholds hw hi hc.isSound props options).imp
        (fun _ _ h hl => (h hl).1) fun _ _ h => h) hl
    | createString text => exact hafter ((Registry.spans_acts.createString text).upholds hkeyed) hl
    | createBuffer buffer => exact hafter ((Registry.spans_acts.createBuffer buffer).upholds hkeyed) hl
    | retain id => exact hafter ((Registry.spans_acts.retain id).upholds hkeyed) hl
    | dispose id => exact hafter ((Registry.spans_acts.dispose id).upholds hkeyed) hl
    | setProp id name value =>
      exact hafter ((Registry.spans_acts.put .host).upholds hkeyed) hl
    | setPropFromScript id name value =>
      exact hafter ((Registry.spans_acts.put .script).upholds hkeyed) hl
    | await id => exact hquiet (Registry.quiet_await b.registry id)
    | processAcks => exact hquiet (Registry.quiet_processAcks b.registry)
    | elsewhere drawn pool => exact hquiet (b.quiet_elsewhere drawn pool)
    | setTick | connect | commit | flush | registerLoader | update | hangUp => cases hinternal

/-- Nothing but a creation of an instance enters a schema. -/
theorem schemas_step (h : action.schema? = none) :
    (b.step action).2.registry.schemas = b.registry.schemas := by
  have htraced {α : Type} {m : RegistryM α} (hm : Registry.Traced m) (answer : α → Answer) :
      (b.onRegistry m answer).2.registry.schemas = b.registry.schemas :=
    onRegistry_after (P := fun after => after.schemas = b.registry.schemas) (hm.schemas _) answer
  cases hinternal : action.isInternal with
  | false =>
    refine (rests_step (b := b) hinternal).schemas.trans ?_
    split
    · exact Registry.schemas_processAcks _
    · rfl
  | true =>
    cases action with
    | registerType type =>
      unfold step withRegistry Registry.registerType
      dsimp only
      split <;> rfl
    | createOpaque thread type p options =>
      apply onRegistry_after (P := fun after => after.schemas = b.registry.schemas)
      apply (Registry.ends_createOpaque_adds thread type p options b.registry).imp
      · rintro _ after (⟨rfl, -⟩ | ⟨-, res, hadds, -⟩)
        · rfl
        · exact hadds.schemas
      · rintro _ after rfl
        rfl
    | createInstance schema props options => cases h
    | createString text => exact htraced (Registry.spans_acts.createString text) _
    | createBuffer buffer => exact htraced (Registry.spans_acts.createBuffer buffer) _
    | retain id => exact htraced (Registry.spans_acts.retain id) _
    | dispose id => exact htraced (Registry.spans_acts.dispose id) _
    | setProp id name value => exact htraced (Registry.spans_acts.put .host) _
    | setPropFromScript id name value =>
      exact htraced (Registry.spans_acts.put .script) _
    | await id => exact Registry.schemas_await b.registry id
    | processAcks => exact Registry.schemas_processAcks b.registry
    | elsewhere drawn pool => rfl
    | setTick | connect | commit | flush | registerLoader | update | hangUp => cases hinternal

end Broadcast

end Framecast
