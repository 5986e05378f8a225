import Framecast.Proofs.Run.Listing

/-!
# What all live resources have in common

What holds of the moulds of all live resources goes on holding, whatever is done, if it
holds of what an action asks for and of what is made on the way. This takes neither
numbers that are new nor a well-formed registry: what is live under a number is as it
was, or it was just made under this number.
-/

namespace Framecast

namespace Registry

/-- Whether something holds of the moulds of all live resources. -/
def Moulded (P : Mould → Prop) (r : Registry) : Prop :=
  ∀ x res, r.resource? x = some res → P res.mould

variable {P : Mould → Prop} {r after : Registry} {id : ResourceId}

/-- Where everything that is live was there before, with its mould, what holds of all moulds goes on
holding. -/
theorem Moulded.of_origin (h : r.Moulded P)
    (horigin : ∀ x res', after.resource? x = some res' →
      ∃ res, r.resource? x = some res ∧ res'.mould = res.mould) :
    after.Moulded P := by
  intro x res' hres'
  obtain ⟨res, hres, hmould⟩ := horigin x res' hres'
  rw [hmould]
  exact h x res hres

/-- The bodies of resources show their moulds. -/
theorem Moulded.of_body (h : r.Moulded P)
    (hbody : ∀ x, (after.resource? x).map Resource.body = (r.resource? x).map Resource.body) :
    after.Moulded P := by
  refine h.of_origin fun x res' hres' => ?_
  have hx := hbody x
  rw [hres', Option.map_some] at hx
  obtain ⟨res, hres, heq⟩ := Option.map_eq_some_iff.mp hx.symm
  exact ⟨res, hres, (Resource.Evolves.of_body heq.symm).mould_eq⟩

/-- One more resource may be placed of which it holds. -/
theorem Moulded.place (h : r.Moulded P) {res : Resource} (hplaces : r.Places after id res)
    (hres : P res.mould) : after.Moulded P := by
  intro x found hfound
  by_cases hx : x = id
  · subst hx
    rw [hplaces.found] at hfound
    cases hfound
    exact hres
  · rw [hplaces.others x hx] at hfound
    exact h x found hfound

/-- A stroke goes on with what holds of everything incidental. -/
theorem Moulded.stroke (h : r.Moulded P)
    (hP : ∀ mould, mould.IsIncidental → P mould) (hstroke : r.Stroke after) :
    after.Moulded P := by
  cases hstroke with
  | declare => exact h
  | touch id hf =>
    refine h.of_origin fun x res' hres' => ?_
    have hstanding := standing_modifyResource r id hf x
    rw [hres', Option.map_some] at hstanding
    obtain ⟨res, hres, heq⟩ := Option.map_eq_some_iff.mp hstanding.symm
    exact ⟨res, hres, Resource.mould_of_standing heq.symm⟩
  | add hadds _ hmould => exact h.place hadds.toPlaces (hP _ hmould)
  | remove hgone =>
    refine h.of_origin fun x res hres => ?_
    rw [resource?_remove] at hres
    split at hres
    · cases hres
    · exact ⟨res, hres, rfl⟩

/-- A chain of strokes goes on with what holds of everything incidental. -/
theorem Moulded.strokes (h : r.Moulded P)
    (hP : ∀ mould, mould.IsIncidental → P mould) (hstrokes : r.Strokes after) :
    after.Moulded P := by
  induction hstrokes with
  | refl => exact h
  | tail _ hone ih => exact ih.stroke hP hone

/-- So does an operation that is a chain of acts. -/
theorem Moulded.ends_traced (h : r.Moulded P)
    (hP : ∀ mould, mould.IsIncidental → P mould) {α : Type} {m : RegistryM α}
    (hm : Traced m) :
    Ends m r (fun _ after => after.Moulded P) (fun _ after => after.Moulded P) :=
  (hm r).imp (fun _ _ hacts => h.strokes hP (Acts.strokes hacts))
    fun _ _ hacts => h.strokes hP (Acts.strokes hacts)

/-- Filling an instance leaves it its mould, however it ends. -/
theorem Moulded.ends_fillInstance (h : r.Moulded P)
    (hP : ∀ mould, mould.IsIncidental → P mould)
    (id : ResourceId) (values : List (Property × Value)) (options : Options) :
    Ends (fillInstance id values options) r (fun _ after => after.Moulded P)
      (fun _ after => after.Moulded P) := by
  apply ends_fillInstance_of
  refine (h.ends_traced hP (spans_acts.writeEach id values)).imp ?_ ?_
  · intro _ filled hfilled
    exact ⟨fun _ _ => hfilled, fun old _ _ hold hplaces _ => hfilled.place hplaces
      (hfilled id old hold)⟩
  · exact fun _ filled hfilled => hfilled.strokes hP (strokes_destroy filled id)

/-- A creation of an instance goes on with what holds of the instance once its schema is known. -/
theorem Moulded.ends_createInstance (h : r.Moulded P)
    (hP : ∀ mould, mould.IsIncidental → P mould) {schema : Schema}
    (hsound : schema.layout.IsSound) (props : List (String × Value)) {options : Options}
    (hmade : ({ r with schemas := r.enrolled schema } : Registry).Knows schema →
      P ⟨schema.name, options.cacheKey?, .fields schema []⟩) :
    Ends (createInstance schema props options) r (fun _ after => after.Moulded P)
      (fun _ after => after.Moulded P) := by
  have henrolled : ({ r with schemas := r.enrolled schema } : Registry).Moulded P := h
  apply ends_createInstance_knows hsound
  · exact fun _ _ _ => henrolled
  · exact fun _ => henrolled
  · intro bytes values hknows _ _
    have hentered := henrolled.place (places_insert { r with schemas := r.enrolled schema }
      schema.name (.fields schema bytes) { options with hook? := none }) (hmade hknows)
    exact hentered.ends_fillInstance hP r.supply.nextId values options

end Registry

namespace Broadcast

variable {b : Broadcast} {action : Action}

/-- What holds of all moulds goes on holding, if it holds of what an action asks for, with a schema
that is known then, and of everything incidental. -/
theorem moulded_step {P : Mould → Prop} (hc : action.IsCompiled) (h : b.registry.Moulded P)
    (hP : ∀ mould, mould.IsIncidental → P mould)
    (hmade : ∀ mould, action.mould? = some mould →
      (∀ schema, mould.frame = .fields schema [] →
        ({ b.registry with schemas := b.registry.enrolled schema } : Registry).Knows schema) →
      P mould) :
    (b.step action).2.registry.Moulded P := by
  have htraced {α : Type} {m : RegistryM α} (hm : Registry.Traced m) (answer : α → Answer) :
      (b.onRegistry m answer).2.registry.Moulded P :=
    onRegistry_after (h.ends_traced hP hm) answer
  cases hinternal : action.isInternal with
  | false => exact h.of_body (sameBodies_step hinternal).resources
  | true =>
    cases action with
    | registerType type =>
      exact h.of_body (Registry.quiet_registerType b.registry type).resources
    | createOpaque thread type p options =>
      apply onRegistry_after (P := fun after => after.Moulded P)
      refine (Registry.ends_createOpaque_adds thread type p options b.registry).imp ?_ ?_
      · rintro _ after (⟨rfl, -⟩ | ⟨-, res, hadds, -, hmould⟩)
        · exact h
        · refine h.place hadds.toPlaces ?_
          rw [hmould]
          refine hmade _ rfl fun schema hframe => ?_
          cases hframe
      · rintro _ after rfl
        exact h
    | createInstance schema props options =>
      refine onRegistry_after (h.ends_createInstance hP hc.isSound props fun hknows =>
        hmade _ rfl fun other hframe => ?_) .created
      obtain ⟨rfl, -⟩ := Storage.fields.inj hframe
      exact hknows
    | createString text => exact htraced (Registry.spans_acts.createString text) _
    | createBuffer buffer => exact htraced (Registry.spans_acts.createBuffer buffer) _
    | retain id => exact htraced (Registry.spans_acts.retain id) _
    | dispose id => exact htraced (Registry.spans_acts.dispose id) _
    | setProp id name value => exact htraced (Registry.spans_acts.put .host) _
    | setPropFromScript id name value => exact htraced (Registry.spans_acts.put .script) _
    | await id => exact h.of_body (Registry.quiet_await b.registry id).resources
    | processAcks => exact h.of_body (Registry.quiet_processAcks b.registry).resources
    | elsewhere drawn pool => exact h
    | setTick | connect | commit | flush | registerLoader | update | hangUp => cases hinternal

end Broadcast

end Framecast
