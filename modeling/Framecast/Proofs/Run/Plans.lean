import Framecast.Proofs.Run.Moulds
import Framecast.Proofs.Run.Schemas
import Framecast.Proofs.Storage.Plans

/-!
# Instances of one type

The schemas that instances are created of may be different objects, and need only agree
with the one that was entered first. All live instances of a type have one plan
nevertheless, and it is the plan of that schema. This is so even when numbers have run
out and are given out again, since a number that is taken over brings its own instance.
-/

namespace Framecast

/-- Whether a mould, if it is one of instances, has the type that its schema names, and the schema
was asked for and agrees with what is entered. -/
def Mould.IsKnown (past : List Moment) (r : Registry) (mould : Mould) : Prop :=
  ∀ schema, mould.frame = .fields schema [] →
    mould.type = schema.name ∧ (∃ m ∈ past, m.action.schema? = some schema) ∧ r.Knows schema

theorem Mould.IsIncidental.isKnown {mould : Mould} (h : mould.IsIncidental)
    (past : List Moment) (r : Registry) : mould.IsKnown past r := by
  intro schema hframe
  cases h <;> cases hframe

/-- The plans that the live instances of a registry have. -/
structure Registry.SharesPlans (r : Registry) : Prop where
  /-- An instance has the plan of the schema that is entered for its type. -/
  entered : ∀ x res schema bytes, r.resource? x = some res → res.storage = .fields schema bytes →
    ∃ known, r.schemas[res.type]? = some known ∧ schema.layout.plan = known.layout.plan
  /-- Instances of one type have one plan. -/
  shared : ∀ x y res res' schema schema' bytes bytes', r.resource? x = some res →
    r.resource? y = some res' → res.storage = .fields schema bytes →
    res'.storage = .fields schema' bytes' → res.type = res'.type →
      schema.layout.plan = schema'.layout.plan

namespace Broadcast

variable {past : List Moment} {b : Broadcast} {action : Action}

/-- What is known stays known, whatever is done. -/
theorem knows_step (hc : action.IsCompiled) {schema : Schema} (h : b.registry.Knows schema) :
    (b.step action).2.registry.Knows schema := by
  cases hasked : action.schema? with
  | none =>
    obtain ⟨known, hknown, hagrees⟩ := h
    have hsame := schemas_step (b := b) hasked
    exact ⟨known, hsame ▸ hknown, hagrees⟩
  | some other => exact h.enrolled (enrols_step hc hasked).1

/-- All moulds stay known. -/
theorem isKnown_step (hc : action.IsCompiled)
    (h : b.registry.Moulded (Mould.IsKnown past b.registry)) :
    (b.step action).2.registry.Moulded
      (Mould.IsKnown (⟨b, action⟩ :: past) (b.step action).2.registry) := by
  refine moulded_step hc ?_ (fun mould hincidental => hincidental.isKnown _ _) ?_
  · intro x res hres schema hframe
    obtain ⟨htype, ⟨m, hm, hasked⟩, hknows⟩ := h x res hres schema hframe
    exact ⟨htype, ⟨m, List.mem_cons_of_mem _ hm, hasked⟩, knows_step hc hknows⟩
  · intro mould hmould hknows schema hframe
    cases action with
    | createInstance other props options =>
      obtain rfl := Option.some.inj hmould
      obtain ⟨rfl, -⟩ := Storage.fields.inj hframe
      obtain ⟨known, hknown, hagrees⟩ := hknows other rfl
      exact ⟨rfl, ⟨_, List.mem_cons_self, rfl⟩, known, (enrols_step hc rfl).1 ▸ hknown, hagrees⟩
    | createOpaque thread type p options =>
      obtain rfl := Option.some.inj hmould
      cases hframe
    | _ => cases hmould

end Broadcast

namespace Run

variable {config : Config} {supply : Supply} {past : List Moment} {b : Broadcast}

/-- In every run, all moulds are known. -/
theorem isKnown (h : Run (.opened config supply) past b)
    (hc : ∀ m ∈ past, m.action.IsCompiled) :
    b.registry.Moulded (Mould.IsKnown past b.registry) := by
  induction h with
  | nil =>
    intro x res hres
    rw [Broadcast.resource?_opened] at hres
    cases hres
  | @snoc past b h action ih =>
    exact Broadcast.isKnown_step (hc ⟨b, action⟩ List.mem_cons_self)
      (ih fun m hm => hc m (List.mem_cons_of_mem _ hm))

/-- The plan of a live instance is the one of the schema that is entered for its type. -/
theorem plan_entered (h : Run (.opened config supply) past b)
    (hc : ∀ m ∈ past, m.action.IsCompiled) (hp : PublishedOnce past) {x : ResourceId}
    {res : Resource} {schema : Schema} {bytes : Bytes} (hres : b.registry.resource? x = some res)
    (hstorage : res.storage = .fields schema bytes) :
    ∃ known, b.registry.schemas[res.type]? = some known ∧
      schema.layout.plan = known.layout.plan := by
  obtain ⟨htype, ⟨m, hm, hasked⟩, known, hknown, hagrees⟩ := h.isKnown hc x res hres
    schema (Resource.frame_mould hstorage)
  obtain ⟨-, m', hm', hentered⟩ := (h.enrolments hc).asked _ known hknown
  have hcompiled {m : Moment} (hm : m ∈ past) {asked : Schema}
      (hasked : m.action.schema? = some asked) : asked.layout.IsCompiled := by
    have hone := hc m hm
    obtain ⟨props, options, haction⟩ := Action.eq_of_schema? hasked
    rwa [haction] at hone
  have hname : res.type = schema.name := htype
  refine ⟨known, hname ▸ hknown, Eq.symm ?_⟩
  exact Schema.plan_eq_of_agrees (hcompiled hm' hentered) (hcompiled hm hasked)
    (hp m' hm' m hm known schema hentered hasked) hagrees

/-- Equal layouts have one plan, though their order is not compared. Hence all live instances of a
type have one plan, which is the one of the schema that is entered for it, whatever schemas they were
created of. -/
theorem shares_plans (h : Run (.opened config supply) past b)
    (hc : ∀ m ∈ past, m.action.IsCompiled) (hp : PublishedOnce past) :
    (∀ one other : Layout, one.IsCompiled → other.IsCompiled → one.same other = true →
      one.plan = other.plan) ∧ b.registry.SharesPlans := by
  refine ⟨fun one other => Layout.plan_eq_of_same, fun x res schema bytes => h.plan_entered hc hp,
    ?_⟩
  intro x y res res' schema schema' bytes bytes' hres hres' hstorage hstorage' htype
  obtain ⟨known, hknown, hplan⟩ := h.plan_entered hc hp hres hstorage
  obtain ⟨known', hknown', hplan'⟩ := h.plan_entered hc hp hres' hstorage'
  rw [htype, hknown'] at hknown
  obtain rfl := Option.some.inj hknown
  exact hplan.trans hplan'.symm

end Run

namespace Samples

/-- What is declared of a dial: an angle that is a zero of some sign if nothing else is said, a text,
and a reverse pointer to another dial. -/
def dialDeclared (zero : Binary32) : List Declaration :=
  [{ Declaration.ofKind "angle" .f32 with default? := some (.float zero) },
    .ofKind "label" .string, { Declaration.reference "parent" "dial" with backRef := true }]

/-- The layout of a dial. -/
def dial (zero : Binary32) : Layout :=
  ⟨"dial", (dialDeclared zero).zipWith Declaration.place [0, 4, 8], 12⟩

/-- The layout of a dial whose properties are declared the other way round. -/
def turnedDial : Layout :=
  ⟨"dial", (dialDeclared ⟨0⟩).reverse.zipWith Declaration.place [0, 4, 8], 12⟩

theorem isCompiled_dials :
    (dial ⟨0⟩).IsCompiled ∧ (dial ⟨0x80000000⟩).IsCompiled ∧ turnedDial.IsCompiled :=
  ⟨⟨"dial", dialDeclared ⟨0⟩, by decide, by decide +kernel⟩,
    ⟨"dial", dialDeclared ⟨0x80000000⟩, by decide, by decide +kernel⟩,
    ⟨"dial", (dialDeclared ⟨0⟩).reverse, by decide, by decide +kernel⟩⟩

/-- Two dials of schemas that were published apart and differ in the sign of a zero, and an attempt at
a dial whose properties are in another order. -/
def dials : List Moment × Broadcast :=
  (Broadcast.opened ⟨.game, 8⟩ ⟨0, .initial⟩).play
    [.createInstance ⟨0, dial ⟨0⟩⟩ [("label", .text "a")] {},
      .createInstance ⟨1, dial ⟨0x80000000⟩⟩ [("parent", .ref (some 1))] {},
      .createInstance ⟨2, turnedDial⟩ [] {}]

theorem isCompiled_dialActions : ∀ m ∈ dials.1, m.action.IsCompiled :=
  Broadcast.isCompiled_play _ (by simp [Action.IsCompiled, isCompiled_dials])

/-- The layouts of dials, by the numbers under which they were published. -/
def dialLayouts : Nat → Layout
  | 0 => dial ⟨0⟩
  | 1 => dial ⟨0x80000000⟩
  | _ => turnedDial

theorem publishedOnce_dials : PublishedOnce dials.1 :=
  .of_layouts dialLayouts (Broadcast.forall_play
    (P := fun action => ∀ asked, action.schema? = some asked →
      asked.layout = dialLayouts asked.serial) _ (by simp [Action.schema?, dialLayouts]))

/-- Both dials are there and have one plan, though their layouts differ; the third is refused. -/
theorem shares_plans_dials : dials.2.registry.SharesPlans ∧
    dials.1.map Moment.answer =
      [.failed (.definitionConflict "dial"), .created 3, .created 1] ∧
    (dial ⟨0⟩).same (dial ⟨0x80000000⟩) = true ∧ dial ⟨0⟩ ≠ dial ⟨0x80000000⟩ ∧
    (dial ⟨0⟩).plan = (dial ⟨0x80000000⟩).plan := by
  obtain ⟨hequal, hshares⟩ := Run.shares_plans (.play _ _) isCompiled_dialActions publishedOnce_dials
  refine ⟨hshares, by decide +kernel, by decide +kernel, by decide +kernel, ?_⟩
  exact hequal _ _ isCompiled_dials.1 isCompiled_dials.2.1 (by decide +kernel)

end Samples

end Framecast
