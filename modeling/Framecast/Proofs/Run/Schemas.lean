import Framecast.Proofs.Run.Listing
import Framecast.Proofs.Run.Survival
import Framecast.Proofs.Storage.Agreement

/-!
# The schemas of a run

The schema that is entered for a type was asked for, and it is entered for good. An
instance is created only of a schema that agrees with the one that is entered for its
type, so all schemas of a type of which instances were created agree with each other,
and every live instance is of one of them.
-/

namespace Framecast

namespace Registry

variable {r : Registry} {name : String} {schema known : Schema}

/-- Entering a schema leaves what is entered. -/
theorem enrolled_of_some (h : r.schemas[name]? = some known) (schema : Schema) :
    (r.enrolled schema)[name]? = some known := by
  unfold enrolled
  split
  · exact h
  · rename_i hnone
    rw [Std.TreeMap.getElem?_insert, if_neg]
    · exact h
    · intro heq
      rw [Std.LawfulEqOrd.compare_eq_iff_eq] at heq
      rw [heq, h] at hnone
      cases hnone

/-- What is entered after a schema was entered is this schema, under its name, or was entered
before. -/
theorem of_enrolled (h : (r.enrolled schema)[name]? = some known) :
    r.schemas[name]? = some known ∨ known = schema ∧ name = schema.name := by
  unfold enrolled at h
  split at h
  · exact .inl h
  · rw [Std.TreeMap.getElem?_insert] at h
    split at h
    · rename_i heq
      rw [Std.LawfulEqOrd.compare_eq_iff_eq] at heq
      exact .inr ⟨(Option.some.inj h).symm, heq.symm⟩
    · exact .inl h

theorem Knows.enrolled {after : Registry} (h : r.Knows schema) {other : Schema}
    (hschemas : after.schemas = r.enrolled other) : after.Knows schema := by
  obtain ⟨known, hknown, hagrees⟩ := h
  exact ⟨known, hschemas ▸ enrolled_of_some hknown other, hagrees⟩

end Registry

/-- Whether schemas that were asked for and were published together are one. -/
def PublishedOnce (past : List Moment) : Prop :=
  ∀ m ∈ past, ∀ m' ∈ past, ∀ schema schema', m.action.schema? = some schema →
    m'.action.schema? = some schema' → schema.IsOneWith schema'

/-- Schemas with one layout for each number are one if they were published together. -/
theorem PublishedOnce.of_layouts {past : List Moment} (layouts : Nat → Layout)
    (h : ∀ m ∈ past, ∀ asked, m.action.schema? = some asked → asked.layout = layouts asked.serial) :
    PublishedOnce past := by
  intro m hm m' hm' asked asked' hasked hasked' hserial
  rw [h m hm asked hasked, h m' hm' asked' hasked', hserial]

theorem PublishedOnce.of_forall {past : List Moment} (schema : Schema)
    (h : ∀ m ∈ past, ∀ asked, m.action.schema? = some asked → asked = schema) :
    PublishedOnce past :=
  .of_layouts (fun _ => schema.layout) fun m hm asked hasked => by rw [h m hm asked hasked]

/-- How the schemas that are entered came to be, and what they are for. -/
structure Enrolments (past : List Moment) (b : Broadcast) : Prop where
  /-- What is entered under a name was asked for and has this name. -/
  asked : ∀ name known, b.registry.schemas[name]? = some known →
    known.name = name ∧ ∃ m ∈ past, m.action.schema? = some known
  /-- A schema of which an instance was asked for successfully agrees with what is entered. -/
  known : ∀ m ∈ past, ∀ schema id, m.action.schema? = some schema → m.answer = .created id →
    b.registry.Knows schema

namespace Action

variable {action : Action}

/-- Only creations of instances ask for a schema. -/
theorem eq_of_schema? {schema : Schema} (h : action.schema? = some schema) :
    ∃ props options, action = .createInstance schema props options := by
  cases action with
  | createInstance other props options =>
    obtain rfl := Option.some.inj h
    exact ⟨props, options, rfl⟩
  | _ => cases h

end Action

namespace Broadcast

variable {b : Broadcast} {action : Action}

/-- A creation enters the schema that it asks for, and succeeds only if this agrees with what is
entered then. -/
theorem enrols_step {schema : Schema} (hc : action.IsCompiled) (h : action.schema? = some schema) :
    (b.step action).2.registry.schemas = b.registry.enrolled schema ∧
      ∀ id, (b.step action).1 = .created id → (b.step action).2.registry.Knows schema := by
  obtain ⟨props, options, rfl⟩ := Action.eq_of_schema? h
  rcases (onRegistry_ends (Registry.ends_createInstance_schemas hc.isSound props options b.registry)
    .created).1 with ⟨id, -, hschemas, hknows⟩ | ⟨e, hanswer, hschemas⟩
  · exact ⟨hschemas, fun _ _ => hknows⟩
  · refine ⟨hschemas, fun id hid => ?_⟩
    have hsame : (b.onRegistry (Registry.createInstance schema props options) .created).1 =
      .created id := hid
    rw [hanswer] at hsame
    cases hsame

end Broadcast

namespace Run

variable {config : Config} {supply : Supply} {past : List Moment} {b : Broadcast}

/-- In every run, what is entered was asked for, and it agrees with what instances were created
of. -/
theorem enrolments (h : Run (.opened config supply) past b)
    (hc : ∀ m ∈ past, m.action.IsCompiled) : Enrolments past b := by
  induction h with
  | nil =>
    refine ⟨fun name known hnone => ?_, fun m hm => nomatch hm⟩
    have hempty : (Broadcast.opened config supply).registry.schemas[name]? = none :=
      Std.TreeMap.getElem?_emptyc
    rw [hempty] at hnone
    cases hnone
  | @snoc past b h action ih =>
    have hmem {m : Moment} (hm : m ∈ past) : m ∈ ⟨b, action⟩ :: past := List.mem_cons_of_mem _ hm
    have hrest := ih fun m hm => hc m (hmem hm)
    cases hasked : action.schema? with
    | none =>
      have hsame := Broadcast.schemas_step (b := b) hasked
      refine ⟨fun name known hknown => ?_, fun m hm schema id hschema hanswer => ?_⟩
      · obtain ⟨hname, m, hm, hschema⟩ := hrest.asked name known (hsame ▸ hknown)
        exact ⟨hname, m, hmem hm, hschema⟩
      · rcases List.mem_cons.mp hm with rfl | hm
        · rw [hasked] at hschema
          cases hschema
        · obtain ⟨known, hknown, hagrees⟩ := hrest.known m hm schema id hschema hanswer
          exact ⟨known, hsame ▸ hknown, hagrees⟩
    | some schema =>
      obtain ⟨hschemas, hknows⟩ :=
        Broadcast.enrols_step (hc ⟨b, action⟩ List.mem_cons_self) hasked
      refine ⟨fun name known hknown => ?_, fun m hm other id hschema hanswer => ?_⟩
      · rcases Registry.of_enrolled (hschemas ▸ hknown) with hknown | ⟨rfl, rfl⟩
        · obtain ⟨hname, m, hm, hschema⟩ := hrest.asked name known hknown
          exact ⟨hname, m, hmem hm, hschema⟩
        · exact ⟨rfl, _, List.mem_cons_self, hasked⟩
      · rcases List.mem_cons.mp hm with rfl | hm
        · obtain rfl := Option.some.inj (hasked.symm.trans hschema)
          exact hknows id hanswer
        · exact (hrest.known m hm other id hschema hanswer).enrolled hschemas

/-- A live instance was asked for with its own schema. -/
theorem created_of_fields (h : Run (.opened config supply) past b)
    (hc : ∀ m ∈ past, m.action.IsCompiled) (hl : b.registry.supply.Lasts) {x : ResourceId}
    {res : Resource} {schema : Schema} {bytes : Bytes} (hres : b.registry.resource? x = some res)
    (hstorage : res.storage = .fields schema bytes) :
    ∃ m ∈ past, m.action.schema? = some schema ∧ m.answer = .created x := by
  obtain ⟨m, hm, -, hasked, hother⟩ := (h.makings hc hl).made x res hres
  have hframe := Resource.frame_mould hstorage
  by_cases hmade : ∃ asked, m.made? = some (x, asked)
  · obtain ⟨asked, hmade⟩ := hmade
    obtain rfl := hasked asked hmade
    unfold Moment.made? at hmade
    split at hmade
    · rename_i id hanswer
      obtain ⟨mould, hmould, heq⟩ := Option.map_eq_some_iff.mp hmade
      obtain ⟨rfl, rfl⟩ := Prod.mk.inj heq
      refine ⟨m, hm, ?_, hanswer⟩
      cases haction : m.action with
      | createInstance other props options =>
        rw [haction] at hmould
        rw [← Option.some.inj hmould] at hframe
        obtain ⟨rfl, -⟩ := Storage.fields.inj hframe
        rfl
      | createOpaque thread type p options =>
        rw [haction] at hmould
        rw [← Option.some.inj hmould] at hframe
        cases hframe
      | _ =>
        rw [haction] at hmould
        cases hmould
    · cases hmade
  · -- what is incidental is no instance
    have hincidental := hother fun asked hsome => hmade ⟨asked, hsome⟩
    generalize res.mould = mould at hframe hincidental
    cases hincidental <;> cases hframe

/-- Of one type, all schemas of which instances were created agree. -/
theorem agrees_of_name (h : Run (.opened config supply) past b)
    (hc : ∀ m ∈ past, m.action.IsCompiled) (hp : PublishedOnce past) {m m' : Moment}
    (hm : m ∈ past) (hm' : m' ∈ past) {schema schema' : Schema} {id id' : ResourceId}
    (hschema : m.action.schema? = some schema) (hschema' : m'.action.schema? = some schema')
    (hanswer : m.answer = .created id) (hanswer' : m'.answer = .created id')
    (hname : schema.name = schema'.name) :
    schema.agrees schema' = true := by
  have henrolments := h.enrolments hc
  obtain ⟨known, hknown, hagrees⟩ := henrolments.known m hm schema id hschema hanswer
  obtain ⟨_, hsame, hagrees'⟩ := henrolments.known m' hm' schema' id' hschema' hanswer'
  rw [← hname, hknown] at hsame
  cases hsame
  obtain ⟨-, asked, hasked, hentered⟩ := henrolments.asked _ known hknown
  have hsound {m : Moment} (hm : m ∈ past) {schema : Schema}
      (hschema : m.action.schema? = some schema) : schema.layout.IsSound := by
    have hone := hc m hm
    obtain ⟨props, options, haction⟩ := Action.eq_of_schema? hschema
    rw [haction] at hone
    exact hone.isSound
  exact Schema.agrees_trans (hp m hm asked hasked _ _ hschema hentered)
    (hp asked hasked m' hm' _ _ hentered hschema')
    (Schema.agrees_symm (hsound hasked hentered) (hsound hm hschema) hagrees) hagrees'

end Run

end Framecast
