import Framecast.Proofs.Fields.Altering
import Framecast.Proofs.Operation.Deeds

/-!
# The bytes of a new instance

A new instance begins with its plain values and is then written to, value after value,
until it is sent. Nothing else that survives is altered. If a write fails, the instance
is gone again and nothing is altered at all.
-/

namespace Framecast

/-- Storage to which some values were written, one after another. -/
inductive Storage.Fills : List (Property × Value) → Storage → Storage → Prop
  /-- Nothing is written. -/
  | nil (s : Storage) : Fills [] s s
  /-- A value is written, and then the others. -/
  | cons {prop : Property} {value : Value} {rest : List (Property × Value)} {schema : Schema}
      {bytes : Bytes} {s' : Storage} (r : Registry) (hvalid : prop.validate value = .ok ())
      (h : Fills rest
        (.fields schema (prop.splice bytes (r.encoding prop value (prop.slice bytes)))) s') :
    Fills ((prop, value) :: rest) (.fields schema bytes) s'

/-- Writing values leaves an instance its schema. -/
theorem Storage.Fills.schema_eq {values : List (Property × Value)} {schema schema' : Schema}
    {bytes bytes' : Bytes}
    (h : Storage.Fills values (.fields schema bytes) (.fields schema' bytes')) :
    schema' = schema := by
  generalize hbefore : Storage.fields schema bytes = s at h
  generalize hafter : Storage.fields schema' bytes' = s' at h
  induction h generalizing bytes with
  | nil _ => exact (Storage.fields.inj (hafter.trans hbefore.symm)).1
  | cons r hvalid h ih =>
    obtain ⟨rfl, -⟩ := Storage.fields.inj hbefore
    exact ih rfl hafter

theorem Storage.Fills.append {values more : List (Property × Value)} {s s' s'' : Storage}
    (h : Storage.Fills values s s') (h' : Storage.Fills more s' s'') :
    Storage.Fills (values ++ more) s s'' := by
  induction h with
  | nil _ => exact h'
  | cons r hvalid _ ih => exact .cons r hvalid (ih h')

/-- Plain values that are set one after another are written one after another. -/
theorem Storage.fills_setPlain (r : Registry) {given : List (Property × Value)}
    (hvalid : ∀ one ∈ given, one.1.validate one.2 = .ok ())
    (hplain : ∀ one ∈ given, (Property.plainWords? one.2).isSome = true) (schema : Schema)
    (storage : Bytes) :
    Storage.Fills given (.fields schema storage)
      (.fields schema (given.foldl Property.setPlain storage)) := by
  induction given generalizing storage with
  | nil => exact .nil _
  | cons one rest ih =>
    have hencoding : one.1.splice storage (r.encoding one.1 one.2 (one.1.slice storage)) =
        Property.setPlain storage one := by
      have hsome := hplain one List.mem_cons_self
      obtain ⟨prop, value⟩ := one
      cases value with
      | bool | word | float | floats => rfl
      | text | buffer | ref | refs => cases hsome
    refine .cons r (hvalid one List.mem_cons_self) ?_
    rw [hencoding]
    exact ih (fun other hother => hvalid other (List.mem_cons_of_mem _ hother))
      (fun other hother => hplain other (List.mem_cons_of_mem _ hother)) _

/-- The storage of resource `x` after some values were written to instance `id`. -/
def Storage.Filled (id : ResourceId) (values : List (Property × Value)) (x : ResourceId)
    (s s' : Storage) : Prop :=
  if x = id then Storage.Fills values s s' else s' = s

/-- The storage of resource `x` after anything was written to instance `id`. -/
def Storage.Elsewhere (id x : ResourceId) (s s' : Storage) : Prop := x ≠ id → s' = s

namespace Registry

variable {r s after : Registry} {id : ResourceId} {schema : Schema} {options : Options}

/-- Filling changes no payload. -/
theorem payload_of_filled {values : List (Property × Value)} (x : ResourceId) (p : Payload)
    (s' : Storage) (h : Storage.Filled id values x (.payload p) s') : ∃ p', s' = .payload p' := by
  unfold Storage.Filled at h
  split at h
  · cases h
    exact ⟨p, rfl⟩
  · exact ⟨p, h⟩

/-- A registry with a new instance. All else that is live was live before with the same storage, or
it is a payload with a new number. -/
structure Founds (r after : Registry) (id : ResourceId) (storage : Storage → Prop) : Prop where
  /-- Numbers only go up. -/
  issued : r.supply.issued ≤ after.supply.issued
  /-- The instance has a number that was not given out before. -/
  new : r.supply.issued < id.toNat
  /-- What the storage of the instance is like. -/
  own : ∀ {res'}, after.resource? id = some res' → storage res'.storage
  /-- Where the storage of any other resource comes from. -/
  others : ∀ {x res'}, x ≠ id → after.resource? x = some res' →
    (∃ res, r.resource? x = some res ∧ res'.storage = res.storage) ∨
      r.supply.issued < x.toNat ∧ ∃ p, res'.storage = .payload p

/-- Writing values to one instance alters no other. -/
theorem ends_writeEach_elsewhere (id : ResourceId) (values : List (Property × Value))
    (r : Registry) :
    Ends (writeEach id values) r
      (fun _ after => after.supply.Lasts → r.Alters after (Storage.Elsewhere id))
      (fun _ after => after.supply.Lasts → r.Alters after (Storage.Elsewhere id)) := by
  unfold writeEach
  refine Ends.forM (P := fun s => s.supply.Lasts → r.Alters s (Storage.Elsewhere id)) ?_ ?_
  · intro given _ s hs
    apply (spans_acts.writeProp id given.1 given.2).grows.ends_of_lasts
    intro hl
    apply (ends_writeProp_alters hl id given.1 given.2).imp
    · rintro _ after ⟨-, hafter⟩ -
      refine ((hs hl).trans hafter payload_of_spliced).imp ?_
      rintro x s₁ s₂ ⟨mid, hmid, hspliced⟩ hx
      unfold Storage.Spliced at hspliced
      rw [if_neg hx] at hspliced
      exact hspliced.trans (hmid hx)
    · exact fun _ after hafter _ => (hs hl).trans_sparesBytes hafter
  · exact fun _ => Alters.imp (SparesBytes.refl r) fun _ _ _ h _ => h

/-- Writing values to an instance one after another fills it with them. -/
theorem ends_writeEach_filled (id : ResourceId) (values : List (Property × Value)) (r : Registry) :
    Ends (writeEach id values) r
      (fun _ after => after.supply.Lasts → r.Alters after (Storage.Filled id values))
      (fun _ _ => True) := by
  induction values generalizing r with
  | nil =>
    refine fun _ => Alters.imp (SparesBytes.refl r) ?_
    rintro x before _ rfl
    unfold Storage.Filled
    split
    · exact .nil _
    · rfl
  | cons given rest ih =>
    apply (spans_acts.writeEach id (given :: rest)).grows.ends_ok_of_lasts
    intro hl
    unfold writeEach
    rw [List.forM_eq_forM, List.forM_cons, ← List.forM_eq_forM, Ends.bind_iff]
    apply (ends_writeProp_alters hl id given.1 given.2).imp
    · rintro _ mid ⟨hvalid, hmid⟩
      apply (ih mid).imp
      · intro _ after hafter hlast
        refine (hmid.trans (hafter hlast) payload_of_filled).imp ?_
        rintro x s₁ s₂ ⟨s, hspliced, hfilled⟩
        unfold Storage.Spliced at hspliced
        unfold Storage.Filled at hfilled ⊢
        split
        · rename_i hx
          rw [if_pos hx] at hspliced hfilled
          obtain ⟨schema, bytes, rfl, rfl⟩ := hspliced
          exact .cons r hvalid hfilled
        · rename_i hx
          rw [if_neg hx] at hspliced hfilled
          exact hfilled.trans hspliced
      · exact fun _ _ h => h
    · exact fun _ _ _ => trivial

/-- Placing a resource with the storage that it had alters nothing. -/
theorem Places.sparesBytes {res res' : Resource} (h : r.Places after id res')
    (hres : r.resource? id = some res) (hstorage : res'.storage = res.storage)
    (hsupply : after.supply = r.supply) : r.SparesBytes after := by
  refine .of_lookup (by rw [hsupply]) fun {x found} hx => ?_
  by_cases hid : x = id
  · rw [hid, h.found] at hx
    cases hx
    exact ⟨res, hid ▸ hres, hstorage⟩
  · rw [h.others x hid] at hx
    exact ⟨found, hx, rfl⟩

/-- How filling a new instance ends, as far as bytes go: it holds its values and nothing else is
altered, or it is gone. -/
theorem ends_fillInstance_filled (hw : r.WellFormed) (hf : r.Filling id schema)
    (hsound : schema.layout.IsSound) {values : List (Property × Value)}
    (hvalues : ∀ given ∈ values, given.1 ∈ schema.layout.props) (options : Options) :
    Ends (fillInstance id values options) r
      (fun found after => after.supply.Lasts → found = id ∧
        r.Alters after (Storage.Filled id values))
      (fun _ after => after.supply.Lasts → after.resource? id = none ∧
        r.Alters after (Storage.Elsewhere id)) := by
  apply ends_fillInstance_of
  refine (((ends_writeEach_elsewhere id values r).and (ends_writeEach_filled id values r)).and
    (ends_writeEach hw hf hsound hvalues)).imp ?_ ?_
  · rintro _ filled ⟨⟨helsewhere, hfilled⟩, -⟩
    refine ⟨fun hnone _ hl => ⟨hnone, helsewhere hl⟩,
      fun old bindings after hold hplaced hsupply hl => ⟨rfl, ?_⟩⟩
    rw [hsupply] at hl
    exact (hfilled hl).trans_sparesBytes (hplaced.sparesBytes hold rfl hsupply)
  · rintro _ failed ⟨⟨helsewhere, -⟩, hwrites⟩ hl
    rw [supply_destroy] at hl
    obtain ⟨limit, hwrites⟩ := hwrites hl
    obtain ⟨hwfailed, -⟩ := hwrites.filling hw hl hf
    exact ⟨resource?_destroy_self hwfailed hl id,
      (helsewhere hl).trans_sparesBytes (.cascade _ _ failed)⟩

/-- How a creation ends, as far as bytes go: the instance was cached and nothing is altered, or it
is new and was filled, or the creation failed and nothing is altered. -/
theorem ends_createInstance_founds (hw : r.WellFormed) (hsound : schema.layout.IsSound)
    (props : List (String × Value)) (options : Options) :
    Ends (createInstance schema props options) r
      (fun id after => after.supply.Lasts →
        (r.SparesBytes after ∧ r.cached? schema.name options.cacheKey? = some id) ∨
          ∃ bytes values, r.Drafted schema props options bytes values ∧
            r.Founds after id (Storage.Fills values (.fields schema bytes)))
      (fun _ after => after.supply.Lasts → r.SparesBytes after) := by
  have hschemas (schemas : Std.TreeMap String Schema) : r.SparesBytes { r with schemas } :=
    .of_quiet (quiet_schemas r schemas)
  apply ends_createInstance_filling hw hsound
  · exact fun id schemas hcached => .inl ⟨hschemas schemas, hcached⟩
  · exact fun _ schemas => hschemas schemas
  · rintro schemas bytes values hdrafted _ rfl hl hwentered hf
    have hlookup := resource?_insert { r with schemas } schema.name (.fields schema bytes)
      { options with hook? := none }
    have hlr : r.supply.Lasts := Supply.Lasts.of_draw hl
    have hothers {after : Registry} {how : ResourceId → Storage → Storage → Prop}
        (h : (({ r with schemas } : Registry).enterInstance schema bytes options).2.Alters after
          how)
        (hhow : ∀ x s s', x ≠ r.supply.nextId → how x s s' → s' = s) {x : ResourceId}
        {res' : Resource} (hne : x ≠ r.supply.nextId) (hx : after.resource? x = some res') :
        (∃ res, r.resource? x = some res ∧ res'.storage = res.storage) ∨
          r.supply.issued < x.toNat ∧ ∃ p, res'.storage = .payload p := by
      rcases h.origin hx with ⟨res, hres, hstorage⟩ | ⟨hnew, hp⟩
      · have hres := (hlookup x).symm.trans hres
        rw [if_neg hne] at hres
        exact .inl ⟨res, hres, hhow x _ _ hne hstorage⟩
      · exact .inr ⟨(Nat.lt_succ_self _).trans hnew, hp⟩
    refine (ends_fillInstance_filled hwentered hf hsound hdrafted.mem_props options).imp ?_ ?_
    · intro id after h hlast
      obtain ⟨rfl, hfilled⟩ := h hlast
      refine .inr ⟨bytes, values, hdrafted, (Nat.le_succ _).trans hfilled.issued, ?_, ?_,
        hothers hfilled fun x s s' hne h => ?_⟩
      · rw [Supply.toNat_nextId hlr]
        exact Nat.lt_succ_self _
      · intro res' hres'
        rcases hfilled.origin hres' with ⟨res, hres, hstorage⟩ | ⟨hnew, -⟩
        · have hres := (hlookup _).symm.trans hres
          rw [if_pos rfl] at hres
          cases hres
          unfold Storage.Filled at hstorage
          rwa [if_pos rfl] at hstorage
        · exact absurd (Supply.toNat_nextId hlr) (Nat.ne_of_gt hnew)
      · unfold Storage.Filled at h
        rwa [if_neg hne] at h
    · intro _ after h hlast
      obtain ⟨hgone, helsewhere⟩ := h hlast
      refine ⟨(Nat.le_succ _).trans helsewhere.issued, fun {x res'} hx => ?_⟩
      have hne : x ≠ r.supply.nextId := by
        rintro rfl
        rw [show ({ r with schemas } : Registry).supply.nextId = r.supply.nextId from rfl] at hgone
        rw [hgone] at hx
        cases hx
      exact hothers helsewhere (fun x s s' hne h => h hne) hne hx

end Registry

end Framecast
