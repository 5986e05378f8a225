import Framecast.Proofs.Operation.Deeds
import Framecast.Proofs.Registry.Indexes

/-!
# What an operation makes

What is live under a number that was given out in an operation is what the host asked
for, if the operation answers with this number. Otherwise it is a text under itself or
a raw buffer, which a write has made on its way.
-/

namespace Framecast

/-- Whether something new has the mould that was asked for under its number, or is incidental. -/
def Mould.Suits (mould : Mould) (x : ResourceId) (made? : Option (ResourceId × Mould)) : Prop :=
  (∀ asked, made? = some (x, asked) → mould = asked) ∧
    ((∀ asked, made? ≠ some (x, asked)) → mould.IsIncidental)

theorem Mould.suits_asked (mould : Mould) (x : ResourceId) : mould.Suits x (some (x, mould)) := by
  refine ⟨?_, fun hother => absurd rfl (hother mould)⟩
  rintro _ ⟨⟩
  rfl

theorem Mould.IsIncidental.suits {mould : Mould} (h : mould.IsIncidental) {x : ResourceId}
    {made? : Option (ResourceId × Mould)} (hother : ∀ asked, made? ≠ some (x, asked)) :
    mould.Suits x made? :=
  ⟨fun asked hmade => absurd hmade (hother asked), fun _ => h⟩

namespace Registry

/-- A registry in which everything new is what was asked for, or is incidental. -/
def Makes (r after : Registry) (made? : Option (ResourceId × Mould)) : Prop :=
  ∀ x res, after.resource? x = some res → r.supply.issued < x.toNat → res.mould.Suits x made?

variable {r s after : Registry} {made? : Option (ResourceId × Mould)} {id : ResourceId}

protected theorem Makes.refl (hw : r.WellFormed) : r.Makes r made? :=
  fun _ _ hres hnew => absurd (hw.numbered hres).2 (Nat.not_le_of_lt hnew)

/-- If only incidental things are new, nothing that was there before is asked for. -/
theorem Makes.of_issued (h : r.Makes after none) (hid : id.toNat ≤ r.supply.issued)
    (mould : Mould) : r.Makes after (some (id, mould)) := by
  intro x res hres hnew
  refine ((h x res hres hnew).2 fun _ hnone => by cases hnone).suits ?_
  rintro _ ⟨⟩
  exact absurd hid (Nat.not_le_of_lt hnew)

/-- What is placed where something was keeps its mould. -/
theorem Makes.place (h : r.Makes s made?) {res res' : Resource} (hres : s.resource? id = some res)
    (hplaces : s.Places after id res') (hmould : res'.mould = res.mould) : r.Makes after made? := by
  intro x found hfound hnew
  by_cases hx : x = id
  · rw [hx, hplaces.found] at hfound
    cases hfound
    rw [hmould, hx]
    exact h id res hres (hx ▸ hnew)
  · rw [hplaces.others x hx] at hfound
    exact h x found hfound hnew

/-- What is entered under the next number is what was asked for. -/
theorem Makes.enter (h : r.Makes s none) {res : Resource}
    (hplaces : s.Places after s.supply.nextId res) :
    r.Makes after (some (s.supply.nextId, res.mould)) := by
  intro x found hfound hnew
  by_cases hx : x = s.supply.nextId
  · rw [hx, hplaces.found] at hfound
    cases hfound
    rw [hx]
    exact res.mould.suits_asked _
  · rw [hplaces.others x hx] at hfound
    refine ((h x found hfound hnew).2 fun _ hnone => by cases hnone).suits ?_
    rintro _ ⟨⟩
    exact hx rfl

/-- Whatever else a stroke adds is incidental. -/
theorem Makes.stroke (h : r.Makes s made?) (hstroke : s.Stroke after) (hl : after.supply.Lasts)
    (hmade : ∀ d asked, made? = some (d, asked) → d.toNat ≤ s.supply.issued) :
    r.Makes after made? := by
  intro x res hres hnew
  cases hstroke with
  | declare => exact h x res hres hnew
  | touch id hf =>
    have hstanding := standing_modifyResource s id hf x
    rw [hres, Option.map_some] at hstanding
    obtain ⟨old, hold, heq⟩ := Option.map_eq_some_iff.mp hstanding.symm
    rw [Resource.mould_of_standing heq.symm]
    exact h x old hold hnew
  | add hadds _ hmould =>
    by_cases hx : x = s.supply.nextId
    · rw [hx, hadds.found] at hres
      cases hres
      refine hmould.suits fun asked hasked => ?_
      have hissued := hmade x asked hasked
      rw [hx, Supply.toNat_nextId (hadds.supply ▸ hl).of_draw] at hissued
      exact absurd hissued (Nat.not_succ_le_self _)
    · rw [hadds.others x hx] at hres
      exact h x res hres hnew
  | remove hgone =>
    rw [resource?_remove] at hres
    split at hres
    · cases hres
    · exact h x res hres hnew

/-- Whatever else a chain of strokes adds is incidental. -/
theorem Makes.strokes (h : r.Makes s made?) (hstrokes : s.Strokes after)
    (hl : after.supply.Lasts)
    (hmade : ∀ d asked, made? = some (d, asked) → d.toNat ≤ s.supply.issued) :
    r.Makes after made? :=
  Strokes.keep (P := fun after => r.Makes after made?) hstrokes hl
    (fun _ _ hle hl hone hs => hs.stroke hone hl fun d asked hd => (hmade d asked hd).trans hle) h

/-- An operation that is a chain of acts makes nothing but what is incidental. -/
theorem Within.makes {α : Type} {m : RegistryM α} (hm : Traced m) (hw : r.WellFormed) :
    Ends m r (fun _ after => after.supply.Lasts → r.Makes after none)
      (fun _ after => after.supply.Lasts → r.Makes after none) := by
  have hmakes {after : Registry} (hacts : r.Acts after) (hl : after.supply.Lasts) :
      r.Makes after none :=
    Makes.strokes (.refl hw) (Acts.strokes hacts) hl fun _ _ hnone => by cases hnone
  exact (hm r).imp (fun _ _ h hl => hmakes h hl) fun _ _ h hl => hmakes h hl

theorem IndexesLive.issued_of_cached? (hi : r.IndexesLive) (hw : r.WellFormed) {type : String}
    {key? : Option CacheKey} (h : r.cached? type key? = some id) : id.toNat ≤ r.supply.issued := by
  obtain ⟨res, hres, -⟩ := hi.of_cached? h
  exact (hw.numbered hres).2

/-- A creation of an opaque resource that makes anything makes what was asked for. -/
theorem ends_createOpaque_makes (hw : r.WellFormed) (hi : r.IndexesLive) (thread : Thread)
    (type : String) (p : Payload) (options : Options) :
    Ends (createOpaque thread type p options) r
      (fun id after => r.Makes after (some (id, ⟨type, options.cacheKey?, .payload p⟩)))
      (fun _ after => r.Makes after none) := by
  apply (ends_createOpaque_adds thread type p options r).imp
  · rintro id after (⟨rfl, hcached⟩ | ⟨rfl, res, hadds, -, hmould⟩)
    · exact (Makes.refl hw).of_issued (hi.issued_of_cached? hw hcached) _
    · exact hmould ▸ (Makes.refl hw).enter hadds.toPlaces
  · rintro _ after rfl
    exact .refl hw

/-- Filling an instance and sending it leaves it its mould; if that fails, only what is incidental
is left. -/
theorem ends_fillInstance_makes {schema : Schema} {mould : Mould} (hw : s.WellFormed)
    (hf : s.Filling id schema) (hsound : schema.layout.IsSound)
    (hmade : r.Makes s (some (id, mould))) {values : List (Property × Value)}
    (hvalues : ∀ given ∈ values, given.1 ∈ schema.layout.props) (options : Options) :
    Ends (fillInstance id values options) s
      (fun found after => after.supply.Lasts → found = id ∧ r.Makes after (some (id, mould)))
      (fun _ after => after.supply.Lasts → r.Makes after none) := by
  have hissued : ∀ d asked, some (id, mould) = some (d, asked) → d.toNat ≤ s.supply.issued := by
    rintro _ _ ⟨⟩
    exact hf.issued
  have hgone {after : Registry} (h : r.Makes after (some (id, mould)))
      (hnone : after.resource? id = none) : r.Makes after none := by
    intro x res hres hnew
    refine ((h x res hres hnew).2 ?_).suits fun _ hother => by cases hother
    rintro _ ⟨⟩
    rw [hnone] at hres
    cases hres
  apply ends_fillInstance_of
  refine ((spans_acts.writeEach id values s).and (ends_writeEach hw hf hsound hvalues)).imp ?_ ?_
  · rintro _ filled ⟨hacts, -⟩
    have hfilled (hl : filled.supply.Lasts) : r.Makes filled (some (id, mould)) :=
      hmade.strokes (Acts.strokes hacts) hl hissued
    refine ⟨fun hnone _ hl => hgone (hfilled hl) hnone,
      fun old bindings after hold hplaced hsupply hl => ?_⟩
    rw [hsupply] at hl
    exact ⟨rfl, (hfilled hl).place hold hplaced rfl⟩
  · rintro _ filled ⟨hacts, hwrites⟩ hl
    rw [supply_destroy] at hl
    obtain ⟨limit, hwrites⟩ := hwrites hl
    obtain ⟨hwfilled, -⟩ := hwrites.filling hw hl hf
    refine hgone (hmade.strokes ((Acts.strokes hacts).trans (strokes_destroy filled _)) ?_ hissued)
      (resource?_destroy_self hwfilled hl _)
    rwa [supply_destroy]

/-- A creation of an instance that makes anything makes what was asked for. -/
theorem ends_createInstance_makes {schema : Schema} (hw : r.WellFormed) (hi : r.IndexesLive)
    (hsound : schema.layout.IsSound) (props : List (String × Value)) (options : Options) :
    Ends (createInstance schema props options) r
      (fun id after => after.supply.Lasts →
        r.Makes after (some (id, ⟨schema.name, options.cacheKey?, .fields schema []⟩)))
      (fun _ after => after.supply.Lasts → r.Makes after none) := by
  have hnone (schemas : Std.TreeMap String Schema) : r.Makes { r with schemas } none :=
    fun _ _ hres hnew => absurd (hw.numbered hres).2 (Nat.not_le_of_lt hnew)
  apply ends_createInstance_filling hw hsound
  · exact fun id schemas hcached =>
      (hnone schemas).of_issued (hi.issued_of_cached? hw hcached) _
  · exact fun _ schemas => hnone schemas
  · rintro schemas bytes values hdrafted _ rfl - hwentered hf
    have hplaces := places_insert { r with schemas } schema.name (.fields schema bytes)
      { options with hook? := none }
    have hmade := Makes.enter (r := { r with schemas }) (.refl ⟨hw.1, hw.2, hw.3, hw.4⟩) hplaces
    refine (ends_fillInstance_makes hwentered hf hsound hmade hdrafted.mem_props options).imp ?_
      fun _ _ h => h
    intro id after h hl
    obtain ⟨rfl, hmakes⟩ := h hl
    exact hmakes

end Registry

end Framecast
