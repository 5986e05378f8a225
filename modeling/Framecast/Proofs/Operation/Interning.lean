import Framecast.Proofs.Operation.Deeds
import Framecast.Proofs.Registry.Indexes

/-!
# Interning and exchanging references

A text that is written is interned, and its number is exchanged for what the property
held: the new reference is taken, its number is stored, and the old references are
given back. What was there under the text is left as it is. If only payloads are given
back, and all of them are counted, the new reference leads to something in the end,
also if it is one of the old ones.
-/

namespace Framecast

namespace Registry

variable {r : Registry} {id t : ResourceId} {prop : Property} {text : String}

/-- A registry in which a text was interned under its number. -/
structure Interned (r interned : Registry) (text : String) (target : Resource) : Prop where
  /-- It is there. -/
  found : interned.resource? (r.internedId text) = some target
  /-- It is there under the text. -/
  mould : target.mould = ⟨stringType, some (.text text), target.storage.frame⟩
  /-- It is the text, or it was there before. -/
  made : target.storage = .payload (.text text) ∨ r.resource? (r.internedId text) = some target
  /-- It was interned by acts. -/
  acts : r.Acts interned
  /-- Nothing else is there that was not there before. -/
  interns : r.Interns interned text

/-- A text that is not empty is there when it was interned. -/
theorem ends_createString_interned (hi : r.IndexesLive) (hfull : text ≠ "") :
    Ends (createString text) r
      (fun id after => id = r.internedId text ∧ ∃ target, r.Interned after text target)
      (fun _ _ => False) := by
  have hnonempty : ¬text.isEmpty = true := by simpa using hfull
  have hfound : Ends (createString text) r
      (fun id after => ∃ res, after.resource? id = some res ∧
        res.mould = ⟨stringType, some (.text text), res.storage.frame⟩ ∧
          (res.storage = .payload (.text text) ∨ r.resource? id = some res))
      (fun _ _ => False) := by
    unfold createString
    rw [if_neg hnonempty, Ends.bind_iff, Ends.get_iff]
    dsimp only
    cases hcached : r.cached? stringType (some (.text text)) with
    | some id =>
      obtain ⟨res, hres, htype, hkey⟩ := hi.of_cached? hcached
      refine ⟨res, hres, ?_, .inr hres⟩
      unfold Resource.mould
      rw [htype, hkey]
    | none =>
      refine (ends_spawn_adds stringType (.payload (.text text)) { cacheKey? := some (.text text) }
        r.allLinks r).imp ?_ fun _ _ h => h
      rintro _ after ⟨rfl, res, hadds, -, hmould⟩
      have hframe : res.storage.frame = .payload (.text text) := congrArg Mould.frame hmould
      exact ⟨res, hadds.found, hmould.trans (by rw [hframe]; rfl),
        .inl (Storage.frame_eq_payload.mp hframe)⟩
  refine ((hfound.and (spans_acts.createString text r)).and (ends_createString text r)).imp ?_
    fun _ _ h => h.2
  rintro _ after ⟨⟨⟨res, hres, hmould, hmade⟩, hacts⟩, rfl, hinterns⟩
  exact ⟨rfl, res, hres, hmould, hmade, hacts, hinterns⟩

/-- Exchanging the reference in a property comes to taking the new one, storing it and giving the
old ones back. -/
theorem exchange_eq (r : Registry) (id : ResourceId) (prop : Property) (bytes : Bytes)
    (ht : t ≠ 0) : r.exchange id prop bytes [t] =
      ((prop.words (prop.slice bytes)).filter (· != 0)).foldl release
        ((r.modifyResource t Resource.retained).storeBytes id prop
          ((prop.slice bytes).setWords (padded prop.count [t]))) := by
  have hone : [t].filter (· != 0) = [t] := by simp [ht]
  unfold exchange
  rw [hone]
  rfl

/-- Taking references one after another is a chain of acts. -/
theorem acts_retainAll (targets : List ResourceId) (r : Registry) :
    r.Acts (retainAll targets r) := by
  induction targets generalizing r with
  | nil => exact .refl
  | cons target rest ih => exact .head (.retain target) (ih _)

theorem acts_exchange (r : Registry) (id : ResourceId) (prop : Property) (bytes : Bytes)
    (targets : List ResourceId) : r.Acts (r.exchange id prop bytes targets) :=
  (acts_retainAll _ r).trans (.head (.store id prop _) (spans_acts.foldl_release _ _))

/-- Giving a reference on a payload back leaves others alone, and what has several references. -/
theorem exists_release (hkeyed : r.IsKeyed) {w : ResourceId} {res : Resource}
    (ht : r.resource? t = some res) (hw : ∀ found, r.resource? w = some found →
      (∃ p, found.storage = .payload p) ∧ (w = t → 1 < found.refCount)) :
    ∃ res', (r.release w).resource? t = some res' := by
  have hreleased : ∃ res', (r.modifyResource w Resource.released).resource? t = some res' := by
    rw [resource?_modifyResource]
    split
    · rename_i heq
      rw [← heq, ht]
      exact ⟨_, rfl⟩
    · exact ⟨res, ht⟩
  have hends := ends_dispose w r
  unfold release
  split
  · obtain ⟨found, hfound, ⟨-, -, rfl⟩ | ⟨-, hlast, rfl⟩⟩ := hends.of_ok ‹_›
    · exact hreleased
    · obtain ⟨⟨p, hp⟩, hmore⟩ := hw found hfound
      have hrelease : (r.modifyResource w Resource.released).resource? w = some found.released := by
        rw [resource?_modifyResource, if_pos rfl, hfound]
        rfl
      have hne : t ≠ found.released.id := by
        rintro rfl
        have hself : found.id = w := hkeyed w found hfound
        have := hmore hself.symm
        omega
      rw [destroy_payload hrelease hp, resource?_remove, if_neg hne]
      exact hreleased
  · obtain ⟨-, -, rfl⟩ := hends.of_error ‹_›
    exact ⟨res, ht⟩

/-- Replacing the bytes of a property changes no count. -/
theorem refCount_storeBytes (r : Registry) (id : ResourceId) (prop : Property) (part : Bytes)
    (x : ResourceId) : ((r.storeBytes id prop part).resource? x).map Resource.refCount =
      (r.resource? x).map Resource.refCount := by
  unfold storeBytes
  rw [resource?_modifyResource]
  split
  · rename_i heq
    rw [heq, Option.map_map]
    congr 1
    funext res
    dsimp only [Function.comp_apply]
    split <;> rfl
  · rfl

/-- A reference that is put in the place of one on a payload is there in the end, if payloads that
are held are counted. -/
theorem exists_exchange (hkeyed : r.IsKeyed) (ht : t ≠ 0) {res : Resource}
    (hres : r.resource? t = some res) (hone : prop.count = 1) (bytes : Bytes)
    (hheld : ∀ w ∈ prop.words (prop.slice bytes), w ≠ 0 → ∀ found, r.resource? w = some found →
      (∃ p, found.storage = .payload p) ∧ 0 < found.refCount) :
    ∃ res', (r.exchange id prop bytes [t]).resource? t = some res' := by
  rw [exchange_eq r id prop bytes ht]
  generalize hstored : (r.modifyResource t Resource.retained).storeBytes id prop
    ((prop.slice bytes).setWords (padded prop.count [t])) = stored
  have horigin {x : ResourceId} {found : Resource} (hfound : stored.resource? x = some found) :
      ∃ old, r.resource? x = some old ∧ old.standing = found.standing := by
    have hstanding : (stored.resource? x).map Resource.standing =
        (r.resource? x).map Resource.standing := by
      rw [← hstored, standing_storeBytes]
      exact standing_modifyResource r t (f := Resource.retained) (fun _ => rfl) x
    rw [hfound, Option.map_some] at hstanding
    exact Option.map_eq_some_iff.mp hstanding.symm
  have hkeyed' : stored.IsKeyed := by
    intro x found hfound
    obtain ⟨old, hold, heq⟩ := horigin hfound
    exact (Resource.of_standing heq).1.symm.trans (hkeyed x old hold)
  have hcount : (stored.resource? t).map Resource.refCount = some res.retained.refCount := by
    rw [← hstored, refCount_storeBytes, resource?_modifyResource, if_pos rfl, hres]
    rfl
  obtain ⟨target, htarget, hcounted⟩ := Option.map_eq_some_iff.mp hcount
  obtain ⟨w, hw⟩ : ∃ w, prop.words (prop.slice bytes) = [w] := by
    unfold Property.words
    rw [hone]
    exact ⟨_, rfl⟩
  rw [hw] at hheld ⊢
  by_cases hzero : w = 0
  · rw [hzero]
    exact ⟨target, htarget⟩
  · have hfilter : [w].filter (· != 0) = [w] := by simp [hzero]
    rw [hfilter]
    refine exists_release hkeyed' htarget fun found hfound => ?_
    obtain ⟨old, hold, heq⟩ := horigin hfound
    obtain ⟨⟨p, hp⟩, hpos⟩ := hheld w (List.mem_singleton_self w) hzero old hold
    refine ⟨⟨p, ?_⟩, ?_⟩
    · have hmould : found.mould = old.mould := (Resource.mould_of_standing heq).symm
      have hframe : found.storage.frame = old.storage.frame := congrArg Mould.frame hmould
      exact Storage.frame_eq_payload.mp (hframe.trans (Storage.frame_eq_payload.mpr hp))
    · rintro rfl
      rw [htarget] at hfound
      cases hfound
      rw [hres] at hold
      cases hold
      have hmin : res.retained.refCount = min (res.refCount + 1) Resource.maxRefCount := rfl
      have hmax : 1 < Resource.maxRefCount := by decide
      omega

/-- A reference that is written to an instance ends in its being exchanged, or in a failure. -/
theorem ends_replaceRefs_exchange (id : ResourceId) (prop : Property) (targets : List ResourceId)
    (r : Registry) :
    Ends (replaceRefs id prop targets) r
      (fun _ after => ∃ holder schema bytes, r.resource? id = some holder ∧
        holder.storage = .fields schema bytes ∧ after = r.exchange id prop bytes targets)
      (fun _ _ => True) := by
  by_cases hfields : ∃ holder schema bytes, r.resource? id = some holder ∧
      holder.storage = .fields schema bytes
  · obtain ⟨holder, schema, bytes, hholder, hstorage⟩ := hfields
    exact (ends_replaceRefs_of_fields hholder hstorage prop targets).imp
      (fun _ _ h => ⟨holder, schema, bytes, hholder, hstorage, h.1⟩) fun _ _ _ => trivial
  · unfold replaceRefs
    rw [Ends.bind_iff]
    apply (ends_fieldsOf id r).imp
    · rintro ⟨schema, bytes⟩ _ ⟨-, holder, hholder, hstorage⟩
      exact absurd ⟨holder, schema, bytes, hholder, hstorage⟩ hfields
    · exact fun _ _ _ => trivial

/-- How writing a text ends that is not empty: it is interned and exchanged for what was held. -/
theorem ends_writeProp_text (hi : r.IndexesLive) (id : ResourceId) (prop : Property)
    (hfull : text ≠ "") :
    Ends (writeProp id prop (.text text)) r
      (fun _ after => ∃ interned target holder schema bytes, r.Interned interned text target ∧
        interned.resource? id = some holder ∧ holder.storage = .fields schema bytes ∧
          after = interned.exchange id prop bytes [r.internedId text])
      (fun _ _ => True) := by
  unfold writeProp
  rw [Ends.bind_iff]
  apply (ends_liftSchema _ r).imp
  · rintro _ after ⟨rfl, -⟩
    rw [Ends.bind_iff]
    apply (ends_checkTargets prop (.text text) after).imp
    · rintro _ r ⟨rfl, -⟩
      rw [Ends.bind_iff]
      apply (ends_createString_interned hi hfull).imp
      · rintro _ interned ⟨rfl, target, hinterned⟩
        apply (ends_replaceRefs_exchange id prop _ interned).imp
        · rintro _ after ⟨holder, schema, bytes, hholder, hstorage, hafter⟩
          exact ⟨interned, target, holder, schema, bytes, hinterned, hholder, hstorage, hafter⟩
        · exact fun _ _ h => h
      · exact fun _ _ h => h.elim
    · exact fun _ _ _ => trivial
  · exact fun _ _ _ => trivial

/-- The number of an interned text is not zero and was given out, and what has it is a text. -/
theorem Interned.numbered {interned : Registry} {target : Resource}
    (h : r.Interned interned text target) (hw : r.WellFormed) (hl : interned.supply.Lasts) :
    r.internedId text ≠ 0 ∧ (r.internedId text).toNat ≤ interned.supply.issued ∧
      ∀ res, interned.resource? (r.internedId text) = some res →
        ∃ s frame, res.mould = ⟨stringType, some (.text s), frame⟩ := by
  have hw' : interned.WellFormed := h.interns.neutral.changes.wellFormed hw hl
  obtain ⟨hne, hissued⟩ := hw'.numbered h.found
  refine ⟨hne, hissued, fun res hres => ?_⟩
  rw [h.found] at hres
  cases hres
  exact ⟨text, _, h.mould⟩

end Registry

end Framecast
