import Framecast.Proofs.Operation.Instance

/-!
# Which bytes an operation alters

Whatever an operation does, a resource that is there at its end was there before and
has come by its storage in a known way, or it has a new number and is a payload. Most
operations alter no storage at all. A write alters the bytes of one property of one
instance, to bytes that depend on the value and on what is written over, and not on
the order in which references are taken and given back around it. A write that fails
alters nothing.
-/

namespace Framecast

/-- The storage of resource `x` after the bytes of a property of instance `id` were changed. -/
def Storage.Spliced (id : ResourceId) (prop : Property) (f : Bytes → Bytes) (x : ResourceId)
    (s s' : Storage) : Prop :=
  if x = id then
    ∃ schema bytes, s = .fields schema bytes ∧
      s' = .fields schema (prop.splice bytes (f (prop.slice bytes)))
  else s' = s

namespace Registry

/-- A registry that another has become. What is live in it was live before, and its storage has
changed in a certain way, or it has a number that was not given out before and is a payload. -/
structure Alters (r after : Registry) (how : ResourceId → Storage → Storage → Prop) : Prop where
  /-- Numbers only go up. -/
  issued : r.supply.issued ≤ after.supply.issued
  /-- Where a live resource and its storage come from. -/
  origin : ∀ {x res'}, after.resource? x = some res' →
    (∃ res, r.resource? x = some res ∧ how x res.storage res'.storage) ∨
      r.supply.issued < x.toNat ∧ ∃ p, res'.storage = .payload p

/-- A registry in which no storage has changed. -/
def SparesBytes (r after : Registry) : Prop := r.Alters after fun _ s s' => s' = s

/-- The bytes that a property is given when a value is written over some bytes. -/
def encoding (r : Registry) (prop : Property) (value : Value) (part : Bytes) : Bytes :=
  match value with
  | .text s => part.setWords (padded prop.count [r.internedId s])
  | .buffer b =>
    part.setWords
      [UInt32.ofNat (r.supply.pool.length b), if b.isShared then 1 else 0, r.supply.nextId]
  | .ref target =>
    if prop.backRef then part.setWord 0 (target.getD 0)
    else part.setWords (padded prop.count [target.getD 0])
  | .refs slots => part.setWords (padded prop.count (slots.map (·.getD 0)))
  | plain => part.setWords ((Property.plainWords? plain).getD [])

variable {r s after : Registry} {id : ResourceId} {prop : Property} {f : Bytes → Bytes}
  {how how' : ResourceId → Storage → Storage → Prop}

namespace Alters

theorem imp (h : r.Alters after how) (himp : ∀ x s s', how x s s' → how' x s s') :
    r.Alters after how' := by
  refine ⟨h.issued, fun hx => (h.origin hx).imp ?_ id⟩
  rintro ⟨res, hres, hhow⟩
  exact ⟨res, hres, himp _ _ _ hhow⟩

/-- One change after another, if the second leaves payloads what they are. -/
theorem trans (h : r.Alters s how) (h' : s.Alters after how')
    (hpayload : ∀ x p s', how' x (.payload p) s' → ∃ p', s' = .payload p') :
    r.Alters after fun x => Relation.Comp (how x) (how' x) := by
  refine ⟨h.issued.trans h'.issued, fun {x res'} hx => ?_⟩
  rcases h'.origin hx with ⟨mid, hmid, hhow'⟩ | ⟨hnew, hp⟩
  · rcases h.origin hmid with ⟨res, hres, hhow⟩ | ⟨hnew, p, hp⟩
    · exact .inl ⟨res, hres, mid.storage, hhow, hhow'⟩
    · rw [hp] at hhow'
      exact .inr ⟨hnew, hpayload x p _ hhow'⟩
  · exact .inr ⟨Nat.lt_of_le_of_lt h.issued hnew, hp⟩

theorem trans_sparesBytes (h : r.Alters s how) (h' : s.SparesBytes after) : r.Alters after how := by
  refine (h.trans h' fun _ p _ hs' => ⟨p, hs'⟩).imp ?_
  rintro x s₁ s₂ ⟨mid, hhow, rfl⟩
  exact hhow

end Alters

namespace SparesBytes

protected theorem refl (r : Registry) : r.SparesBytes r :=
  ⟨Nat.le_refl _, fun hx => .inl ⟨_, hx, rfl⟩⟩

protected theorem trans (h : r.SparesBytes s) (h' : s.SparesBytes after) : r.SparesBytes after :=
  Alters.trans_sparesBytes h h'

/-- What changes no storage may come first. -/
theorem trans_alters (h : r.SparesBytes s) (h' : s.Alters after how)
    (hpayload : ∀ x p s', how x (.payload p) s' → ∃ p', s' = .payload p') :
    r.Alters after how := by
  refine (Alters.trans h h' hpayload).imp ?_
  rintro x s₁ s₂ ⟨mid, rfl, hhow⟩
  exact hhow

theorem of_lookup (hissued : r.supply.issued ≤ after.supply.issued)
    (h : ∀ {x res'}, after.resource? x = some res' →
      ∃ res, r.resource? x = some res ∧ res'.storage = res.storage) : r.SparesBytes after :=
  ⟨hissued, fun hx => .inl (h hx)⟩

/-- A resource may change in everything but its storage. -/
theorem modifyResource (r : Registry) (id : ResourceId) {f : Resource → Resource}
    (hf : ∀ res, (f res).storage = res.storage) : r.SparesBytes (r.modifyResource id f) := by
  refine of_lookup (by simp) fun {x res'} hx => ?_
  rw [resource?_modifyResource] at hx
  split at hx
  · rename_i hid
    obtain ⟨res, hres, rfl⟩ := Option.map_eq_some_iff.mp hx
    exact ⟨res, hid ▸ hres, hf res⟩
  · exact ⟨res', hx, rfl⟩

/-- Resources with the same bodies have the same storage. -/
theorem of_body (hissued : r.supply.issued ≤ after.supply.issued)
    (h : ∀ id, (after.resource? id).map Resource.body = (r.resource? id).map Resource.body) :
    r.SparesBytes after := by
  refine of_lookup hissued fun {x res'} hx => ?_
  have hbody := h x
  rw [hx, Option.map_some] at hbody
  obtain ⟨res, hres, heq⟩ := Option.map_eq_some_iff.mp hbody.symm
  exact ⟨res, hres, (Resource.storage_of_body heq).symm⟩

theorem of_quiet (h : r.Quiet after) : r.SparesBytes after := of_body h.issued h.resources

/-- A removal changes no other storage. -/
theorem remove (res : Resource) (r : Registry) : r.SparesBytes (r.remove res) := by
  refine of_lookup (by simp) fun {x res'} hx => ?_
  rw [resource?_remove] at hx
  split at hx
  · cases hx
  · exact ⟨res', hx, rfl⟩

/-- Dropping held references changes counts only. -/
theorem foldl_dropHeld (held : List HeldRef) (state : Registry × List ResourceId) :
    state.1.SparesBytes (held.foldl dropHeld state).1 := by
  induction held generalizing state with
  | nil => exact .refl _
  | cons one rest ih =>
    refine SparesBytes.trans ?_ (ih (dropHeld state one))
    unfold dropHeld
    split
    · dsimp only
      split <;> exact modifyResource _ _ fun _ => rfl
    · exact .refl _

/-- A cascade changes no storage of what survives it. -/
theorem cascade (n : Nat) (worklist : List ResourceId) (r : Registry) :
    r.SparesBytes (cascade n worklist r) := by
  induction n generalizing worklist r with
  | zero => exact .refl r
  | succ n ih =>
    unfold Registry.cascade
    split
    · exact .refl r
    · split
      · exact .refl r
      · rename_i res _
        exact (remove res r).trans ((foldl_dropHeld _ (_, _)).trans (ih _ _))

/-- A disposal changes no storage of what survives it. -/
theorem ends_dispose (id : ResourceId) (r : Registry) :
    Ends (dispose id) r (fun _ after => r.SparesBytes after)
      (fun _ after => r.SparesBytes after) := by
  have hreleased : r.SparesBytes (r.modifyResource id Resource.released) :=
    modifyResource r id fun _ => rfl
  apply (Registry.ends_dispose id r).imp
  · rintro _ after ⟨res, -, ⟨-, -, rfl⟩ | ⟨-, -, rfl⟩⟩
    · exact hreleased
    · exact hreleased.trans (cascade _ _ _)
  · rintro _ after ⟨-, -, rfl⟩
    exact .refl _

/-- Releasing references changes no storage of what survives it. -/
theorem foldl_release (ids : List ResourceId) (r : Registry) :
    r.SparesBytes (ids.foldl release r) := by
  induction ids generalizing r with
  | nil => exact .refl r
  | cons id rest ih =>
    refine SparesBytes.trans ?_ (ih (r.release id))
    have h := ends_dispose id r
    unfold release
    split
    · exact h.of_ok ‹_›
    · exact h.of_error ‹_›

/-- Taking references changes counts only. -/
theorem ends_retain (id : ResourceId) (r : Registry) :
    Ends (retain id) r (fun _ after => r.SparesBytes after)
      (fun _ after => r.SparesBytes after) := by
  apply (Registry.ends_retain id r).imp
  · rintro _ after ⟨_, -, -, rfl⟩
    exact modifyResource r id fun _ => rfl
  · rintro _ after ⟨-, -, rfl⟩
    exact .refl _

/-- A payload that is entered and sent has a new number. -/
theorem of_spawns {type : String} {p : Payload} {options : Options} {positions : List Nat}
    (h : r.Spawns after type p options positions) (hl : r.supply.Lasts) : r.SparesBytes after := by
  refine ⟨?_, fun {x res'} hx => ?_⟩
  · rw [h.supply]
    exact Nat.le_succ _
  · by_cases hnew : x = r.supply.nextId
    · obtain ⟨bindings, load, hfound, -⟩ := h.found
      rw [hnew, hfound] at hx
      cases hx
      rw [hnew, Supply.toNat_nextId hl]
      exact .inr ⟨Nat.lt_succ_self _, p, rfl⟩
    · rw [h.others x hnew] at hx
      exact .inl ⟨res', hx, rfl⟩

/-- Interning a text changes no storage. -/
theorem of_interns {text : String} (h : r.Interns after text) (hl : r.supply.Lasts) :
    r.SparesBytes after := by
  rcases h with rfl | ⟨-, -, hspawns⟩
  · exact .refl _
  · exact of_spawns hspawns hl

end SparesBytes

/-- Where the bytes of a property change, payloads do not. -/
theorem payload_of_spliced (x : ResourceId) (p : Payload) (s' : Storage)
    (h : Storage.Spliced id prop f x (.payload p) s') : ∃ p', s' = .payload p' := by
  unfold Storage.Spliced at h
  split at h
  · obtain ⟨_, _, hs, -⟩ := h
    cases hs
  · exact ⟨p, h⟩

/-- Storing bytes of a property changes the bytes of that property. -/
theorem alters_storeBytes {res : Resource} {schema : Schema} {bytes : Bytes}
    (hres : r.resource? id = some res) (hstorage : res.storage = .fields schema bytes) :
    r.Alters (r.storeBytes id prop (f (prop.slice bytes))) (Storage.Spliced id prop f) := by
  refine ⟨by simp, fun {x res'} hx => .inl ?_⟩
  rw [resource?_storeBytes hres hstorage] at hx
  unfold Storage.Spliced
  split at hx
  · rename_i hid
    cases hx
    exact ⟨res, hid ▸ hres, by rw [if_pos hid]; exact ⟨schema, bytes, hstorage, rfl⟩⟩
  · rename_i hid
    exact ⟨res', hx, by rw [if_neg hid]⟩

/-- How changing the bytes of a property ends. -/
theorem ends_updateSlice_alters (id : ResourceId) (prop : Property) (f : Bytes → Bytes)
    (r : Registry) :
    Ends (updateSlice id prop f) r
      (fun _ after => r.Alters after (Storage.Spliced id prop f))
      (fun _ after => r.SparesBytes after) := by
  unfold updateSlice
  rw [Ends.bind_iff]
  apply (ends_fieldsOf id r).imp
  · rintro ⟨schema, bytes⟩ after ⟨rfl, res, hres, hstorage⟩
    exact alters_storeBytes hres hstorage
  · rintro _ after rfl
    exact .refl _

/-- How storing references in a property ends, as far as bytes go: its words are the references and
then zeros. -/
theorem ends_replaceRefs_alters (id : ResourceId) (prop : Property) (targets : List ResourceId)
    (r : Registry) :
    Ends (replaceRefs id prop targets) r
      (fun _ after => r.Alters after
        (Storage.Spliced id prop (·.setWords (padded prop.count targets))))
      (fun _ after => r.SparesBytes after) := by
  unfold replaceRefs
  rw [Ends.bind_iff]
  apply (ends_fieldsOf id r).imp
  · rintro found after ⟨rfl, -⟩
    dsimp only
    rw [Ends.bind_iff]
    have hretained : Ends ((targets.filter (· != 0)).forM fun target => discard (retain target))
        after (fun _ => after.SparesBytes) (fun _ => after.SparesBytes) := by
      refine Ends.forM (fun target _ s hs => ?_) (.refl after)
      rw [Ends.discard_iff]
      exact (SparesBytes.ends_retain target s).imp (fun _ _ h => hs.trans h) fun _ _ h => hs.trans h
    apply hretained.imp
    · intro _ retained hretained
      rw [Ends.bind_iff]
      apply (ends_updateSlice_alters id prop _ retained).imp
      · intro _ stored hstored
        exact (hretained.trans_alters hstored payload_of_spliced).trans_sparesBytes
          (.foldl_release _ stored)
      · exact fun _ _ h => hretained.trans h
    · exact fun _ _ h => h
  · rintro _ after rfl
    exact .refl _

/-- How setting a raw buffer ends, as far as bytes go. -/
theorem ends_writeBuffer_alters (hl : r.supply.Lasts) (id : ResourceId) (prop : Property)
    (buffer : RawBuffer) :
    Ends (writeBuffer id prop buffer) r
      (fun _ after => r.Alters after (Storage.Spliced id prop (r.encoding prop (.buffer buffer))))
      (fun _ after => r.SparesBytes after) := by
  unfold writeBuffer
  rw [Ends.bind_iff]
  apply (ends_fieldsOf id r).imp
  · rintro found after ⟨rfl, -⟩
    dsimp only
    split
    · exact .refl _
    · rw [Ends.bind_iff, Ends.get_iff]
      split
      · exact .refl _
      · rw [Ends.bind_iff]
        apply (ends_createBuffer buffer after).imp
        · rintro _ created ⟨rfl, hspawns⟩
          have hcreated := SparesBytes.of_spawns hspawns hl
          rw [Ends.bind_iff, Ends.discard_iff]
          apply (SparesBytes.ends_retain _ created).imp
          · intro _ retained hretained
            apply (ends_updateSlice_alters id prop _ retained).imp
            · exact fun _ stored hstored =>
                (hcreated.trans hretained).trans_alters hstored payload_of_spliced
            · exact fun _ _ h => (hcreated.trans hretained).trans h
          · exact fun _ _ h => hcreated.trans h
        · exact fun _ _ h => h.elim
  · rintro _ after rfl
    exact .refl _

/-- The bytes of an encoded plain value are its words. -/
theorem encodePlain_eq_encoding {value : Value} {part encoded : Bytes}
    (h : prop.encodePlain value part = .ok encoded) : encoded = r.encoding prop value part := by
  unfold Property.encodePlain at h
  obtain ⟨_, -, h⟩ := Layout.ok_of_bind h
  cases value with
  | bool | word | float | floats =>
    cases h
    rfl
  | text | buffer | ref | refs => cases h

/-- How encoding a plain value in place ends, as far as bytes go. -/
theorem ends_writePlain_alters (id : ResourceId) (prop : Property) (value : Value) (r : Registry) :
    Ends (do
        let (_, bytes) ← fieldsOf id
        let part ← liftSchema (prop.encodePlain value (prop.slice bytes))
        modify (·.storeBytes id prop part)) r
      (fun _ after => r.Alters after (Storage.Spliced id prop (r.encoding prop value)))
      (fun _ after => r.SparesBytes after) := by
  rw [Ends.bind_iff]
  apply (ends_fieldsOf id r).imp
  · rintro ⟨schema, bytes⟩ after ⟨rfl, res, hres, hstorage⟩
    rw [Ends.bind_iff]
    apply (ends_liftSchema _ after).imp
    · rintro part after ⟨rfl, hpart⟩
      rw [encodePlain_eq_encoding hpart]
      exact alters_storeBytes hres hstorage
    · rintro _ after rfl
      exact .refl _
  · rintro _ after rfl
    exact .refl _

/-- How writing a value ends, as far as bytes go: the property accepts the value and holds its
encoding, or nothing has changed. -/
theorem ends_writeProp_alters (hl : r.supply.Lasts) (id : ResourceId) (prop : Property)
    (value : Value) :
    Ends (writeProp id prop value) r
      (fun _ after => prop.validate value = .ok () ∧
        r.Alters after (Storage.Spliced id prop (r.encoding prop value)))
      (fun _ after => r.SparesBytes after) := by
  unfold writeProp
  rw [Ends.bind_iff]
  apply (ends_liftSchema _ r).imp
  · rintro _ after ⟨rfl, hvalid⟩
    rw [Ends.bind_iff]
    apply (ends_checkTargets prop value after).imp
    · rintro _ r ⟨rfl, -⟩
      have hvalued {m : RegistryM Unit}
          (h : Ends m r
            (fun _ after => r.Alters after (Storage.Spliced id prop (r.encoding prop value)))
            (fun _ after => r.SparesBytes after)) :
          Ends m r
            (fun _ after => prop.validate value = .ok () ∧
              r.Alters after (Storage.Spliced id prop (r.encoding prop value)))
            (fun _ after => r.SparesBytes after) := h.imp (fun _ _ h => ⟨hvalid, h⟩) fun _ _ h => h
      cases value with
      | text s =>
        apply hvalued
        rw [Ends.bind_iff]
        apply (ends_createString s r).imp
        · rintro _ interned ⟨rfl, hinterns⟩
          have hinterned := SparesBytes.of_interns hinterns hl
          apply (ends_replaceRefs_alters id prop _ interned).imp
          · exact fun _ _ h => hinterned.trans_alters h payload_of_spliced
          · exact fun _ _ h => hinterned.trans h
        · exact fun _ _ h => h.elim
      | buffer b => exact hvalued (ends_writeBuffer_alters hl id prop b)
      | ref target =>
        apply hvalued
        unfold encoding
        dsimp only
        split
        · exact ends_updateSlice_alters id prop _ r
        · exact ends_replaceRefs_alters id prop _ r
      | refs slots => exact hvalued (ends_replaceRefs_alters id prop _ r)
      | bool | word | float | floats => exact hvalued (ends_writePlain_alters id prop _ r)
    · rintro _ after rfl
      exact .refl _
  · rintro _ after rfl
    exact .refl _

/-- A registry in which a value was written to the property that an instance has under a name. -/
def Puts (r after : Registry) (id : ResourceId) (name : String) (value : Value) : Prop :=
  ∃ res schema bytes prop, r.resource? id = some res ∧ res.storage = .fields schema bytes ∧
    schema.layout.prop? name = some prop ∧ prop.validate value = .ok () ∧
    r.Alters after (Storage.Spliced id prop (r.encoding prop value))

/-- How a write ends, as far as bytes go. -/
theorem ends_put_alters (hl : r.supply.Lasts) {name : String} {value : Value} {m : RegistryM Unit}
    (hm : IsPut id name value m) :
    Ends m r (fun _ after => r.Puts after id name value) (fun _ after => r.SparesBytes after) :=
  hm.ends_of (fun _ => .refl _) fun res schema bytes prop hres hstorage hprop =>
    (ends_writeProp_alters hl id prop value).imp
      (fun _ _ h => ⟨res, schema, bytes, prop, hres, hstorage, hprop, h⟩) fun _ _ h => h

end Registry

end Framecast
