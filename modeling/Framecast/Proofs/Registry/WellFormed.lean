import Framecast.Proofs.Registry.Edit
import Framecast.Proofs.Registry.Numbering

/-!
# Well-formed registries

A live resource is entered under its own number, which was given out before, and
its storage fits its layout. Elementary changes keep this as long as numbers last.
They also keep what a resource is: while it lives, its type, its name and its
layout stay, and it is only ever sent over more links.
-/

namespace Framecast

/-- Fewer numbers were given out than a word can tell apart. -/
def Supply.Lasts (s : Supply) : Prop := s.issued < 2 ^ 32 - 1

instance (s : Supply) : Decidable s.Lasts := inferInstanceAs (Decidable (s.issued < 2 ^ 32 - 1))

theorem Supply.Lasts.mono {s s' : Supply} (h : s'.Lasts) (hle : s.issued ≤ s'.issued) :
    s.Lasts := Nat.lt_of_le_of_lt hle h

/-- The number given out next, while numbers last. -/
theorem Supply.toNat_nextId {s : Supply} (h : s.Lasts) : s.nextId.toNat = s.issued + 1 := by
  unfold Supply.Lasts at h
  unfold Supply.nextId
  rw [UInt32.toNat_ofNat']
  omega

theorem Supply.Lasts.of_draw {s : Supply} (h : s.draw.Lasts) : s.Lasts :=
  h.mono (Nat.le_succ _)

/-- What a resource is made of stays, but for the bytes of an instance. -/
def Storage.Evolves (s s' : Storage) : Prop :=
  match s with
  | .payload p => s' = .payload p
  | .fields schema bytes => ∃ bytes', s' = .fields schema bytes' ∧ bytes'.length = bytes.length

namespace Storage.Evolves

variable {s s' s'' : Storage}

protected theorem refl (s : Storage) : s.Evolves s := by
  cases s with
  | payload p => rfl
  | fields schema bytes => exact ⟨bytes, rfl, rfl⟩

/-- Two changes are a change. -/
protected theorem trans (h : s.Evolves s') (h' : s'.Evolves s'') : s.Evolves s'' := by
  cases s with
  | payload p =>
    cases h
    exact h'
  | fields schema bytes =>
    obtain ⟨bytes', rfl, hlength⟩ := h
    obtain ⟨bytes'', hs, hlength'⟩ := h'
    exact ⟨bytes'', hs, hlength'.trans hlength⟩

/-- Storage that fits its layout still does. -/
theorem isSound (h : s.Evolves s') (hs : s.IsSound) : s'.IsSound := by
  cases s with
  | payload p =>
    cases h
    exact hs
  | fields schema bytes =>
    obtain ⟨bytes', rfl, hlength⟩ := h
    exact ⟨hs.1, hlength.trans hs.2⟩

end Storage.Evolves

/-- What a resource is stays while it lives. -/
structure Resource.Evolves (res res' : Resource) : Prop where
  /-- Its number stays. -/
  id : res'.id = res.id
  /-- Its type stays. -/
  type : res'.type = res.type
  /-- Its name stays. -/
  name : res'.name = res.name
  /-- Its payload stays, or its layout. -/
  storage : res.storage.Evolves res'.storage
  /-- It stays bound to its links. -/
  bindings : res.bindings <+: res'.bindings
  /-- Its key stays. -/
  key : res'.cacheKey? = res.cacheKey?

namespace Resource.Evolves

variable {res res' res'' : Resource}

protected theorem refl (res : Resource) : res.Evolves res :=
  ⟨rfl, rfl, rfl, .refl _, List.prefix_refl _, rfl⟩

protected theorem trans (h : res.Evolves res') (h' : res'.Evolves res'') : res.Evolves res'' :=
  ⟨h'.id.trans h.id, h'.type.trans h.type, h'.name.trans h.name, h.storage.trans h'.storage,
    h.bindings.trans h'.bindings, h'.key.trans h.key⟩

/-- A resource with the same body is the same in all that matters here. -/
theorem of_body (h : res'.body = res.body) : res.Evolves res' := by
  cases res
  cases res'
  simp only [Resource.body, Resource.mk.injEq] at h
  obtain ⟨rfl, rfl, rfl, -, rfl, rfl, -, rfl, -, -⟩ := h
  exact ⟨rfl, rfl, rfl, .refl _, List.prefix_refl _, rfl⟩

theorem counted (res : Resource) (refCount : Nat) : res.Evolves { res with refCount } :=
  ⟨rfl, rfl, rfl, .refl _, List.prefix_refl _, rfl⟩

theorem bound (res : Resource) (b : Binding) (load : LoadState) :
    res.Evolves { res with bindings := res.bindings ++ [b], load } :=
  ⟨rfl, rfl, rfl, .refl _, List.prefix_append _ _, rfl⟩

/-- The bytes of a property may be replaced by as many others. -/
theorem stored {schema : Schema} {bytes part : Bytes} {prop : Property}
    (hsound : res.storage.IsSound) (hstorage : res.storage = .fields schema bytes)
    (hprop : prop ∈ schema.layout.props) (hpart : part.length = (prop.slice bytes).length) :
    res.Evolves { res with storage := .fields schema (prop.splice bytes part) } := by
  rw [hstorage] at hsound
  have hlength := hsound.1.length_splice hprop hsound.2
    (hpart.trans (hsound.1.length_slice hprop hsound.2))
  refine ⟨rfl, rfl, rfl, ?_, List.prefix_refl _, rfl⟩
  rw [hstorage]
  exact ⟨_, rfl, hlength.trans hsound.2.symm⟩

/-- An instance keeps the type of its schema. -/
theorem isNamed (h : res.Evolves res') (hn : res.storage.IsNamed res.type) :
    res'.storage.IsNamed res'.type := by
  intro schema bytes' hs'
  have hstorage := h.storage
  rw [h.type]
  cases hs : res.storage with
  | payload p =>
    rw [hs] at hstorage
    rw [show res'.storage = .payload p from hstorage] at hs'
    cases hs'
  | fields schema' bytes =>
    rw [hs] at hstorage
    obtain ⟨_, hkept, -⟩ := hstorage
    rw [hkept] at hs'
    cases hs'
    exact hn _ bytes hs

theorem isBoundTo (h : res.Evolves res') {k : Nat} (hk : res.IsBoundTo k) : res'.IsBoundTo k := by
  obtain ⟨b, hb, rfl⟩ := hk
  exact ⟨b, h.bindings.subset hb, rfl⟩

end Resource.Evolves

/-- What holds of every registry that was only worked on by its operations. -/
structure Registry.WellFormed (r : Registry) : Prop where
  /-- A resource is entered under its own number. -/
  keyed : ∀ {id res}, r.resource? id = some res → res.id = id
  /-- Numbers of live resources were given out, and zero never is. -/
  numbered : ∀ {id res}, r.resource? id = some res → id ≠ 0 ∧ id.toNat ≤ r.supply.issued
  /-- Storage fits its layout. -/
  sound : ∀ {id res}, r.resource? id = some res → res.storage.IsSound
  /-- An instance has the type of its schema. -/
  named : ∀ {id res}, r.resource? id = some res → res.storage.IsNamed res.type

namespace Registry

variable {r : Registry} {id x : ResourceId} {res : Resource}

theorem WellFormed.isKeyed (h : r.WellFormed) : r.IsKeyed := fun _ _ => h.keyed

/-- The next number names nothing that is live. -/
theorem WellFormed.resource?_nextId (h : r.WellFormed) (hl : r.supply.Lasts) :
    r.resource? r.supply.nextId = none := by
  cases hx : r.resource? r.supply.nextId with
  | none => rfl
  | some res =>
    have hle := (h.numbered hx).2
    rw [Supply.toNat_nextId hl] at hle
    omega

/-- The next number is none that was given out before. -/
theorem ne_nextId (hid : id.toNat ≤ r.supply.issued) (hl : r.supply.Lasts) :
    id ≠ r.supply.nextId := by
  rintro rfl
  rw [Supply.toNat_nextId hl] at hid
  omega

/-- The next number is not zero. -/
theorem nextId_ne_zero (hl : r.supply.Lasts) : r.supply.nextId ≠ 0 := by
  intro h
  have hn := Supply.toNat_nextId hl
  rw [h] at hn
  simp at hn

/-- The resource that was entered last. -/
theorem resource?_insert (r : Registry) (type : String) (storage : Storage) (options : Options)
    (x : ResourceId) :
    (r.insert type storage options).2.resource? x =
      if x = r.supply.nextId then
        some ⟨r.supply.nextId, type, options.name?.getD (defaultName type r.supply.nextId), 0,
          storage, options.cacheKey?, options.hook?, [], .pending 0, []⟩
      else r.resource? x := getElem?_insert _ _ _ _

/-- Writing bytes replaces the bytes of one property of one instance. -/
theorem resource?_storeBytes {schema : Schema} {bytes : Bytes} (h : r.resource? id = some res)
    (hs : res.storage = .fields schema bytes) (prop : Property) (part : Bytes) (x : ResourceId) :
    (r.storeBytes id prop part).resource? x =
      if x = id then some { res with storage := .fields schema (prop.splice bytes part) }
      else r.resource? x := by
  unfold storeBytes
  rw [resource?_modifyResource, h, Option.map_some, hs]

end Registry

/-- A new resource that holds nothing and was sent nowhere. -/
structure Resource.IsNew (res : Resource) : Prop where
  /-- Nothing holds it. -/
  refCount : res.refCount = 0
  /-- Its storage fits its layout. -/
  sound : res.storage.IsSound
  /-- It holds nothing. -/
  blank : res.storage.heldIds = []
  /-- It was sent nowhere. -/
  unsent : res.bindings = []
  /-- It has the type of its schema. -/
  named : res.storage.IsNamed res.type

/-- Storage of which the bytes of one property were replaced by bytes that a registry admits. -/
def Registry.Rewrites (r : Registry) (s s' : Storage) : Prop :=
  ∃ schema bytes prop part, s = .fields schema bytes ∧ prop ∈ schema.layout.props ∧
    part.length = prop.length ∧ r.Admits prop part ∧
    s' = .fields schema (prop.splice bytes part)

namespace Edit

variable {strict : Prop} {writer : ResourceId} {b b' : Book}

/-- Numbers only go up. -/
theorem issued_le (h : Edit strict writer b b') :
    b.registry.supply.issued ≤ b'.registry.supply.issued := by
  cases h with
  | quiet h => exact h.issued
  | enter => exact Nat.le_succ _
  | retain => simp
  | release => simp
  | drop => exact Nat.le_refl _
  | store => simp
  | ship => exact Nat.le_refl _
  | remove => simp

/-- How a resource that is live after an elementary change came to be what it is. -/
inductive Descent (writer : ResourceId) (r r' : Registry) (x : ResourceId) (res' : Resource) : Prop
  /-- It was there and is the same. -/
  | kept {res : Resource} (h : r.resource? x = some res) (hid : res'.id = res.id)
      (htype : res'.type = res.type) (hname : res'.name = res.name)
      (hstorage : res'.storage = res.storage) (hbindings : res'.bindings = res.bindings)
      (hkey : res'.cacheKey? = res.cacheKey?)
  /-- It has just been entered. -/
  | entered (hx : x = r.supply.nextId) (hsupply : r'.supply = r.supply.draw) (hid : res'.id = x)
      (hnew : res'.IsNew)
  /-- The bytes of one of its properties were replaced. -/
  | stored {res : Resource} {schema : Schema} {bytes part : Bytes} {prop : Property}
      (hx : x = writer) (h : r.resource? x = some res) (hstorage : res.storage = .fields schema bytes)
      (hprop : prop ∈ schema.layout.props) (hpart : part.length = (prop.slice bytes).length)
      (hadmits : r.Admits prop part)
      (hres' : res' = { res with storage := .fields schema (prop.splice bytes part) })
  /-- It was sent over one more link. -/
  | shipped {res : Resource} {k : Nat} {link : Link} {load : LoadState}
      (h : r.resource? x = some res) (hlink : r.links[k]? = some link) (hother : x ≠ writer)
      (hnew : ¬res.IsBoundTo k) (hbuffers : r.BuffersSent res.storage k)
      (hres' : res' =
        { res with bindings := res.bindings ++ [(link.ship k res r.tick).1], load })

/-- Every live resource has its descent. -/
theorem descent (h : Edit strict writer b b') {x : ResourceId} {res' : Resource}
    (hx : b'.registry.resource? x = some res') :
    Descent writer b.registry b'.registry x res' := by
  have hsame {r r' : Registry} (hx : r.resource? x = some res') : Descent writer r r' x res' :=
    .kept hx rfl rfl rfl rfl rfl rfl
  have hcounted {r r' : Registry} {id : ResourceId} {res : Resource} {f : Resource → Resource}
      (h : r.resource? id = some res) (hf : ∃ count, f res = { res with refCount := count })
      (hx : (r.modifyResource id f).resource? x = some res') : Descent writer r r' x res' := by
    rw [Registry.resource?_modifyResource] at hx
    split at hx
    · rename_i hid
      obtain ⟨count, hf⟩ := hf
      have hres : r.resource? x = some res := hid ▸ h
      rw [h, Option.map_some, hf] at hx
      cases hx
      exact .kept hres rfl rfl rfl rfl rfl rfl
    · exact hsame hx
  cases h with
  | quiet h =>
    have hbody := h.resources x
    rw [hx, Option.map_some] at hbody
    obtain ⟨res, hres, heq⟩ := Option.map_eq_some_iff.mp hbody.symm
    have hevolves := Resource.Evolves.of_body heq.symm
    exact .kept hres hevolves.id hevolves.type hevolves.name (Resource.storage_of_body heq).symm
      (Resource.bindings_of_body heq).symm hevolves.key
  | enter type options hsound hblank hnamed =>
    rw [Registry.resource?_insert] at hx
    split at hx
    · rename_i hid
      cases hx
      exact .entered hid rfl hid.symm ⟨rfl, hsound, hblank, rfl, hnamed⟩
    · exact hsame hx
  | retain h => exact hcounted h ⟨_, rfl⟩ hx
  | release h => exact hcounted h ⟨_, rfl⟩ hx
  | drop => exact hsame hx
  | store h hstorage hprop hpart _ hadmits =>
    rw [Registry.resource?_storeBytes h hstorage] at hx
    split at hx
    · rename_i hid
      cases hx
      exact .stored hid (hid ▸ h) hstorage hprop hpart hadmits rfl
    · exact hsame hx
  | @ship r _ _ id res k link load h hlink hother hnew hbuffers =>
    have hlookup := (Registry.getElem?_insert r.resources id x _).symm.trans hx
    split at hlookup
    · rename_i hid
      cases hlookup
      exact .shipped (hid ▸ h) hlink (hid ▸ hother) hnew hbuffers rfl
    · exact hsame hlookup
  | remove h _ =>
    rw [Registry.resource?_remove] at hx
    split at hx
    · cases hx
    · exact hsame hx

/-- Where a live resource comes from: it was there before, or it has just been entered. -/
theorem origin (h : Edit strict writer b b') (hw : b.registry.WellFormed) {x : ResourceId}
    {res' : Resource} (hx : b'.registry.resource? x = some res') :
    (∃ res, b.registry.resource? x = some res ∧ res.Evolves res' ∧
        (res'.storage = res.storage ∨
          x = writer ∧ b.registry.Rewrites res.storage res'.storage)) ∨
      (x = b.registry.supply.nextId ∧ b'.registry.supply = b.registry.supply.draw ∧
        res'.id = x ∧ res'.IsNew) := by
  cases h.descent hx with
  | @kept res hres hid htype hname hstorage hbindings hkey =>
    have hevolves : res.Evolves res' :=
      ⟨hid, htype, hname, hstorage ▸ .refl _, hbindings ▸ List.prefix_refl _, hkey⟩
    exact .inl ⟨res, hres, hevolves, .inl hstorage⟩
  | entered hx hsupply hid hnew => exact .inr ⟨hx, hsupply, hid, hnew⟩
  | @stored res schema bytes part prop hwriter hres hstorage hprop hpart hadmits hres' =>
    subst hres'
    have hsound := hw.sound hres
    have hevolves := Resource.Evolves.stored hsound hstorage hprop hpart
    rw [hstorage] at hsound
    exact .inl ⟨res, hres, hevolves, .inr ⟨hwriter, schema, bytes, prop, part, hstorage, hprop,
      hpart.trans (hsound.1.length_slice hprop hsound.2), hadmits, rfl⟩⟩
  | @shipped res _ _ _ hres _ _ _ _ hres' =>
    subst hres'
    exact .inl ⟨res, hres, .bound res _ _, .inl rfl⟩

/-- A live resource whose number was given out before was there before. -/
theorem origin_of_issued (h : Edit strict writer b b') (hw : b.registry.WellFormed)
    (hl : b'.registry.supply.Lasts) {x : ResourceId} (hx : x.toNat ≤ b.registry.supply.issued)
    {res' : Resource} (hres' : b'.registry.resource? x = some res') :
    ∃ res, b.registry.resource? x = some res ∧ res.Evolves res' := by
  rcases h.origin hw hres' with ⟨res, hres, hev, -⟩ | ⟨rfl, hsupply, -, -⟩
  · exact ⟨res, hres, hev⟩
  · rw [hsupply] at hl
    exact absurd rfl (Registry.ne_nextId hx hl.of_draw)

/-- A well-formed registry stays well formed while numbers last. -/
theorem wellFormed (h : Edit strict writer b b') (hw : b.registry.WellFormed)
    (hl : b'.registry.supply.Lasts) : b'.registry.WellFormed := by
  have hle := h.issued_le
  constructor
  · intro x res' hx
    rcases h.origin hw hx with ⟨res, hres, hev, -⟩ | ⟨-, -, hid, -⟩
    · exact hev.id.trans (hw.keyed hres)
    · exact hid
  · intro x res' hx
    rcases h.origin hw hx with ⟨res, hres, -, -⟩ | ⟨rfl, hsupply, -, -⟩
    · exact ⟨(hw.numbered hres).1, (hw.numbered hres).2.trans hle⟩
    · rw [hsupply] at hl ⊢
      exact ⟨Registry.nextId_ne_zero hl.of_draw, Nat.le_of_eq (Supply.toNat_nextId hl.of_draw)⟩
  · intro x res' hx
    rcases h.origin hw hx with ⟨res, hres, hev, -⟩ | ⟨-, -, -, hnew⟩
    · exact hev.storage.isSound (hw.sound hres)
    · exact hnew.sound
  · intro x res' hx
    rcases h.origin hw hx with ⟨res, hres, hev, -⟩ | ⟨-, -, -, hnew⟩
    · exact hev.isNamed (hw.named hres)
    · exact hnew.named

end Edit

namespace Edits

variable {strict : Prop} {writer : ResourceId} {b b' : Book}

/-- What well-formed registries keep in every elementary change, they keep in every chain. -/
theorem keep {P : Book → Prop} (h : Edits strict writer b b') (hw : b.registry.WellFormed)
    (hl : b'.registry.supply.Lasts)
    (hstep : ∀ b₁ b₂, b₁.registry.WellFormed → b₂.registry.WellFormed →
      b₂.registry.supply.Lasts → Edit strict writer b₁ b₂ → P b₁ → P b₂)
    (hP : P b) : b'.registry.WellFormed ∧ P b' := by
  induction h with
  | refl => exact ⟨hw, hP⟩
  | tail _ hlast ih =>
    obtain ⟨hw₁, hP₁⟩ := ih (hl.mono hlast.issued_le)
    have hw₂ := hlast.wellFormed hw₁ hl
    exact ⟨hw₂, hstep _ _ hw₁ hw₂ hl hlast hP₁⟩

end Edits

/-- What well-formed registries keep in every elementary change, whoever writes, they keep in every
chain. -/
theorem Dealings.keep {b b' : Book} {P : Book → Prop} (h : Dealings b b')
    (hw : b.registry.WellFormed) (hl : b'.registry.supply.Lasts)
    (hstep : ∀ strict writer b₁ b₂, b₁.registry.WellFormed → b₂.registry.supply.Lasts →
      Edit strict writer b₁ b₂ → P b₁ → P b₂)
    (hP : P b) : b'.registry.WellFormed ∧ P b' := by
  induction h with
  | refl => exact ⟨hw, hP⟩
  | tail _ hlast ih =>
    obtain ⟨strict, writer, hlast⟩ := hlast
    obtain ⟨hw₁, hP₁⟩ := ih (hl.mono hlast.issued_le)
    exact ⟨hlast.wellFormed hw₁ hl, hstep strict writer _ _ hw₁ hl hlast hP₁⟩

namespace Registry.Changes

variable {r after : Registry}

/-- What well-formed registries keep in every elementary change, they keep in every chain. -/
theorem keep {P : Registry → Prop} (h : r.Changes after) (hw : r.WellFormed)
    (hl : after.supply.Lasts)
    (hstep : ∀ strict writer b₁ b₂, b₁.registry.WellFormed → b₂.registry.WellFormed →
      b₂.registry.supply.Lasts → Edit strict writer b₁ b₂ → P b₁.registry → P b₂.registry)
    (hP : P r) : after.WellFormed ∧ P after := by
  induction h with
  | refl => exact ⟨hw, hP⟩
  | tail _ hlast ih =>
    obtain ⟨_, _, _, _, _, _, hedit⟩ := hlast
    obtain ⟨hw₁, hP₁⟩ := ih (hl.mono hedit.issued_le)
    have hw₂ := hedit.wellFormed hw₁ hl
    exact ⟨hw₂, hstep _ _ _ _ hw₁ hw₂ hl hedit hP₁⟩

theorem wellFormed (h : r.Changes after) (hw : r.WellFormed) (hl : after.supply.Lasts) :
    after.WellFormed :=
  (h.keep (P := fun _ => True) hw hl (fun _ _ _ _ _ _ _ _ _ => trivial) trivial).1

/-- A number that was given out before is not given out again: what is live under it was so. -/
theorem origin (h : r.Changes after) (hw : r.WellFormed) (hl : after.supply.Lasts)
    {x : ResourceId} (hx : x.toNat ≤ r.supply.issued) {res' : Resource}
    (hres' : after.resource? x = some res') : ∃ res, r.resource? x = some res ∧ res.Evolves res' := by
  have hkept := h.keep (P := fun s => r.supply.issued ≤ s.supply.issued ∧
    ∀ res', s.resource? x = some res' → ∃ res, r.resource? x = some res ∧ res.Evolves res') hw hl
    ?_ ⟨Nat.le_refl _, fun res hres => ⟨res, hres, .refl res⟩⟩
  · exact hkept.2.2 res' hres'
  · rintro strict writer b₁ b₂ hw₁ - hl₂ hstep ⟨hle, hback⟩
    refine ⟨hle.trans hstep.issued_le, fun res₂ hres₂ => ?_⟩
    obtain ⟨res₁, hres₁, hev⟩ := hstep.origin_of_issued hw₁ hl₂ (hx.trans hle) hres₂
    obtain ⟨res, hres, hev'⟩ := hback res₁ hres₁
    exact ⟨res, hres, hev'.trans hev⟩

end Registry.Changes

end Framecast
