import Framecast.Proofs.Registry.Steady
import Framecast.Proofs.Run.Steps

/-!
# What properties hold is of their own sort

A reference is stored only if it leads to a resource of the type that its property
declares, and a raw buffer only as the number of one. What is held may go away, if the
host gives back more than it took, but its number is never given out again. So what
is held and leads anywhere leads to what the property asks for.
-/

namespace Framecast

/-- What some properties ask of the resources that they hold. It is there when they are put into the
property, and nothing that becomes of them later undoes it. -/
structure Demand where
  /-- The properties that ask it. -/
  Asked : Property → Prop
  /-- Whether a resource is what a property asks for. -/
  Met : Property → Resource → Prop
  /-- What is held in new bytes is asked for. -/
  admitted : ∀ {r : Registry} {prop part}, r.Admits prop part → Asked prop →
    ∀ w ∈ prop.heldIds part, ∃ target, r.resource? w = some target ∧ Met prop target
  /-- What was asked for once goes on being so. -/
  lasting : ∀ {prop} {target target' : Resource}, target.Evolves target' → Met prop target →
    Met prop target'

namespace Demand

/-- Owning references ask for the declared type. -/
def ofType : Demand where
  Asked prop := prop.isOwningRef = true
  Met prop target := prop.target? = some target.type
  admitted hadmits := hadmits.typed
  lasting hev hmet := by rw [hev.type, hmet]

end Demand

/-- What the asking properties in a storage hold has numbers that were given out, and leads to what is
asked for if it leads anywhere. -/
def Registry.Meets (r : Registry) (d : Demand) (storage : Storage) : Prop :=
  ∀ schema bytes, storage = .fields schema bytes → ∀ prop ∈ schema.layout.props,
    d.Asked prop → ∀ w ∈ prop.heldIds (prop.slice bytes),
      w.toNat ≤ r.supply.issued ∧ ∀ target, r.resource? w = some target → d.Met prop target

/-- What all instances hold leads to what is asked for. -/
def Registry.MeetsAll (r : Registry) (d : Demand) : Prop :=
  ∀ x res, r.resource? x = some res → r.Meets d res.storage

/-- The owning references in a storage have numbers that were given out, and lead to resources of
the declared type if they lead anywhere. -/
def Registry.TypesHeld (r : Registry) (storage : Storage) : Prop :=
  ∀ schema bytes, storage = .fields schema bytes → ∀ prop ∈ schema.layout.props,
    prop.isOwningRef = true → ∀ w ∈ prop.heldIds (prop.slice bytes),
      w.toNat ≤ r.supply.issued ∧
        ∀ target, r.resource? w = some target → prop.target? = some target.type

/-- The owning references of all instances have the declared type. -/
def Registry.IsTyped (r : Registry) : Prop :=
  ∀ x res, r.resource? x = some res → r.TypesHeld res.storage

namespace Registry

variable {r r' : Registry} {d : Demand}

/-- What is held stays what is asked for while resources stay what they are. -/
theorem Meets.mono {storage : Storage} (h : r.Meets d storage)
    (hissued : r.supply.issued ≤ r'.supply.issued)
    (hback : ∀ {w target'}, w.toNat ≤ r.supply.issued → r'.resource? w = some target' →
      ∃ target, r.resource? w = some target ∧ target.Evolves target') :
    r'.Meets d storage := by
  intro schema bytes hs prop hprop hasked w hw
  obtain ⟨hle, hmet⟩ := h schema bytes hs prop hprop hasked w hw
  refine ⟨hle.trans hissued, fun target' htarget' => ?_⟩
  obtain ⟨target, htarget, hev⟩ := hback hle htarget'
  exact d.lasting hev (hmet target htarget)

/-- What is written over one property is what it asks for. -/
theorem Meets.of_rewrites {s s' : Storage} (h : r.Meets d s) (hw : r.WellFormed)
    (hsound : s.IsSound) (hr : r.Rewrites s s') : r.Meets d s' := by
  obtain ⟨schema, bytes, written, part, rfl, hwritten, hpart, hadmits, rfl⟩ := hr
  rintro _ _ ⟨⟩ prop hprop hasked w hheld
  by_cases heq : written = prop
  · subst heq
    rw [hsound.1.slice_splice_self hwritten hsound.2 hpart] at hheld
    obtain ⟨target, htarget, hmet⟩ := d.admitted hadmits hasked w hheld
    refine ⟨(hw.numbered htarget).2, fun found hfound => ?_⟩
    rw [htarget] at hfound
    cases hfound
    exact hmet
  · rw [hsound.1.slice_splice_of_ne hwritten hprop heq hsound.2 hpart] at hheld
    exact h schema bytes rfl prop hprop hasked w hheld

/-- Where resources show no difference, the same is asked for and met. -/
theorem SameBodies.meetsAll (h : r.SameBodies r') (hd : r.MeetsAll d) : r'.MeetsAll d := by
  intro x res' hres'
  obtain ⟨res, hres, hbody⟩ := h.origin hres'
  rw [← Resource.storage_of_body hbody]
  refine (hd x res hres).mono (Nat.le_of_eq h.issued.symm) fun {w target'} _ htarget' => ?_
  obtain ⟨target, htarget, hbody⟩ := h.origin htarget'
  exact ⟨target, htarget, .of_body hbody.symm⟩

end Registry

/-- An elementary change leaves what is asked for met. -/
theorem Edit.meetsAll {strict : Prop} {writer : ResourceId} {b b' : Book} {d : Demand}
    (h : Edit strict writer b b') (hw : b.registry.WellFormed) (hl : b'.registry.supply.Lasts)
    (hd : b.registry.MeetsAll d) : b'.registry.MeetsAll d := by
  intro x res' hres'
  have hmono {storage : Storage} (hs : b.registry.Meets d storage) :
      b'.registry.Meets d storage :=
    hs.mono h.issued_le fun hissued htarget' => h.origin_of_issued hw hl hissued htarget'
  rcases h.origin hw hres' with ⟨res, hres, -, heq | ⟨-, hrewrites⟩⟩ | ⟨-, -, -, hnew⟩
  · rw [heq]
    exact hmono (hd x res hres)
  · exact hmono ((hd x res hres).of_rewrites hw (hw.sound hres) hrewrites)
  · -- what has just been entered holds nothing
    intro schema bytes hs prop hprop _ w hheld
    have hmem : w ∈ res'.storage.heldIds := by
      rw [hs]
      exact List.mem_flatMap.mpr ⟨prop, hprop, hheld⟩
    rw [hnew.blank] at hmem
    cases hmem

namespace Run

variable {config : Config} {supply : Supply} {past : List Moment} {b : Broadcast}

/-- Whatever was done, what properties hold is what they ask for if it leads anywhere. -/
theorem meetsAll (h : Run (.opened config supply) past b)
    (hc : ∀ m ∈ past, m.action.IsCompiled) (hl : b.registry.supply.Lasts) (d : Demand) :
    b.registry.MeetsAll d := by
  refine h.kept (P := fun b => b.registry.MeetsAll d) hc hl ?_ ?_
  · intro x res hres
    rw [Broadcast.resource?_opened] at hres
    cases hres
  · intro b action hw hone hl ih
    cases hinternal : action.isInternal with
    | false => exact (Broadcast.sameBodies_step hinternal).meetsAll ih
    | true =>
      exact ((Broadcast.changes_step hinternal hone hw hl).keep (P := (·.MeetsAll d)) hw hl
        (fun _ _ _ _ hw₁ _ hl₂ hedit hd => hedit.meetsAll hw₁ hl₂ hd) ih).2

theorem isTyped (h : Run (.opened config supply) past b)
    (hc : ∀ m ∈ past, m.action.IsCompiled) (hl : b.registry.supply.Lasts) : b.registry.IsTyped :=
  h.meetsAll hc hl .ofType

end Run

end Framecast
