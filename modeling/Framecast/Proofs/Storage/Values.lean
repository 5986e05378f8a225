import Mathlib.Data.List.Basic
import Framecast.Proofs.Storage.Holdings
import Framecast.Registry.Write

/-!
# Values and the bytes they become

Which kinds a value fits, and what a property holds once the words of new
references were written over its own bytes.
-/

namespace Framecast

namespace Property

variable {p : Property} {u : Unit}

/-- Only texts take texts. -/
theorem kind_of_validate_text {s : String} (h : p.validate (.text s) = .ok u) :
    p.kind = .string := by
  obtain ⟨_, hshape, -⟩ := Layout.ok_of_bind h
  unfold checkShape at hshape
  cases hk : p.kind <;> rw [hk] at hshape <;> first | rfl | cases hshape

/-- Only raw buffers take raw buffers. -/
theorem kind_of_validate_buffer {b : RawBuffer} (h : p.validate (.buffer b) = .ok u) :
    p.kind = .arrayBuffer := by
  obtain ⟨_, hshape, -⟩ := Layout.ok_of_bind h
  unfold checkShape at hshape
  cases hk : p.kind <;> rw [hk] at hshape <;> first | rfl | cases hshape

/-- Only single references take a single reference. -/
theorem kind_of_validate_ref {id : Option ResourceId} (h : p.validate (.ref id) = .ok u) :
    p.kind = .ref := by
  obtain ⟨_, hshape, -⟩ := Layout.ok_of_bind h
  unfold checkShape at hshape
  cases hk : p.kind <;> rw [hk] at hshape <;> first | rfl | cases hshape

/-- Only collections take several references, and not more than they have slots. -/
theorem kind_of_validate_refs {slots : List (Option ResourceId)}
    (h : p.validate (.refs slots) = .ok u) :
    (p.kind = .refArray ∨ p.kind = .refMap) ∧ slots.length ≤ p.count := by
  obtain ⟨_, hshape, -⟩ := Layout.ok_of_bind h
  unfold checkShape at hshape
  cases hk : p.kind <;> rw [hk] at hshape
  case refArray =>
    dsimp only at hshape
    split at hshape
    · cases hshape
    · exact ⟨.inl rfl, by omega⟩
  case refMap =>
    dsimp only at hshape
    split at hshape
    · cases hshape
    · exact ⟨.inr rfl, by omega⟩
  all_goals cases hshape

/-- A property that takes a single reference and is no back reference is owning. -/
theorem isOwningRef_of_validate_ref {id : Option ResourceId} (h : p.validate (.ref id) = .ok u)
    (hback : ¬p.backRef = true) : p.isOwningRef = true := by
  simp [isOwningRef, kind_of_validate_ref h, Kind.isReference, hback]

/-- Collections of references are owning. -/
theorem isOwningRef_of_validate_refs (hp : p.IsSound) {slots : List (Option ResourceId)}
    (h : p.validate (.refs slots) = .ok u) : p.isOwningRef = true := by
  have hkind := (kind_of_validate_refs h).1
  have hback : p.backRef = false := by
    cases hb : p.backRef with
    | false => rfl
    | true => rcases hkind with hk | hk <;> rw [hp.backRef hb] at hk <;> cases hk
  rcases hkind with hk | hk <;> simp [isOwningRef, hk, Kind.isReference, hback]

/-- Only plain properties can be encoded in place. -/
theorem isPlain_of_encodePlain {value : Value} {bytes part : Bytes}
    (h : p.encodePlain value bytes = .ok part) : p.kind.isPlain = true := by
  obtain ⟨_, hvalid, h⟩ := Layout.ok_of_bind h
  cases hw : plainWords? value with
  | none =>
    rw [hw] at h
    cases h
  | some ws =>
    obtain ⟨_, hshape, -⟩ := Layout.ok_of_bind hvalid
    unfold checkShape at hshape
    cases value with
    | text | buffer | ref | refs => cases hw
    | bool | word | float | floats =>
      cases hk : p.kind <;> rw [hk] at hshape <;> first | rfl | cases hshape

/-- A plain property takes values that are their own words, as many as it has. -/
theorem plainWords?_of_validate {value : Value} (hsound : p.IsSound) (hplain : p.kind.isPlain = true)
    (h : p.validate value = .ok u) :
    ∃ words, plainWords? value = some words ∧ words.length = p.count := by
  obtain ⟨_, hshape, -⟩ := Layout.ok_of_bind h
  have hcount := hsound.count_eq
  unfold checkShape at hshape
  cases hk : p.kind <;> rw [hk] at hplain hshape hcount <;> cases hplain
  all_goals cases value <;> first | cases hshape | skip
  case vec2.refl.floats | vec3.refl.floats | rgb.refl.floats | rgba.refl.floats |
      quat.refl.floats | mat4.refl.floats =>
    dsimp only at hshape
    split at hshape
    · rename_i hlength
      exact ⟨_, rfl, by rw [List.length_map, hlength]⟩
    · cases hshape
  all_goals exact ⟨_, rfl, (hcount 1 rfl).symm⟩

/-- The storage of an instance with the words of a plain value in the place of a property. -/
def setPlain (storage : Bytes) (given : Property × Value) : Bytes :=
  given.1.splice storage ((given.1.slice storage).setWords ((plainWords? given.2).getD []))

/-- The default of a plain property. -/
def plainDefault? (p : Property) : Option (Property × Value) :=
  if p.kind.isPlain then p.default?.map fun value => (p, value) else none

/-- A plain value that is encoded in place is set. -/
theorem splice_eq_setPlain {value : Value} {storage part : Bytes}
    (h : p.encodePlain value (p.slice storage) = .ok part) :
    p.splice storage part = setPlain storage (p, value) := by
  obtain ⟨_, -, h⟩ := Layout.ok_of_bind h
  unfold setPlain
  cases hwords : plainWords? value with
  | none =>
    rw [hwords] at h
    cases h
  | some words =>
    rw [hwords] at h
    cases h
    rfl

/-- Storing the default of a property sets it, if it is plain. -/
theorem storeDefault_eq (hsound : p.IsSound) (storage : Bytes) :
    Layout.storeDefault storage p =
      match p.plainDefault? with
      | some given => setPlain storage given
      | none => storage := by
  unfold Layout.storeDefault plainDefault?
  cases hdefault : p.default? with
  | none => cases p.kind.isPlain <;> rfl
  | some value =>
    dsimp only
    split
    · rename_i hplain
      have hvalid := (hsound.default value hdefault).1
      obtain ⟨words, hwords, -⟩ := plainWords?_of_validate hsound hplain hvalid
      have hencoded : p.encodePlain value (p.slice storage) =
          .ok ((p.slice storage).setWords words) := by
        unfold encodePlain
        rw [hvalid, hwords]
        rfl
      rw [hencoded]
      exact splice_eq_setPlain hencoded
    · rfl

/-- The words of a property are those that were written, if there was room for them. -/
theorem words_setWords {part : Bytes} {ws : List UInt32} (hpart : part.length = p.length)
    (hws : ws.length = p.count) : p.words (part.setWords ws) = ws := by
  have hroom : 4 * ws.length ≤ part.length := by
    rw [hpart, hws]
    exact Nat.le_refl _
  apply List.ext_getElem
  · simp [words, hws]
  · intro i hi hi'
    simp [words, Bytes.word_setWords hroom, hi']

end Property

/-- The storage of an instance that was given nothing is zero but for the plain defaults. -/
theorem Layout.defaultBytes_eq {layout : Layout} (h : layout.IsSound) :
    layout.defaultBytes = (layout.props.filterMap Property.plainDefault?).foldl Property.setPlain
      (Bytes.zeros layout.byteLength) := by
  unfold defaultBytes
  rw [List.foldl_filterMap]
  refine List.foldl_ext _ _ _ fun storage p hp => ?_
  rw [Property.storeDefault_eq (h.sound p hp)]
  cases p.plainDefault? <;> rfl

namespace Registry

/-- References are followed by as many zeros as there are slots left. -/
theorem padded_eq {count : Nat} {targets : List ResourceId} (h : targets.length ≤ count) :
    padded count targets = targets ++ List.replicate (count - targets.length) 0 := by
  apply List.ext_getElem
  · simp [padded, h]
  · intro i hi hi'
    simp only [padded, List.length_map, List.length_range] at hi
    simp only [padded, List.getElem_map, List.getElem_range, List.getElem_append,
      List.getElem_replicate]
    split
    · rename_i hlt
      simp [hlt]
    · rename_i hge
      simp [Nat.not_lt.mp hge]

/-- A holder holds the references that were written to it. -/
theorem heldIds_setWords_padded {p : Property} (hp : p.IsSound) (hholder : p.IsHolder)
    {part : Bytes} (hpart : part.length = p.length) {targets : List ResourceId}
    (hcount : targets.length ≤ p.count) :
    p.heldIds (part.setWords (padded p.count targets)) = targets.filter (· != 0) := by
  rw [p.heldIds_of_isHolder hp hholder, p.words_setWords hpart (by simp [padded]),
    padded_eq hcount, List.filter_append]
  simp

/-- The references that fill the slots of a collection are those that its value names. -/
theorem filter_map_getD (slots : List (Option ResourceId)) :
    (slots.map (·.getD 0)).filter (· != 0) = targetsOf (.refs slots) := by
  unfold targetsOf
  induction slots with
  | nil => rfl
  | cons slot rest ih =>
    cases slot with
    | none => simpa using ih
    | some x =>
      by_cases hx : x = 0
      · simpa [hx] using ih
      · simpa [hx] using ih

/-- The reference that fills a single slot is the one that its value names. -/
theorem filter_singleton_getD (target : Option ResourceId) :
    [target.getD 0].filter (· != 0) = targetsOf (.ref target) := by
  cases target <;> rfl

end Registry

end Framecast
