import Mathlib.Data.List.Pairwise
import Framecast.Proofs.Storage.Compilation
import Framecast.Proofs.Storage.Words

/-!
# Compiled layouts

Compilation lays properties out back to back, so no two of them meet and all of
them lie inside the storage of an instance. `Layout.IsSound` collects what every
compiled layout guarantees; everything that is proved of instances rests on it.
Writing the bytes of one property is invisible to all others.
-/

namespace Framecast

/-- A layout that came out of compilation. -/
def Layout.IsCompiled (layout : Layout) : Prop :=
  ∃ name declared, (∀ d ∈ declared, Declaration.IsRegular d) ∧
    Layout.compile name declared = .ok layout

/-- What compilation guarantees of one property. -/
structure Property.IsSound (p : Property) : Prop where
  /-- References to the own type are spelt out. -/
  ne_selfRef : p.kind ≠ .selfRef
  /-- The number of words is the one of the kind. -/
  count_eq : ∀ n, p.kind.fixedCount = some n → p.count = n
  /-- References have a type. -/
  target : p.kind.isReference = true → p.target?.isSome
  /-- Only single references point backwards. -/
  backRef : p.backRef = true → p.kind = .ref
  /-- A default is a valid value of a plain property or of a text. -/
  default : ∀ v, p.default? = some v →
    p.validate v = .ok () ∧ (p.kind.isPlain = true ∨ p.kind = .string)

/-- What compilation guarantees of a layout. -/
structure Layout.IsSound (layout : Layout) : Prop where
  /-- Each property by itself. -/
  sound : ∀ p ∈ layout.props, p.IsSound
  /-- Every property ends inside the storage. -/
  stop_le : ∀ p ∈ layout.props, p.stop ≤ layout.byteLength
  /-- Each property ends before the next begins. -/
  apart : layout.props.Pairwise fun p q => p.stop ≤ q.offset
  /-- No name is used twice. -/
  names : layout.props.Pairwise fun p q => p.name ≠ q.name

namespace Layout

/-- A valid declaration is a sound property in any place. -/
theorem Declaration.isSound_place {d : Declaration} {resource : String} (hd : d.IsRegular)
    (hvalid : (d.resolve resource).IsValid) (offset : Nat) :
    ((d.resolve resource).place offset).IsSound where
  ne_selfRef := d.resolve_ne_selfRef resource
  count_eq := Declaration.isRegular_resolve hd resource
  target h := by
    obtain ⟨target, htarget, -⟩ := hvalid.target h
    exact Option.isSome_of_eq_some htarget
  backRef := hvalid.backRef
  default v hv := ⟨hvalid.default v hv, hvalid.defaultKind (Option.isSome_of_eq_some hv)⟩

/-- Compiled layouts are sound. -/
theorem IsCompiled.isSound {layout : Layout} (h : layout.IsCompiled) : layout.IsSound := by
  obtain ⟨resource, declared, hregular, h⟩ := h
  obtain ⟨hdeclarable, rfl⟩ := compile_eq_ok_iff.mp h
  constructor
  · intro p hp
    obtain ⟨d, hd, offset, rfl⟩ := mem_placeAll hp
    exact Declaration.isSound_place (hregular d hd) (hdeclarable.valid d hd) offset
  · intro p hp
    have h := stop_le_of_placeAll hp
    rwa [Nat.zero_add] at h
  · exact pairwise_placeAll resource 0 declared
  · rw [← List.pairwise_map]
    rw [packed, map_name_placeAll]
    exact hdeclarable.names

theorem mem_of_prop? {layout : Layout} {name : String} {p : Property}
    (h : layout.prop? name = some p) : p ∈ layout.props ∧ p.name = name := by
  refine ⟨List.mem_of_find?_eq_some h, ?_⟩
  simpa using List.find?_some h

namespace IsSound

variable {layout : Layout} {storage : Bytes} {p q : Property}

/-- Two different properties do not meet. -/
theorem disjoint (h : layout.IsSound) (hp : p ∈ layout.props) (hq : q ∈ layout.props)
    (hne : p ≠ q) : p.stop ≤ q.offset ∨ q.stop ≤ p.offset := by
  let R (p q : Property) : Prop := p.stop ≤ q.offset ∨ q.stop ≤ p.offset
  have hR : layout.props.Pairwise R := h.apart.imp fun hpq => Or.inl hpq
  have : Std.Symm R := ⟨fun _ _ hpq => hpq.symm⟩
  exact hR.forall hp hq hne

/-- Two properties of one name are the same. -/
theorem eq_of_name (h : layout.IsSound) (hp : p ∈ layout.props) (hq : q ∈ layout.props)
    (hname : p.name = q.name) : p = q := by
  have hR := h.names
  have : Std.Symm fun p q : Property => p.name ≠ q.name := ⟨fun _ _ h => h.symm⟩
  by_contra hne
  exact hR.forall hp hq hne hname

/-- The property found under the name of one is that one. -/
theorem prop?_of_mem (h : layout.IsSound) (hp : p ∈ layout.props) :
    layout.prop? p.name = some p := by
  cases hfound : layout.prop? p.name with
  | none =>
    have hnone := List.find?_eq_none.mp hfound p hp
    simp at hnone
  | some q =>
    obtain ⟨hq, hname⟩ := mem_of_prop? hfound
    rw [h.eq_of_name hq hp hname]

/-- The slice of a property has the property's length. -/
theorem length_slice (h : layout.IsSound) (hp : p ∈ layout.props)
    (hs : storage.length = layout.byteLength) : (p.slice storage).length = p.length := by
  apply Bytes.length_slice
  rw [hs]
  exact h.stop_le p hp

/-- Replacing the bytes of a property keeps the length of the storage. -/
theorem length_splice (h : layout.IsSound) (hp : p ∈ layout.props)
    (hs : storage.length = layout.byteLength) {part : Bytes} (hpart : part.length = p.length) :
    (p.splice storage part).length = layout.byteLength := by
  rw [← hs]
  apply Bytes.length_splice
  rw [hs, hpart]
  exact h.stop_le p hp

/-- The replaced bytes of a property are its bytes. -/
theorem slice_splice_self (h : layout.IsSound) (hp : p ∈ layout.props)
    (hs : storage.length = layout.byteLength) {part : Bytes} (hpart : part.length = p.length) :
    p.slice (p.splice storage part) = part := by
  unfold Property.slice Property.splice
  rw [← hpart]
  apply Bytes.slice_splice_self
  rw [hs, hpart]
  exact h.stop_le p hp

/-- Replacing the bytes of one property leaves every other one alone. -/
theorem slice_splice_of_ne (h : layout.IsSound) (hp : p ∈ layout.props) (hq : q ∈ layout.props)
    (hne : p ≠ q) (hs : storage.length = layout.byteLength) {part : Bytes}
    (hpart : part.length = p.length) : q.slice (p.splice storage part) = q.slice storage := by
  have hstop := h.stop_le p hp
  have hd := h.disjoint hp hq hne
  unfold Property.stop at hstop hd
  apply Bytes.slice_splice_of_disjoint
  · rw [hs, hpart]
    exact hstop
  · rw [hpart]
    exact hd

end IsSound

end Layout

end Framecast
