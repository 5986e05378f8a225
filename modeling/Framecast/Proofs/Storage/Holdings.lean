import Mathlib.Algebra.Order.Group.Multiset
import Mathlib.Data.Multiset.Filter
import Mathlib.Tactic.Abel
import Framecast.Proofs.Storage.Layouts
import Framecast.Resource

/-!
# What the bytes of an instance hold

The words of texts, raw buffers and owning references hold other resources. What
an instance holds is the sum of what its properties hold, so replacing the bytes
of one property exchanges what this property held for what it holds now and
touches nothing else. An instance that was only given plain values holds nothing.
-/

namespace Framecast

namespace Property

variable {p : Property} {part : Bytes}

/-- The resources that a property's own bytes hold, slot by slot. -/
def heldIds (p : Property) (part : Bytes) : List ResourceId :=
  ((p.refSlots part).map Prod.snd).filter (· != 0)

/-- The references of a property lead to what its own bytes hold. -/
theorem map_id_heldRefs (p : Property) (storage : Bytes) :
    (p.heldRefs storage).map HeldRef.id = p.heldIds (p.slice storage) := by
  unfold heldRefs heldIds
  rw [List.map_map, List.filter_map]
  rfl

theorem mem_heldIds {id : ResourceId} :
    id ∈ p.heldIds part ↔ (∃ slot, (slot, id) ∈ p.refSlots part) ∧ id ≠ 0 := by
  unfold heldIds
  simp

/-- Only texts, raw buffers and owning references hold anything. -/
theorem refSlots_eq_nil (hs : p.kind ≠ .string) (hb : p.kind ≠ .arrayBuffer)
    (ho : p.isOwningRef = false) (part : Bytes) : p.refSlots part = [] := by
  unfold refSlots
  split
  · exact absurd ‹_› hs
  · exact absurd ‹_› hb
  · rw [ho]
    rfl

/-- Plain properties hold nothing. -/
theorem heldIds_of_plain (h : p.kind.isPlain = true) (part : Bytes) : p.heldIds part = [] := by
  unfold Kind.isPlain at h
  simp only [Bool.and_eq_true, Bool.not_eq_true', bne_iff_ne, ne_eq] at h
  have ho : p.isOwningRef = false := by
    unfold isOwningRef
    rw [h.1.1, Bool.false_and]
  unfold heldIds
  rw [refSlots_eq_nil h.1.2 h.2 ho]
  rfl

/-- Reverse pointers hold nothing. -/
theorem heldIds_of_backRef (h : p.IsSound) (hb : p.backRef = true) (part : Bytes) :
    p.heldIds part = [] := by
  have hk := h.backRef hb
  have ho : p.isOwningRef = false := by
    unfold isOwningRef
    rw [hb, Bool.not_true, Bool.and_false]
  unfold heldIds
  rw [refSlots_eq_nil (by simp [hk]) (by simp [hk]) ho]
  rfl

/-- A raw buffer is held by the last of its three words. -/
theorem heldIds_of_arrayBuffer (h : p.kind = .arrayBuffer) (part : Bytes) :
    p.heldIds part = [part.word 2].filter (· != 0) := by
  unfold heldIds refSlots
  rw [h]
  rfl

/-- Whether a property exchanges what it holds as a whole: a text or an owning reference. -/
def IsHolder (p : Property) : Prop := p.kind = .string ∨ p.isOwningRef = true

/-- Texts and owning references hold what their words say. -/
theorem heldIds_of_isHolder (hp : p.IsSound) (h : p.IsHolder) (part : Bytes) :
    p.heldIds part = (p.words part).filter (· != 0) := by
  unfold heldIds words refSlots
  rcases h with h | h
  · rw [h, hp.count_eq 1 (by rw [h]; rfl)]
    rfl
  · have hs : p.kind ≠ .string := by
      intro hk
      simp [isOwningRef, hk, Kind.isReference] at h
    have hb : p.kind ≠ .arrayBuffer := by
      intro hk
      simp [isOwningRef, hk, Kind.isReference] at h
    split
    · exact absurd ‹_› hs
    · exact absurd ‹_› hb
    · rw [h, if_pos rfl, List.map_map]
      rfl

/-- A run of zeros holds nothing. -/
theorem heldIds_zeros (p : Property) (n : Nat) : p.heldIds (Bytes.zeros n) = [] := by
  unfold heldIds refSlots
  rw [List.filter_eq_nil_iff]
  split
  · simp
  · simp
  · split
    · simp
    · simp

end Property

namespace Layout

variable {layout : Layout} {storage part : Bytes} {p q : Property}

/-- The resources that the bytes of an instance hold, in the order of the properties. -/
def heldIds (layout : Layout) (storage : Bytes) : List ResourceId :=
  layout.props.flatMap fun p => p.heldIds (p.slice storage)

/-- The references of an instance lead to what its bytes hold. -/
theorem map_id_heldRefs (layout : Layout) (storage : Bytes) :
    (layout.heldRefs storage).map HeldRef.id = layout.heldIds storage := by
  unfold heldRefs heldIds
  rw [List.map_flatMap]
  congr 1
  funext p
  exact p.map_id_heldRefs storage

/-- Replacing the bytes of a property exchanges what it held for what it holds now. -/
theorem heldIds_splice (h : layout.IsSound) (hp : p ∈ layout.props)
    (hs : storage.length = layout.byteLength) (hpart : part.length = p.length) :
    (layout.heldIds (p.splice storage part) : Multiset ResourceId) + p.heldIds (p.slice storage) =
      layout.heldIds storage + p.heldIds part := by
  have hself := h.slice_splice_self hp hs hpart
  have hother : ∀ q ∈ layout.props, q ≠ p → q.slice (p.splice storage part) = q.slice storage :=
    fun q hq hne => h.slice_splice_of_ne hp hq (Ne.symm hne) hs hpart
  have hnames := h.names
  unfold heldIds
  obtain ⟨before, after, hprops⟩ := List.append_of_mem hp
  rw [hprops] at hother hnames ⊢
  have hnodup := List.pairwise_append.mp hnames
  have hsame : ∀ qs : List Property, (∀ q ∈ qs, q ∈ before ++ p :: after ∧ q ≠ p) →
      qs.flatMap (fun q => q.heldIds (q.slice (p.splice storage part))) =
        qs.flatMap (fun q => q.heldIds (q.slice storage)) := by
    intro qs hqs
    apply List.flatMap_congr
    intro q hq
    rw [hother q (hqs q hq).1 (hqs q hq).2]
  have hb := hsame before fun q hq => ⟨by simp [hq], fun hqp =>
    hnodup.2.2 q hq p List.mem_cons_self (by rw [hqp])⟩
  have ha := hsame after fun q hq => ⟨by simp [hq], fun hqp =>
    (List.pairwise_cons.mp hnodup.2.1).1 q hq (by rw [hqp])⟩
  rw [List.flatMap_append, List.flatMap_append, List.flatMap_cons, List.flatMap_cons, hb, ha,
    hself]
  simp only [← Multiset.coe_add]
  abel

/-- Zeroed storage holds nothing. -/
theorem heldIds_zeros (h : layout.IsSound) :
    layout.heldIds (Bytes.zeros layout.byteLength) = [] := by
  unfold heldIds
  rw [List.flatMap_eq_nil_iff]
  intro p hp
  rw [Property.slice, Bytes.slice_zeros (h.stop_le p hp)]
  exact p.heldIds_zeros _

/-- Storing a plain value takes and gives up nothing. -/
theorem heldIds_splice_of_plain (h : layout.IsSound) (hp : p ∈ layout.props)
    (hplain : p.kind.isPlain = true) (hs : storage.length = layout.byteLength)
    (hpart : part.length = p.length) (hnil : layout.heldIds storage = []) :
    layout.heldIds (p.splice storage part) = [] := by
  have hsum := heldIds_splice h hp hs hpart
  rw [Property.heldIds_of_plain hplain, Property.heldIds_of_plain hplain, hnil] at hsum
  simpa using hsum

end Layout

namespace Property

/-- Encoding a plain value keeps the number of bytes. -/
theorem length_encodePlain {p : Property} {value : Value} {bytes part : Bytes}
    (h : p.encodePlain value bytes = .ok part) : part.length = bytes.length := by
  unfold encodePlain at h
  obtain ⟨_, -, h⟩ := Layout.ok_of_bind h
  split at h
  · cases h
    exact Bytes.length_setWords _ _
  · cases h

end Property

/-- Whether an instance's storage fits its layout. Payloads always do. -/
def Storage.IsSound : Storage → Prop
  | .payload _ => True
  | .fields schema bytes => schema.layout.IsSound ∧ bytes.length = schema.layout.byteLength

/-- The resources that a resource holds. -/
def Storage.heldIds : Storage → List ResourceId
  | .payload _ => []
  | .fields schema bytes => schema.layout.heldIds bytes

theorem Storage.map_id_heldRefs (s : Storage) : s.heldRefs.map HeldRef.id = s.heldIds := by
  cases s with
  | payload _ => rfl
  | fields schema bytes => exact schema.layout.map_id_heldRefs bytes

namespace Layout

variable {layout : Layout}

/-- Storage of the right length that holds nothing. -/
def IsBlank (layout : Layout) (storage : Bytes) : Prop :=
  storage.length = layout.byteLength ∧ layout.heldIds storage = []

/-- Blank storage stays blank when a plain value is stored. -/
theorem IsBlank.splice {storage part : Bytes} {p : Property} (hb : layout.IsBlank storage)
    (h : layout.IsSound) (hp : p ∈ layout.props) (hplain : p.kind.isPlain = true)
    (hpart : part.length = (p.slice storage).length) : layout.IsBlank (p.splice storage part) := by
  rw [h.length_slice hp hb.1] at hpart
  exact ⟨h.length_splice hp hb.1 hpart, heldIds_splice_of_plain h hp hplain hb.1 hpart hb.2⟩

/-- Defaults of plain properties leave blank storage blank. -/
theorem IsBlank.storeDefault {storage : Bytes} {p : Property} (hb : layout.IsBlank storage)
    (h : layout.IsSound) (hp : p ∈ layout.props) :
    layout.IsBlank (Layout.storeDefault storage p) := by
  unfold Layout.storeDefault
  split
  · split
    · rename_i hplain
      split
      · rename_i part hpart
        exact hb.splice h hp hplain (Property.length_encodePlain hpart)
      · exact hb
    · exact hb
  · exact hb

/-- The storage of an instance that was given nothing is blank. -/
theorem isBlank_defaultBytes (h : layout.IsSound) : layout.IsBlank layout.defaultBytes := by
  have hfold : ∀ (ps : List Property) (storage : Bytes), (∀ p ∈ ps, p ∈ layout.props) →
      layout.IsBlank storage → layout.IsBlank (ps.foldl Layout.storeDefault storage) := by
    intro ps
    induction ps with
    | nil => exact fun _ _ hb => hb
    | cons p ps ih =>
      intro storage hps hb
      exact ih _ (fun q hq => hps q (List.mem_cons_of_mem _ hq))
        (hb.storeDefault h (hps p List.mem_cons_self))
  exact hfold _ _ (fun _ hp => hp) ⟨Bytes.length_zeros _, heldIds_zeros h⟩

end Layout

end Framecast
