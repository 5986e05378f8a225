import Mathlib.Data.List.Perm.Subperm
import Framecast.Proofs.Storage.Layouts

/-!
# When schemas agree

Two schemas agree if they were published together or if their layouts are equal. The
numbers in a layout compare as numbers, so that a layout with a NaN in it is not equal
to itself; but equality goes both ways and from one to the next. The properties of a
layout are looked up by name, so it takes distinct names for this. If all schemas that
were published together have one layout, agreement is an equivalence.
-/

namespace Framecast

theorem Binary64.same_symm {x y : Binary64} (h : x.same y = true) : y.same x = true := by
  simp only [same, Bool.and_eq_true, beq_iff_eq] at h ⊢
  exact ⟨⟨h.1.2, h.1.1⟩, h.2.symm⟩

theorem Binary64.same_trans {x y z : Binary64} (h : x.same y = true) (h' : y.same z = true) :
    x.same z = true := by
  simp only [same, Bool.and_eq_true, beq_iff_eq] at h h' ⊢
  exact ⟨⟨h.1.1, h'.1.2⟩, h.2.trans h'.2⟩

theorem RawBuffer.sameStorage_symm {a b : RawBuffer} (h : a.sameStorage b = true) :
    b.sameStorage a = true := by
  simp only [sameStorage, Bool.and_eq_true, beq_iff_eq, bne_iff_ne, ne_eq] at h ⊢
  exact ⟨⟨h.1.1.symm, h.1.2.symm⟩, h.1.2 ▸ h.2⟩

theorem RawBuffer.sameStorage_trans {a b c : RawBuffer} (h : a.sameStorage b = true)
    (h' : b.sameStorage c = true) : a.sameStorage c = true := by
  simp only [sameStorage, Bool.and_eq_true, beq_iff_eq, bne_iff_ne, ne_eq] at h h' ⊢
  exact ⟨⟨h.1.1.trans h'.1.1, h.1.2.trans h'.1.2⟩, h.2⟩

namespace Value

/-- Equality of lists of numbers goes both ways. -/
theorem sameFloats_symm {xs ys : List Binary32} (h : sameFloats xs ys = true) :
    sameFloats ys xs = true := by
  induction xs generalizing ys with
  | nil =>
    cases ys with
    | nil => rfl
    | cons => cases h
  | cons x xs ih =>
    cases ys with
    | nil => cases h
    | cons y ys =>
      obtain ⟨hone, hrest⟩ := Bool.and_eq_true_iff.mp h
      exact Bool.and_eq_true_iff.mpr ⟨Binary64.same_symm hone, ih hrest⟩

/-- Equality of lists of numbers goes from one to the next. -/
theorem sameFloats_trans {xs ys zs : List Binary32} (h : sameFloats xs ys = true)
    (h' : sameFloats ys zs = true) : sameFloats xs zs = true := by
  induction xs generalizing ys zs with
  | nil =>
    cases ys with
    | nil => exact h'
    | cons => cases h
  | cons x xs ih =>
    cases ys with
    | nil => cases h
    | cons y ys =>
      cases zs with
      | nil => cases h'
      | cons z zs =>
        obtain ⟨hone, hrest⟩ := Bool.and_eq_true_iff.mp h
        obtain ⟨hone', hrest'⟩ := Bool.and_eq_true_iff.mp h'
        exact Bool.and_eq_true_iff.mpr ⟨Binary64.same_trans hone hone', ih hrest hrest'⟩

/-- Equality of values goes both ways. -/
theorem same_symm {v w : Value} (h : v.same w = true) : w.same v = true := by
  cases v <;> cases w <;> first
    | exact Binary64.same_symm h
    | exact sameFloats_symm h
    | exact RawBuffer.sameStorage_symm h
    | exact beq_iff_eq.mpr (beq_iff_eq.mp h).symm
    | cases h

/-- Equality of values goes from one to the next. -/
theorem same_trans {u v w : Value} (h : u.same v = true) (h' : v.same w = true) :
    u.same w = true := by
  cases u <;> cases v <;> first | cases h | skip
  all_goals cases w <;> first
    | exact Binary64.same_trans h h'
    | exact sameFloats_trans h h'
    | exact RawBuffer.sameStorage_trans h h'
    | exact beq_iff_eq.mpr ((beq_iff_eq.mp h).trans (beq_iff_eq.mp h'))
    | cases h'

end Value

theorem sameBound_symm {x? y? : Option Binary64} (h : sameBound x? y? = true) :
    sameBound y? x? = true := by
  cases x? <;> cases y? <;> first | exact Binary64.same_symm h | exact h

theorem sameBound_trans {x? y? z? : Option Binary64} (h : sameBound x? y? = true)
    (h' : sameBound y? z? = true) : sameBound x? z? = true := by
  cases x? <;> cases y? <;> cases z? <;>
    first | exact Binary64.same_trans h h' | exact h | exact h' | cases h

theorem sameDefault_symm {x? y? : Option Value} (h : sameDefault x? y? = true) :
    sameDefault y? x? = true := by
  cases x? <;> cases y? <;> first | exact Value.same_symm h | exact h

theorem sameDefault_trans {x? y? z? : Option Value} (h : sameDefault x? y? = true)
    (h' : sameDefault y? z? = true) : sameDefault x? z? = true := by
  cases x? <;> cases y? <;> cases z? <;>
    first | exact Value.same_trans h h' | exact h | exact h' | cases h

namespace Property

variable {p q s : Property}

/-- Equality of properties goes both ways. -/
theorem same_symm (h : p.same q = true) : q.same p = true := by
  simp only [same, Bool.and_eq_true, beq_iff_eq] at h ⊢
  obtain ⟨⟨⟨⟨⟨⟨⟨⟨⟨⟨⟨hname, hkind⟩, hcount⟩, hoffset⟩, hrequired⟩, hmutable⟩, hscript⟩, hback⟩,
    hdefault⟩, hmin⟩, hmax⟩, htarget⟩ := h
  exact ⟨⟨⟨⟨⟨⟨⟨⟨⟨⟨⟨hname.symm, hkind.symm⟩, hcount.symm⟩, hoffset.symm⟩, hrequired.symm⟩,
    hmutable.symm⟩, hscript.symm⟩, hback.symm⟩, sameDefault_symm hdefault⟩, sameBound_symm hmin⟩,
    sameBound_symm hmax⟩, htarget.symm⟩

/-- Equality of properties goes from one to the next. -/
theorem same_trans (h : p.same q = true) (h' : q.same s = true) : p.same s = true := by
  simp only [same, Bool.and_eq_true, beq_iff_eq] at h h' ⊢
  obtain ⟨⟨⟨⟨⟨⟨⟨⟨⟨⟨⟨hname, hkind⟩, hcount⟩, hoffset⟩, hrequired⟩, hmutable⟩, hscript⟩, hback⟩,
    hdefault⟩, hmin⟩, hmax⟩, htarget⟩ := h
  obtain ⟨⟨⟨⟨⟨⟨⟨⟨⟨⟨⟨hname', hkind'⟩, hcount'⟩, hoffset'⟩, hrequired'⟩, hmutable'⟩, hscript'⟩,
    hback'⟩, hdefault'⟩, hmin'⟩, hmax'⟩, htarget'⟩ := h'
  exact ⟨⟨⟨⟨⟨⟨⟨⟨⟨⟨⟨hname.trans hname', hkind.trans hkind'⟩, hcount.trans hcount'⟩,
    hoffset.trans hoffset'⟩, hrequired.trans hrequired'⟩, hmutable.trans hmutable'⟩,
    hscript.trans hscript'⟩, hback.trans hback'⟩, sameDefault_trans hdefault hdefault'⟩,
    sameBound_trans hmin hmin'⟩, sameBound_trans hmax hmax'⟩, htarget.trans htarget'⟩

end Property

namespace Layout

variable {a b c : Layout}

/-- Layouts are equal if they have one name, one length, as many properties, and each property of
the one is found in the other under its name. -/
theorem same_iff : a.same b = true ↔ a.name = b.name ∧ a.props.length = b.props.length ∧
    (∀ p ∈ a.props, ∃ q, b.prop? p.name = some q ∧ p.same q = true) ∧
      a.byteLength = b.byteLength := by
  simp only [same, Bool.and_eq_true, beq_iff_eq, List.all_eq_true, Option.any_eq_true]
  constructor
  · rintro ⟨⟨⟨hname, hlength⟩, hprops⟩, hbytes⟩
    exact ⟨hname, hlength, hprops, hbytes⟩
  · rintro ⟨hname, hlength, hprops, hbytes⟩
    exact ⟨⟨⟨hname, hlength⟩, hprops⟩, hbytes⟩

/-- Equality of layouts goes both ways: as many distinct names that are all found are all names. -/
theorem same_symm (ha : a.IsSound) (hb : b.IsSound) (h : a.same b = true) : b.same a = true := by
  obtain ⟨hname, hlength, hprops, hbytes⟩ := same_iff.mp h
  have hnames (layout : Layout) (hsound : layout.IsSound) :
      (layout.props.map Property.name).Nodup := List.pairwise_map.mpr hsound.names
  have hsubset : a.props.map Property.name ⊆ b.props.map Property.name := by
    intro name hmem
    obtain ⟨p, hp, rfl⟩ := List.mem_map.mp hmem
    obtain ⟨q, hfound, -⟩ := hprops p hp
    obtain ⟨hq, heq⟩ := mem_of_prop? hfound
    exact List.mem_map.mpr ⟨q, hq, heq⟩
  have hperm : (a.props.map Property.name).Perm (b.props.map Property.name) :=
    (List.Nodup.subperm (hnames a ha) hsubset).perm_of_length_le (by simp [hlength])
  refine same_iff.mpr ⟨hname.symm, hlength.symm, fun q hq => ?_, hbytes.symm⟩
  obtain ⟨p, hp, heq⟩ := List.mem_map.mp (hperm.mem_iff.mpr (List.mem_map_of_mem hq))
  obtain ⟨found, hfound, hsame⟩ := hprops p hp
  obtain ⟨hmem, hfoundName⟩ := mem_of_prop? hfound
  obtain rfl := hb.eq_of_name hmem hq (hfoundName.trans heq)
  exact ⟨p, heq ▸ ha.prop?_of_mem hp, Property.same_symm hsame⟩

/-- Equality of layouts goes from one to the next. -/
theorem same_trans (h : a.same b = true) (h' : b.same c = true) : a.same c = true := by
  obtain ⟨hname, hlength, hprops, hbytes⟩ := same_iff.mp h
  obtain ⟨hname', hlength', hprops', hbytes'⟩ := same_iff.mp h'
  refine same_iff.mpr ⟨hname.trans hname', hlength.trans hlength', fun p hp => ?_,
    hbytes.trans hbytes'⟩
  obtain ⟨q, hq, hsame⟩ := hprops p hp
  obtain ⟨hmem, heq⟩ := mem_of_prop? hq
  obtain ⟨s, hs, hsame'⟩ := hprops' q hmem
  exact ⟨s, heq ▸ hs, Property.same_trans hsame hsame'⟩

end Layout

namespace Schema

variable {s t u : Schema}

/-- Whether two schemas have one layout if they were published together. -/
def IsOneWith (s t : Schema) : Prop := s.serial = t.serial → s.layout = t.layout

/-- Schemas agree if they were published together or have equal layouts. -/
theorem agrees_iff : s.agrees t = true ↔ s.serial = t.serial ∨ s.layout.same t.layout = true := by
  unfold agrees
  rw [Bool.or_eq_true, beq_iff_eq]

theorem agrees_symm (hs : s.layout.IsSound) (ht : t.layout.IsSound) (h : s.agrees t = true) :
    t.agrees s = true :=
  agrees_iff.mpr ((agrees_iff.mp h).imp Eq.symm (Layout.same_symm hs ht))

/-- Agreement goes from one to the next, if what was published together is one. -/
theorem agrees_trans (hst : s.IsOneWith t) (htu : t.IsOneWith u) (h : s.agrees t = true)
    (h' : t.agrees u = true) : s.agrees u = true := by
  refine agrees_iff.mpr ?_
  rcases agrees_iff.mp h with hserial | hsame <;> rcases agrees_iff.mp h' with hserial' | hsame'
  · exact .inl (hserial.trans hserial')
  · exact .inr (hst hserial ▸ hsame')
  · exact .inr (htu hserial' ▸ hsame)
  · exact .inr (Layout.same_trans hsame hsame')

end Schema

end Framecast
