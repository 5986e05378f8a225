import Framecast.Proofs.Storage.Agreement

/-!
# The plan of a layout

The plan of a layout says where everything is: which properties there are, in which
order, of which kind and size, at which offset and with which targets. Equality of
layouts looks the properties up by name and does not compare their order. But the
offsets of a compiled layout increase, since no property is empty, so they give the
order back: equal layouts have one plan, and so have schemas that agree.
-/

namespace Framecast

/-- Where a property is and what is there, whatever values it accepts. -/
structure Site where
  /-- The name. -/
  name : String
  /-- The kind. -/
  kind : Kind
  /-- The number of words. -/
  count : Nat
  /-- Where its bytes begin. -/
  offset : Nat
  /-- The number of bytes. -/
  length : Nat
  /-- The type that references must have. -/
  target? : Option String
  /-- Whether it is a reverse pointer that keeps nothing alive. -/
  backRef : Bool
  deriving DecidableEq, Repr

/-- The plan of a layout. -/
structure Plan where
  /-- The type tag. -/
  name : String
  /-- Where the properties are, in the order of declaration. -/
  sites : List Site
  /-- The number of bytes of an instance. -/
  byteLength : Nat
  deriving DecidableEq, Repr

namespace Property

/-- The site of a property. -/
def site (p : Property) : Site :=
  ⟨p.name, p.kind, p.count, p.offset, p.length, p.target?, p.backRef⟩

/-- Equal properties have one site. -/
theorem site_eq_of_same {p q : Property} (h : p.same q = true) : p.site = q.site := by
  simp only [same, Bool.and_eq_true, beq_iff_eq] at h
  obtain ⟨⟨⟨⟨⟨⟨⟨⟨⟨⟨⟨hname, hkind⟩, hcount⟩, hoffset⟩, -⟩, -⟩, -⟩, hback⟩, -⟩, -⟩, -⟩, htarget⟩ := h
  unfold site length
  rw [hname, hkind, hcount, hoffset, hback, htarget]

end Property

namespace Layout

variable {a b : Layout}

/-- The plan of a layout. -/
def plan (layout : Layout) : Plan :=
  ⟨layout.name, layout.props.map Property.site, layout.byteLength⟩

/-- The sites of a compiled layout are listed by their offsets, and no two share one. -/
theorem IsCompiled.increasing (h : a.IsCompiled) :
    (a.props.map Property.site).Pairwise fun s t => s.offset < t.offset := by
  obtain ⟨resource, declared, hregular, h⟩ := h
  obtain ⟨hdeclarable, rfl⟩ := compile_eq_ok_iff.mp h
  exact List.pairwise_map.mpr (isPacked_packed hregular hdeclarable).increasing

/-- The sites of a layout are among those of an equal one. -/
theorem sites_subset_of_same (h : a.same b = true) :
    a.props.map Property.site ⊆ b.props.map Property.site := by
  obtain ⟨-, -, hprops, -⟩ := same_iff.mp h
  intro site hsite
  obtain ⟨p, hp, rfl⟩ := List.mem_map.mp hsite
  obtain ⟨q, hfound, hsame⟩ := hprops p hp
  rw [Property.site_eq_of_same hsame]
  exact List.mem_map_of_mem (mem_of_prop? hfound).1

/-- Equal compiled layouts have one plan. -/
theorem plan_eq_of_same (ha : a.IsCompiled) (hb : b.IsCompiled) (h : a.same b = true) :
    a.plan = b.plan := by
  obtain ⟨hname, hlength, -, hbytes⟩ := same_iff.mp h
  have hdistinct : (a.props.map Property.site).Nodup := by
    refine ha.increasing.imp fun hlt heq => ?_
    rw [heq] at hlt
    exact Nat.lt_irrefl _ hlt
  have hperm : (a.props.map Property.site).Perm (b.props.map Property.site) :=
    (hdistinct.subperm (sites_subset_of_same h)).perm_of_length_le (by simp [hlength])
  have hsites : a.props.map Property.site = b.props.map Property.site :=
    hperm.eq_of_pairwise (fun _ _ _ _ hlt hgt => absurd hlt (Nat.lt_asymm hgt)) ha.increasing
      hb.increasing
  unfold plan
  rw [hname, hsites, hbytes]

end Layout

/-- Schemas that agree have one plan, if what was published together is one. -/
theorem Schema.plan_eq_of_agrees {s t : Schema} (hs : s.layout.IsCompiled)
    (ht : t.layout.IsCompiled) (hone : s.IsOneWith t) (h : s.agrees t = true) :
    s.layout.plan = t.layout.plan := by
  rcases agrees_iff.mp h with hserial | hsame
  · rw [hone hserial]
  · exact Layout.plan_eq_of_same hs ht hsame

end Framecast
