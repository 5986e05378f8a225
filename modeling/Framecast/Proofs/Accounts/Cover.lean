import Framecast.Proofs.Accounts.Balance

/-!
# Covered books

A book is covered when no resource counts more references than name it, outside of
instances or in their bytes. This is what a balance comes to where counts may have
stopped at their limit and where what is removed may still be referenced: every
elementary change keeps it, strict or not.
-/

namespace Framecast

/-- The references outside of instances and those inside are at least as many as every count. -/
def Registry.IsCovered (r : Registry) (outside : Multiset ResourceId) : Prop :=
  ∀ x res, r.resource? x = some res → res.refCount ≤ (outside + r.holdings).count x

namespace Registry

variable {r r' after : Registry} {outside outside' : Multiset ResourceId} {id x : ResourceId}
  {res : Resource}

/-- Books are covered after a change by which no count grows by more than what names it. -/
theorem IsCovered.of_counts (h : r.IsCovered outside)
    (hcounts : ∀ x res', r'.resource? x = some res' →
      res'.refCount = 0 ∨ ∃ res, r.resource? x = some res ∧
        res'.refCount + (outside + r.holdings).count x ≤
          res.refCount + (outside' + r'.holdings).count x) : r'.IsCovered outside' := by
  intro x res' hx
  rcases hcounts x res' hx with hzero | ⟨res, hres, hle⟩
  · rw [hzero]
    exact Nat.zero_le _
  · have hcovered : res.refCount ≤ (outside + r.holdings).count x := h x res hres
    omega

theorem IsCovered.mono (h : r.IsCovered outside) (hle : outside ≤ outside') :
    r.IsCovered outside' := fun x res hx =>
  (h x res hx).trans (Multiset.count_le_of_le x (add_le_add_left hle _))

/-- Whether books are covered shows in the bodies of the resources. -/
theorem IsCovered.of_body (h : r.IsCovered outside)
    (hbody : ∀ id, (r'.resource? id).map Resource.body = (r.resource? id).map Resource.body) :
    r'.IsCovered outside := by
  refine h.of_counts fun x res' hx => .inr ?_
  have hone := hbody x
  rw [hx, Option.map_some] at hone
  obtain ⟨res, hres, heq⟩ := Option.map_eq_some_iff.mp hone.symm
  have hcount : res.body.refCount = res'.body.refCount := congrArg Resource.refCount heq
  refine ⟨res, hres, ?_⟩
  rw [holdings_of_body hbody]
  exact Nat.add_le_add_right hcount.ge _

/-- The count of one resource changes by no more than what names it, or comes to nothing. -/
theorem IsCovered.recount (h : r.IsCovered outside) (hres : r.resource? id = some res)
    (f : Resource → Resource) (hf : ∀ res, (f res).storage = res.storage)
    (hcount : (f res).refCount = 0 ∨
      (f res).refCount + outside.count id ≤ res.refCount + outside'.count id)
    (hothers : ∀ x, x ≠ id → outside'.count x = outside.count x) :
    (r.modifyResource id f).IsCovered outside' := by
  refine h.of_counts fun x res' hx => ?_
  rw [holdings_modifyResource r id hf]
  simp only [Multiset.count_add]
  rw [resource?_modifyResource] at hx
  split at hx
  · rename_i heq
    subst heq
    rw [hres] at hx
    cases hx
    exact hcount.imp_right fun hle => ⟨res, hres, by omega⟩
  · rename_i hne
    exact .inr ⟨res', hx, by rw [hothers x hne]⟩

end Registry

namespace Edit

variable {strict : Prop} {writer : ResourceId} {b b' : Book}

/-- Every elementary change keeps books covered. -/
theorem isCovered (h : Edit strict writer b b') (hw : b.registry.WellFormed)
    (hl : b'.registry.supply.Lasts) (hb : b.registry.IsCovered b.outside) :
    b'.registry.IsCovered b'.outside := by
  cases h with
  | quiet h => exact hb.of_body h.resources
  | @enter r outside _ type storage options _ hblank _ _ =>
    have hholdings :=
      Registry.holdings_insert (hw.resource?_nextId hl.of_draw) type options hblank
    refine hb.of_counts fun x res' hx => ?_
    rw [hholdings]
    rw [Registry.resource?_insert] at hx
    split at hx
    · cases hx
      exact .inl rfl
    · exact .inr ⟨res', hx, Nat.le_refl _⟩
  | @retain r outside _ id res h =>
    apply hb.recount h Resource.retained fun _ => rfl
    · have hmin : res.retained.refCount ≤ res.refCount + 1 := Nat.min_le_left _ _
      show _ ∨ _ + outside.count id ≤ _
      rw [Multiset.count_cons_self]
      omega
    · exact fun x hx => Multiset.count_cons_of_ne hx _
  | @release r outside _ id res h =>
    apply hb.recount h Resource.released fun _ => rfl
    · have hcount : res.released.refCount = res.refCount - 1 := rfl
      show _ ∨ _ + (id ::ₘ outside).count id ≤ _ + outside.count id
      rw [Multiset.count_cons_self]
      omega
    · exact fun x hx => (Multiset.count_cons_of_ne hx _).symm
  | @drop r outside _ id h =>
    refine hb.of_counts fun x res' hx => .inr ⟨res', hx, ?_⟩
    have hne : x ≠ id := by
      rintro rfl
      rw [show r.resource? x = some res' from hx] at h
      cases h
    show _ + (id ::ₘ outside + r.holdings).count x ≤ _
    rw [Multiset.cons_add, Multiset.count_cons_of_ne hne]
  | @store r outside outside' _ res schema bytes part prop h hstorage hprop hpart hmoved _ =>
    have hsum := Registry.add_holdings_storeBytes hw h hstorage hprop hpart hmoved
    refine hb.of_counts fun x res' hx => .inr ?_
    rw [hsum]
    rw [Registry.resource?_storeBytes h hstorage] at hx
    split at hx
    · rename_i heq
      subst heq
      cases hx
      exact ⟨res, h, Nat.le_refl _⟩
    · exact ⟨res', hx, Nat.le_refl _⟩
  | @ship r outside _ id res k link load h _ _ _ _ =>
    have hcovered : (r.modifyResource id fun res => { res with
        bindings := res.bindings ++ [(link.ship k res r.tick).1], load }).IsCovered outside :=
      hb.recount h _ (fun _ => rfl) (.inr (Nat.le_refl _)) fun _ _ => rfl
    refine hcovered.of_body fun x => ?_
    rw [Registry.resource?_modifyResource, h]
    exact congrArg (Option.map Resource.body) (Registry.getElem?_insert _ _ _ _)
  | @remove r outside _ id res h _ =>
    have hholdings := Registry.holdings_eq_add_remove hw h
    refine hb.of_counts fun x res' hx => .inr ?_
    show ∃ old, r.resource? x = some old ∧ res'.refCount + (outside + r.holdings).count x ≤ _
    rw [hholdings, add_assoc]
    rw [Registry.resource?_remove] at hx
    split at hx
    · cases hx
    · exact ⟨res', hx, Nat.le_refl _⟩

end Edit

/-- Every chain of elementary changes keeps books covered. -/
theorem Dealings.isCovered {b b' : Book} (h : Dealings b b') (hw : b.registry.WellFormed)
    (hl : b'.registry.supply.Lasts) (hb : b.registry.IsCovered b.outside) :
    b'.registry.IsCovered b'.outside :=
  (h.keep (P := fun b => b.registry.IsCovered b.outside) hw hl
    (fun _ _ _ _ hw₁ hl₂ hstep hb₁ => hstep.isCovered hw₁ hl₂ hb₁) hb).2

namespace Registry

variable {r after : Registry} {outside : Multiset ResourceId} {id : ResourceId}

theorem IsCovered.of_keepsOutside (hb : r.IsCovered outside) (hw : r.WellFormed)
    (hl : after.supply.Lasts) (h : r.KeepsOutside after) : after.IsCovered outside := by
  obtain ⟨_, hdealings⟩ := h outside 0
  exact hdealings.isCovered hw hl hb

/-- A resource that is counted and not referenced outside is held by a live one. -/
theorem IsCovered.exists_holder (hb : r.IsCovered outside) {res : Resource}
    (h : r.resource? id = some res) (hcount : res.refCount ≠ 0) (hout : id ∉ outside) :
    ∃ x holder, r.resource? x = some holder ∧ id ∈ holder.storage.heldIds := by
  have hcovered := hb id res h
  rw [Multiset.count_add, Multiset.count_eq_zero_of_notMem hout, Nat.zero_add] at hcovered
  have hheld : id ∈ r.holdings := Multiset.count_pos.mp (by omega)
  exact Resources.mem_gather.mp hheld

end Registry

end Framecast
