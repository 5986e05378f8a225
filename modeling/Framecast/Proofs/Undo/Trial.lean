import Framecast.Proofs.Operation.Instance
import Framecast.Proofs.Undo.Loans

/-!
# Instances on trial

An instance that is being filled is on trial: whatever was written to it can be
undone. What it holds is on loan, and so is what an operation has in its hand. A
write exchanges loans. When the instance is destroyed, a cascade gives every loan
back and removes all that is new.
-/

namespace Framecast

/-- A resource that has no hook and that is not what a text is known as. -/
structure Resource.IsBare (res : Resource) : Prop where
  /-- It has no hook. -/
  hook : res.hook? = none
  /-- No text is known as it. -/
  text : res.type = stringType → ∀ text, res.cacheKey? ≠ some (.text text)

namespace Registry

/-- A registry `s` in which the instance `id` is being filled, and the registry `r` in which its
creation began. `hand` are references that were taken and not stored yet, or are no longer. -/
structure Trial (r s : Registry) (id : ResourceId) (schema : Schema)
    (hand : Multiset ResourceId) (loose : List ResourceId) : Prop where
  /-- The registry is well formed. -/
  wellFormed : s.WellFormed
  /-- Numbers last. -/
  lasts : s.supply.Lasts
  /-- What the indexes named at the beginning was given out then. -/
  indexed : r.IndexesIssued
  /-- The instance is new. -/
  new : r.supply.issued < id.toNat
  /-- The instance is bare. What it holds is on loan, and so is what is in the hand. -/
  found : ∃ res bytes, s.resource? id = some res ∧ res.storage = .fields schema bytes ∧
    res.IsBare ∧ r.Lends s id (schema.layout.heldIds bytes + hand) loose
  /-- What is new stands in front of what the indexes held. -/
  overlays : r.Overlays s

/-- A registry in which an instance was removed that was on trial, while its loans are given back.
What is left without a reference waits to be removed. -/
structure Unwinding (r s : Registry) (id : ResourceId) (loans : Multiset ResourceId)
    (waiting : List ResourceId) : Prop where
  /-- The registry is well formed. -/
  wellFormed : s.WellFormed
  /-- Numbers last. -/
  lasts : s.supply.Lasts
  /-- What the indexes named at the beginning was given out then. -/
  indexed : r.IndexesIssued
  /-- The instance is gone. -/
  gone : s.resource? id = none
  /-- The loans. -/
  lends : r.Lends s id loans waiting
  /-- Only what is new and has no reference left waits. -/
  unlent : ∀ x ∈ waiting, ∀ res, s.resource? x = some res →
    r.supply.issued < x.toNat ∧ x ∉ loans
  /-- What is new stands in front of what the indexes held. -/
  overlays : r.Overlays s

/-- What is left of a registry when a trial was undone. -/
structure Restores (r after : Registry) : Prop where
  /-- Every resource is what it was. -/
  resources : ∀ x, after.resource? x = r.resource? x
  /-- The lists of the types are what they were. -/
  listed : ∀ type, after.listed type = r.listed type
  /-- The cache is what it was. -/
  cache : after.cache = r.cache
  /-- The host was told nothing. -/
  journal : after.journal = r.journal

/-- If nothing on a worklist is live, there is no next live entry. -/
theorem resource?_of_nextLive_nil {r : Registry} {worklist : List ResourceId}
    (h : r.nextLive worklist = []) : ∀ x ∈ worklist, r.resource? x = none := by
  intro x hx
  by_contra hlive
  unfold nextLive at h
  induction worklist with
  | nil => cases hx
  | cons y rest ih =>
    rw [List.dropWhile_cons] at h
    split at h
    · rename_i hdead
      rcases List.mem_cons.mp hx with rfl | hx
      · exact hlive (Option.isNone_iff_eq_none.mp hdead)
      · exact ih h hx
    · cases h

/-- The next live entry of a worklist is live, and all other live entries come after it. -/
theorem mem_of_nextLive_cons {r : Registry} {worklist rest : List ResourceId} {x : ResourceId}
    (h : r.nextLive worklist = x :: rest) :
    r.resource? x ≠ none ∧ x ∈ worklist ∧
      ∀ y ∈ worklist, r.resource? y ≠ none → y = x ∨ y ∈ rest := by
  unfold nextLive at h
  induction worklist with
  | nil => cases h
  | cons z worklist ih =>
    rw [List.dropWhile_cons] at h
    split at h
    · rename_i hdead
      obtain ⟨hlive, hmem, hall⟩ := ih h
      refine ⟨hlive, List.mem_cons_of_mem _ hmem, fun y hy hres => ?_⟩
      rcases List.mem_cons.mp hy with rfl | hy
      · exact absurd (Option.isNone_iff_eq_none.mp hdead) hres
      · exact hall y hy hres
    · rename_i hlive
      cases h
      refine ⟨fun hnone => hlive (Option.isNone_iff_eq_none.mpr hnone), List.mem_cons_self, ?_⟩
      exact fun y hy _ => List.mem_cons.mp hy

namespace Unwinding

variable {r s : Registry} {id : ResourceId} {loans : Multiset ResourceId}
  {waiting : List ResourceId}

/-- A loan is given back. What has no reference left then waits to be removed. -/
theorem dropHeld {held : HeldRef} (h : r.Unwinding s id (held.id ::ₘ loans) waiting) :
    r.Unwinding (dropHeld (s, waiting) held).1 id loans (Registry.dropHeld (s, waiting) held).2 := by
  obtain ⟨-, res, hres⟩ := h.lends.live (Multiset.mem_cons_self held.id loans)
  have hedit : Edit True 0 ⟨s, held.id ::ₘ 0, 0⟩
      ⟨s.modifyResource held.id Resource.released, 0, 0⟩ := .release hres
  have hl : (s.modifyResource held.id Resource.released).supply.Lasts := by
    rw [supply_modifyResource]
    exact h.lasts
  have hw := hedit.wellFormed h.wellFormed hl
  have hover := h.overlays.modifyResource held.id (f := Resource.released) (fun _ => rfl) fun _ => rfl
  have hlends := h.lends.release
  have hback {x : ResourceId} {res' : Resource}
      (hx : (s.modifyResource held.id Resource.released).resource? x = some res') :
      ∃ res, s.resource? x = some res := by
    rw [resource?_modifyResource] at hx
    split at hx
    · rename_i heq
      exact ⟨res, heq ▸ hres⟩
    · exact ⟨res', hx⟩
  have hgone : (s.modifyResource held.id Resource.released).resource? id = none := by
    cases hid : (s.modifyResource held.id Resource.released).resource? id with
    | none => rfl
    | some res' =>
      obtain ⟨_, hid⟩ := hback hid
      rw [h.gone] at hid
      cases hid
  have hunlent : ∀ x ∈ waiting, ∀ res', (s.modifyResource held.id Resource.released).resource? x =
      some res' → r.supply.issued < x.toNat ∧ x ∉ loans := by
    intro x hx res' hres'
    obtain ⟨_, hres'⟩ := hback hres'
    obtain ⟨hnew, hnot⟩ := h.unlent x hx _ hres'
    exact ⟨hnew, fun hmem => hnot (Multiset.mem_cons_of_mem hmem)⟩
  have hne : held.id ≠ id := (h.lends.live (Multiset.mem_cons_self held.id loans)).1
  unfold Registry.dropHeld
  rw [hres]
  dsimp only
  split
  · rename_i hzero
    refine ⟨hw, hl, h.indexed, hgone, hlends, fun x hx res' hres' => ?_, hover⟩
    rcases List.mem_cons.mp hx with rfl | hx
    · have hcount : res.refCount ≤ 1 := Nat.sub_eq_zero_iff_le.mp hzero
      have hnew : r.supply.issued < held.id.toNat := by
        by_contra hold
        have := h.lends.two_le_refCount (Multiset.mem_cons_self held.id loans)
          (Nat.le_of_not_lt hold) hres
        omega
      refine ⟨hnew, ?_⟩
      have heq := (h.lends.stray hnew hne hres).2.2
      rw [Multiset.count_cons_self] at heq
      exact Multiset.count_eq_zero.mp (by omega)
    · exact hunlent x hx res' hres'
  · rename_i hnonzero
    refine ⟨hw, hl, h.indexed, hgone, hlends.settle fun x hx hnew res' hres' => ?_, hunlent, hover⟩
    rcases List.mem_cons.mp hx with rfl | hx
    · have hcount : 1 < res.refCount := by
        show 1 < res.refCount
        have : res.refCount - 1 ≠ 0 := hnonzero
        omega
      have heq := (h.lends.stray hnew hne hres).2.2
      rw [Multiset.count_cons_self] at heq
      exact .inl (Multiset.count_pos.mp (by omega))
    · exact .inr hx

/-- All loans are given back. -/
theorem foldl_dropHeld {held : List HeldRef}
    (h : r.Unwinding s id (held.map HeldRef.id + loans) waiting) :
    r.Unwinding (held.foldl Registry.dropHeld (s, waiting)).1 id loans
      (held.foldl Registry.dropHeld (s, waiting)).2 := by
  induction held generalizing s waiting with
  | nil => simpa using h
  | cons one rest ih =>
    rw [List.map_cons, ← Multiset.cons_coe, Multiset.cons_add] at h
    exact ih h.dropHeld

/-- The next resource that waits is removed. It holds nothing. -/
theorem remove {x : ResourceId} {rest : List ResourceId} {res : Resource}
    (h : r.Unwinding s id loans waiting) (hnext : s.nextLive waiting = x :: rest)
    (hres : s.resource? x = some res) :
    res.storage.heldRefs = [] ∧ r.Unwinding (s.remove res) id loans rest := by
  obtain ⟨-, hmem, hrest⟩ := mem_of_nextLive_cons hnext
  obtain ⟨hnew, hnot⟩ := h.unlent x hmem res hres
  have hid : res.id = x := h.wellFormed.keyed hres
  have hne : x ≠ id := by
    rintro rfl
    rw [h.gone] at hres
    cases hres
  obtain ⟨⟨p, hpayload⟩, hhook, -⟩ := h.lends.stray hnew hne hres
  have hback {y : ResourceId} {res' : Resource}
      (hy : (s.remove res).resource? y = some res') : y ≠ x ∧ s.resource? y = some res' := by
    rw [resource?_remove, hid] at hy
    split at hy
    · cases hy
    · exact ⟨‹_›, hy⟩
  have hedit : Edit False 0 ⟨s, 0, 0⟩ ⟨s.remove res, 0 + res.storage.heldIds, 0⟩ :=
    .remove hres fun hfalse => hfalse.elim
  have hl : (s.remove res).supply.Lasts := by
    rw [supply_remove]
    exact h.lasts
  refine ⟨by rw [hpayload]; rfl, hedit.wellFormed h.wellFormed hl, hl, h.indexed, ?_, ?_, ?_,
    h.overlays.remove h.wellFormed h.indexed hres hnew hhook⟩
  · rw [resource?_remove, hid, if_neg hne.symm, h.gone]
  · refine (h.lends.remove (hid ▸ hnew) (hid ▸ hnot)).settle fun y hy _ res' hres' => ?_
    obtain ⟨hyx, hres'⟩ := hback hres'
    exact .inr ((hrest y hy (by rw [hres']; simp)).resolve_left hyx)
  · intro y hy res' hres'
    have hsub : y ∈ waiting := by
      refine (List.dropWhile_sublist (fun id => (s.resource? id).isNone)).subset ?_
      rw [show waiting.dropWhile _ = s.nextLive waiting from rfl, hnext]
      exact List.mem_cons_of_mem _ hy
    exact h.unlent y hsub res' (hback hres').2

/-- If nothing that waits is live, nothing waits. -/
theorem settle (h : r.Unwinding s id loans waiting)
    (hnone : ∀ x ∈ waiting, s.resource? x = none) : r.Unwinding s id loans [] := by
  refine ⟨h.wellFormed, h.lasts, h.indexed, h.gone, h.lends.settle fun x hx _ res hres => ?_,
    by simp, h.overlays⟩
  rw [hnone x hx] at hres
  cases hres

/-- A cascade with enough rounds removes all that waits. -/
theorem cascade {n : Nat} (h : r.Unwinding s id loans waiting) (hn : s.size ≤ n) :
    r.Unwinding (cascade n waiting s) id loans [] := by
  induction n generalizing s waiting with
  | zero =>
    refine h.settle fun x _ => Option.eq_none_iff_forall_ne_some.mpr fun res hres => ?_
    exact absurd (size_pos hres) (Nat.not_lt_of_le hn)
  | succ n ih =>
    unfold Registry.cascade
    cases hnext : s.nextLive waiting with
    | nil => exact h.settle (resource?_of_nextLive_nil hnext)
    | cons x rest =>
      obtain ⟨res, hres⟩ := Option.ne_none_iff_exists'.mp (mem_of_nextLive_cons hnext).1
      obtain ⟨hnil, hremoved⟩ := h.remove hnext hres
      have hsize := size_remove h.wellFormed.isKeyed hres
      dsimp only
      rw [hres]
      dsimp only
      rw [hnil]
      show r.Unwinding (Registry.cascade n rest (s.remove res)) id loans []
      exact ih hremoved (by omega)

/-- When everything was undone, the registry is what it was. -/
theorem restores (h : r.Unwinding s id 0 []) (hw : r.WellFormed) : r.Restores s := by
  have hsame := h.lends.resource?_eq hw h.gone
  have hnone : ∀ x, r.supply.issued < x.toNat → s.resource? x = none := by
    intro x hx
    rw [hsame]
    refine Option.eq_none_iff_forall_ne_some.mpr fun res hres => ?_
    exact absurd (hw.numbered hres).2 (Nat.not_le_of_lt hx)
  exact ⟨hsame, h.overlays.listed_eq hnone, h.overlays.cache_eq hnone, h.overlays.journal⟩

end Unwinding

namespace Trial

variable {r s s' : Registry} {id x : ResourceId} {schema : Schema}
  {hand : Multiset ResourceId} {loose : List ResourceId} {res : Resource}

/-- A trial begins when the instance is entered with bytes that hold nothing. -/
theorem start (hw : r.WellFormed) (hi : r.IndexesIssued) {bytes : Bytes} {options : Options}
    (hsound : schema.layout.IsSound) (hblank : schema.layout.IsBlank bytes)
    (huncached : r.cached? schema.name options.cacheKey? = none)
    (htext : schema.name = stringType → ∀ text, options.cacheKey? ≠ some (.text text))
    (hl : (r.enterInstance schema bytes options).2.supply.Lasts) :
    r.Trial (r.enterInstance schema bytes options).2 r.supply.nextId schema 0 [] := by
  have hl₀ : r.supply.Lasts := .of_draw hl
  have he := enters_insert r schema.name (.fields schema bytes) { options with hook? := none }
  have hnew : r.supply.issued < r.supply.nextId.toNat := by
    rw [Supply.toNat_nextId hl₀]
    exact Nat.lt_succ_self _
  have henter := edit_enterInstance hsound hblank huncached True 0 0 0
  refine ⟨henter.wellFormed hw hl, hl, hi, hnew, ⟨_, bytes, he.found, rfl, ⟨rfl, htext⟩, ?_⟩, ?_⟩
  · rw [hblank.2]
    exact .start hw hl₀ he
  · exact (Overlays.refl hw).enter he (hw.resource?_nextId hl₀) hnew hi huncached

/-- A reference is taken into the hand. -/
theorem retain (h : r.Trial s id schema hand loose) (hx : s.resource? x = some res) (hne : x ≠ id)
    (hroom : res.refCount < Resource.maxRefCount)
    (hkept : x.toNat ≤ r.supply.issued → 0 < r.countOf x) :
    r.Trial (s.modifyResource x Resource.retained) id schema (x ::ₘ hand) loose := by
  obtain ⟨holder, bytes, hholder, hstorage, hbare, hlends⟩ := h.found
  have hl : (s.modifyResource x Resource.retained).supply.Lasts := by
    rw [supply_modifyResource]
    exact h.lasts
  have hedit : Edit True 0 ⟨s, 0, 0⟩
      ⟨s.modifyResource x Resource.retained, x ::ₘ 0, x ::ₘ 0⟩ := .retain hx
  refine ⟨hedit.wellFormed h.wellFormed hl, hl, h.indexed, h.new,
    ⟨holder, bytes, ?_, hstorage, hbare, ?_⟩,
    h.overlays.modifyResource x (fun _ => rfl) fun _ => rfl⟩
  · rw [resource?_modifyResource, if_neg hne.symm, hholder]
  · rw [Multiset.add_cons]
    exact hlends.retain hx hne hroom hkept

/-- References are taken into the hand, one after another. -/
theorem retainAll {targets : List ResourceId} (h : r.Trial s id schema hand loose)
    (hlive : ∀ x ∈ targets, ∃ res, s.resource? x = some res) (hne : id ∉ targets)
    (hroom : ∀ x ∈ targets, s.countOf x + targets.count x ≤ Resource.maxRefCount)
    (hkept : ∀ x ∈ targets, x.toNat ≤ r.supply.issued → 0 < r.countOf x) :
    r.Trial (retainAll targets s) id schema (targets + hand) loose := by
  induction targets generalizing s hand with
  | nil => simpa [Registry.retainAll] using h
  | cons x rest ih =>
    obtain ⟨res, hres⟩ := hlive x List.mem_cons_self
    have hcount : s.countOf x = res.refCount := by
      unfold countOf
      rw [hres]
      rfl
    have hfirst : res.refCount < Resource.maxRefCount := by
      have := hroom x List.mem_cons_self
      rw [List.count_cons_self, hcount] at this
      omega
    have hone := h.retain hres (fun heq => hne (heq ▸ List.mem_cons_self)) hfirst
      (hkept x List.mem_cons_self)
    have hrest := ih hone (fun y hy => ?_) (fun hmem => hne (List.mem_cons_of_mem _ hmem))
      (fun y hy => ?_) fun y hy => hkept y (List.mem_cons_of_mem _ hy)
    · rwa [Multiset.add_cons, ← Multiset.cons_add, Multiset.cons_coe] at hrest
    · obtain ⟨_, hy⟩ := hlive y (List.mem_cons_of_mem _ hy)
      obtain ⟨_, hy⟩ := (recounted_retained s x).resources hy
      exact ⟨_, hy⟩
    · have hbound := hroom y (List.mem_cons_of_mem _ hy)
      unfold countOf at hbound ⊢
      rw [resource?_modifyResource]
      split
      · rename_i heq
        subst heq
        rw [List.count_cons_self, hres] at hbound
        rw [hres]
        have hmin : min (res.refCount + 1) Resource.maxRefCount ≤ res.refCount + 1 :=
          Nat.min_le_left _ _
        show min (res.refCount + 1) Resource.maxRefCount + _ ≤ _
        have : res.refCount + (rest.count y + 1) ≤ Resource.maxRefCount := hbound
        omega
      · rename_i heq
        rwa [List.count_cons_of_ne (Ne.symm heq)] at hbound

/-- A reference in the hand is given back. If it was the last one, its target is removed. -/
theorem release (h : r.Trial s id schema (x ::ₘ hand) []) :
    r.Trial (s.release x) id schema hand [] := by
  obtain ⟨holder, bytes, hholder, hstorage, hbare, hlends⟩ := h.found
  rw [Multiset.add_cons] at hlends
  obtain ⟨hne, res, hres⟩ := hlends.live (Multiset.mem_cons_self x _)
  have hl : (s.modifyResource x Resource.released).supply.Lasts := by
    rw [supply_modifyResource]
    exact h.lasts
  have hedit : Edit True 0 ⟨s, x ::ₘ 0, 0⟩
      ⟨s.modifyResource x Resource.released, 0, 0⟩ := .release hres
  have hw := hedit.wellFormed h.wellFormed hl
  have hover := h.overlays.modifyResource x (f := Resource.released) (fun _ => rfl) fun _ => rfl
  have hfound : (s.modifyResource x Resource.released).resource? id = some holder := by
    rw [resource?_modifyResource, if_neg hne.symm, hholder]
  have hreleased := hlends.release
  have hgiven : s.release x =
      if 1 < res.refCount then s.modifyResource x Resource.released
      else (s.modifyResource x Resource.released).destroy x := by
    have hends := ends_dispose x s
    unfold Registry.release
    cases hrun : (dispose x).run s with
    | error e after =>
      rw [(hends.of_error hrun).1] at hres
      cases hres
    | ok gone after =>
      obtain ⟨res', hres', ⟨-, hcount, rfl⟩ | ⟨-, hcount, rfl⟩⟩ := hends.of_ok hrun
      · cases hres.symm.trans hres'
        rw [if_pos hcount]
      · cases hres.symm.trans hres'
        rw [if_neg (Nat.not_lt_of_le hcount)]
  rw [hgiven]
  split
  · rename_i hcount
    refine ⟨hw, hl, h.indexed, h.new, ⟨holder, bytes, hfound, hstorage, hbare, ?_⟩, hover⟩
    refine hreleased.settle fun y hy hnew res' hres' => .inl ?_
    obtain rfl := List.mem_singleton.mp hy
    have heq := (hlends.stray hnew hne hres).2.2
    rw [Multiset.count_cons_self] at heq
    exact Multiset.count_pos.mp (by omega)
  · rename_i hcount
    have hnew : r.supply.issued < x.toNat := by
      by_contra hold
      have := hlends.two_le_refCount (Multiset.mem_cons_self x _) (Nat.le_of_not_lt hold) hres
      omega
    obtain ⟨⟨p, hpayload⟩, hxhook, heq⟩ := hlends.stray hnew hne hres
    have hnot : x ∉ (schema.layout.heldIds bytes : Multiset ResourceId) + hand := by
      rw [Multiset.count_cons_self] at heq
      exact Multiset.count_eq_zero.mp (by omega)
    have hx : (s.modifyResource x Resource.released).resource? x = some res.released := by
      rw [resource?_modifyResource, if_pos rfl, hres]
      rfl
    have hid : res.released.id = x := hw.keyed hx
    have hremove : Edit False 0 ⟨s.modifyResource x Resource.released, 0, 0⟩
        ⟨(s.modifyResource x Resource.released).remove res.released,
          0 + res.released.storage.heldIds, 0⟩ := .remove hx fun hfalse => hfalse.elim
    have hl' : ((s.modifyResource x Resource.released).remove res.released).supply.Lasts := by
      rw [supply_remove]
      exact hl
    rw [destroy_payload hx hpayload]
    refine ⟨hremove.wellFormed hw hl', hl', h.indexed, h.new,
      ⟨holder, bytes, ?_, hstorage, hbare, ?_⟩, hover.remove hw h.indexed hx hnew hxhook⟩
    · rw [resource?_remove, hid, if_neg hne.symm, hfound]
    · refine (hreleased.remove (hid.symm ▸ hnew) (hid.symm ▸ hnot)).settle fun y hy _ res' hres' => ?_
      rw [List.mem_singleton.mp hy, resource?_remove, if_pos hid.symm] at hres'
      cases hres'

/-- References in the hand are given back, one after another. -/
theorem releaseAll {targets : List ResourceId} (h : r.Trial s id schema (targets + hand) []) :
    r.Trial (targets.foldl Registry.release s) id schema hand [] := by
  induction targets generalizing s with
  | nil => simpa using h
  | cons x rest ih =>
    rw [← Multiset.cons_coe, Multiset.cons_add] at h
    exact ih h.release

/-- The bytes of a property are replaced. What they held goes to the hand, and what the new ones
hold comes from there. -/
theorem store (h : r.Trial s id schema hand loose) (hres : s.resource? id = some res)
    {bytes part : Bytes} {prop : Property} {hand' : Multiset ResourceId}
    (hstorage : res.storage = .fields schema bytes) (hprop : prop ∈ schema.layout.props)
    (hpart : part.length = (prop.slice bytes).length)
    (hmoved : hand' + prop.heldIds part = hand + prop.heldIds (prop.slice bytes)) :
    r.Trial (s.storeBytes id prop part) id schema hand' loose := by
  obtain ⟨holder, bytes', hholder, hstorage', hbare, hlends⟩ := h.found
  cases hres.symm.trans hholder
  cases hstorage.symm.trans hstorage'
  have hsound := h.wellFormed.sound hres
  rw [hstorage] at hsound
  obtain ⟨hlayout, hlength⟩ := hsound
  have hslice : part.length = prop.length := hpart.trans (hlayout.length_slice hprop hlength)
  have hlookup := resource?_storeBytes hres hstorage prop part
  have hloans : (schema.layout.heldIds (prop.splice bytes part) : Multiset ResourceId) + hand' =
      schema.layout.heldIds bytes + hand := by
    have hsplice := Layout.heldIds_splice hlayout hprop hlength hslice
    refine add_right_cancel (b := (prop.heldIds (prop.slice bytes) : Multiset ResourceId) +
      prop.heldIds part) ?_
    calc
      _ = ((schema.layout.heldIds (prop.splice bytes part) : Multiset ResourceId) +
            prop.heldIds (prop.slice bytes)) + (hand' + prop.heldIds part) := by abel
      _ = _ := by rw [hsplice, hmoved]; abel
  refine ⟨⟨fun {x res'} hx => ?_, fun {x res'} hx => ?_, fun {x res'} hx => ?_,
      fun {x res'} hx => ?_⟩, by rw [supply_storeBytes]; exact h.lasts, h.indexed, h.new,
    ⟨_, prop.splice bytes part, (hlookup id).trans (if_pos rfl), rfl, ⟨hbare.hook, hbare.text⟩, ?_⟩,
    h.overlays.modifyResource id (fun res => ?_) fun res => ?_⟩
  · rw [hlookup] at hx
    split at hx
    · cases hx
      rename_i heq
      show res.id = x
      rw [heq]
      exact h.wellFormed.keyed hres
    · exact h.wellFormed.keyed hx
  · rw [supply_storeBytes]
    rw [hlookup] at hx
    split at hx
    · rename_i heq
      exact heq ▸ h.wellFormed.numbered hres
    · exact h.wellFormed.numbered hx
  · rw [hlookup] at hx
    split at hx
    · cases hx
      exact ⟨hlayout, hlayout.length_splice hprop hlength hslice⟩
    · exact h.wellFormed.sound hx
  · rw [hlookup] at hx
    split at hx
    · cases hx
      rintro _ _ ⟨⟩
      exact h.wellFormed.named hres schema bytes hstorage
    · exact h.wellFormed.named hx
  · rw [hloans]
    exact hlends.congr h.new fun x hx => (hlookup x).trans (if_neg hx)
  · split <;> rfl
  · split <;> rfl

/-- A payload is entered. It is loose until a reference on it is taken. -/
theorem enter (h : r.Trial s id schema hand loose) (he : s.Enters s' res) (hw : s'.WellFormed)
    (hl : s'.supply.Lasts) (hpayload : ∃ p, res.storage = .payload p) (hhook : res.hook? = none)
    (hzero : res.refCount = 0) (huncached : s.cached? res.type res.cacheKey? = none) :
    r.Trial s' id schema hand (s.supply.nextId :: loose) := by
  obtain ⟨holder, bytes, hholder, hstorage, hbare, hlends⟩ := h.found
  have hfree := h.wellFormed.resource?_nextId h.lasts
  have hnew : r.supply.issued < s.supply.nextId.toNat := by
    rw [Supply.toNat_nextId h.lasts]
    exact Nat.lt_succ_of_lt (h.new.trans_le (h.wellFormed.numbered hholder).2)
  have hne : id ≠ s.supply.nextId := ne_nextId (h.wellFormed.numbered hholder).2 h.lasts
  exact ⟨hw, hl, h.indexed, h.new,
    ⟨holder, bytes, (he.others id hne).trans hholder, hstorage, hbare,
      hlends.enter he hfree hnew hpayload hhook hzero⟩,
    h.overlays.enter he hfree hnew h.indexed huncached⟩

/-- What is referenced is not loose. -/
theorem settle (h : r.Trial s id schema hand loose) (hsub : ∀ x ∈ loose, x ∈ hand) :
    r.Trial s id schema hand [] := by
  obtain ⟨holder, bytes, hholder, hstorage, hbare, hlends⟩ := h.found
  exact ⟨h.wellFormed, h.lasts, h.indexed, h.new, ⟨holder, bytes, hholder, hstorage, hbare,
    hlends.settle fun x hx _ _ _ => .inl (Multiset.mem_add.mpr (.inr (hsub x hx)))⟩, h.overlays⟩

/-- Destroying an instance on trial undoes all that its creation did. -/
theorem destroy (h : r.Trial s id schema 0 []) (hw : r.WellFormed) : r.Restores (s.destroy id) := by
  obtain ⟨holder, bytes, hholder, hstorage, hbare, hlends⟩ := h.found
  have hid : holder.id = id := h.wellFormed.keyed hholder
  obtain ⟨n, hsize, hdestroy⟩ := destroy_of_some hholder
  have hremove : Edit False 0 ⟨s, 0, 0⟩ ⟨s.remove holder, 0 + holder.storage.heldIds, 0⟩ :=
    .remove hholder fun hfalse => hfalse.elim
  have hl : (s.remove holder).supply.Lasts := by
    rw [supply_remove]
    exact h.lasts
  have hlookup := resource?_remove holder s
  rw [hid] at hlookup
  have hunwinding : r.Unwinding (s.remove holder) id (holder.storage.heldRefs.map HeldRef.id + 0)
      [] := by
    refine ⟨hremove.wellFormed h.wellFormed hl, hl, h.indexed, (hlookup id).trans (if_pos rfl), ?_,
      by simp, h.overlays.remove h.wellFormed h.indexed hholder h.new hbare.hook⟩
    rw [holder.storage.map_id_heldRefs, hstorage]
    exact hlends.congr h.new fun x hx => (hlookup x).trans (if_neg hx)
  have hcount : (holder.storage.heldRefs.foldl dropHeld (s.remove holder, [])).1.size = n := by
    have := size_remove h.wellFormed.isKeyed hholder
    rw [size_foldl_dropHeld]
    show (s.remove holder).size = n
    omega
  rw [hdestroy]
  exact (hunwinding.foldl_dropHeld.cascade hcount.le).restores hw

end Trial

end Registry

end Framecast
