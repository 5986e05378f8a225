import Framecast.Proofs.Accounts.Balance
import Framecast.Proofs.Undo.Overlay

/-!
# References on loan

While an instance is being filled, references are taken on what was there before
and on payloads that are new. All of them are on loan: what was there before has
as many references more as were taken on it, and a new payload has no others.
When all loans are given back and all that is new is gone, every resource is what
it was.
-/

namespace Framecast

/-- A resource with some references more. -/
def Resource.lent (res : Resource) (n : Nat) : Resource :=
  { res with refCount := res.refCount + n }

@[simp] theorem Resource.lent_zero (res : Resource) : res.lent 0 = res := rfl

/-- One reference more is taken, if there is room for it. -/
theorem Resource.retained_lent {res : Resource} {n : Nat}
    (h : (res.lent n).refCount < maxRefCount) : (res.lent n).retained = res.lent (n + 1) := by
  have hroom : min ((res.lent n).refCount + 1) maxRefCount = res.refCount + (n + 1) :=
    Nat.min_eq_left h
  unfold retained
  rw [hroom]
  rfl

namespace Registry

/-- A registry `s` in which the instance `id` is being filled, and what has become of the resources
of `r` since. `loans` are the references that were taken; `loose` are new resources on which none
may be left. -/
structure Lends (r s : Registry) (id : ResourceId) (loans : Multiset ResourceId)
    (loose : List ResourceId) : Prop where
  /-- What was there before has the references more that were taken on it. -/
  old : ∀ {x}, x.toNat ≤ r.supply.issued →
    s.resource? x = (r.resource? x).map (·.lent (loans.count x))
  /-- What is new, but for the instance, is a payload without a hook, and all references on it were
  taken since. -/
  stray : ∀ {x res}, r.supply.issued < x.toNat → x ≠ id → s.resource? x = some res →
    (∃ p, res.storage = .payload p) ∧ res.hook? = none ∧ res.refCount = loans.count x
  /-- What is new is referenced, or it is loose. -/
  held : ∀ {x res}, r.supply.issued < x.toNat → x ≠ id → s.resource? x = some res →
    x ∈ loans ∨ x ∈ loose
  /-- References were taken on live resources, and not on the instance. -/
  live : ∀ {x}, x ∈ loans → x ≠ id ∧ ∃ res, s.resource? x = some res
  /-- What was there before had a reference when the first one more was taken on it. -/
  kept : ∀ {x}, x ∈ loans → x.toNat ≤ r.supply.issued → 0 < r.countOf x

namespace Lends

variable {r s s' : Registry} {id x : ResourceId} {loans : Multiset ResourceId}
  {loose : List ResourceId} {res : Resource}

/-- When the instance was entered, nothing is on loan. -/
theorem start (hw : r.WellFormed) (hl : r.supply.Lasts) (he : r.Enters s res) :
    r.Lends s r.supply.nextId 0 [] := by
  have hgone {x : ResourceId} (hx : r.supply.issued < x.toNat) (hne : x ≠ r.supply.nextId) :
      s.resource? x = none := by
    rw [he.others x hne]
    refine Option.eq_none_iff_forall_ne_some.mpr fun res hres => ?_
    exact absurd (hw.numbered hres).2 (Nat.not_le_of_lt hx)
  refine ⟨fun {x} hx => ?_, fun hx hne hres => ?_, fun hx hne hres => ?_, ?_, ?_⟩
  · rw [he.others x (ne_nextId hx hl), Multiset.count_zero]
    exact Option.map_id'.symm
  · rw [hgone hx hne] at hres
    cases hres
  · rw [hgone hx hne] at hres
    cases hres
  · exact fun h => absurd h (Multiset.notMem_zero _)
  · exact fun h => absurd h (Multiset.notMem_zero _)

/-- Loose is only what may be without a reference. -/
theorem settle (h : r.Lends s id loans loose) {loose' : List ResourceId}
    (hsub : ∀ x ∈ loose, r.supply.issued < x.toNat → ∀ res, s.resource? x = some res →
      x ∈ loans ∨ x ∈ loose') : r.Lends s id loans loose' := by
  refine ⟨h.old, h.stray, fun {x res} hx hne hres => ?_, h.live, h.kept⟩
  rcases h.held hx hne hres with hmem | hmem
  · exact .inl hmem
  · exact hsub x hmem hx res hres

/-- What happens to the instance alone is no matter of loans. -/
theorem congr (h : r.Lends s id loans loose) (hnew : r.supply.issued < id.toNat)
    (hsame : ∀ x, x ≠ id → s'.resource? x = s.resource? x) : r.Lends s' id loans loose := by
  refine ⟨fun {x} hx => ?_, fun hx hne hres => ?_, fun hx hne hres => ?_, fun {x} hx => ?_, h.kept⟩
  · rw [hsame x (by rintro rfl; omega)]
    exact h.old hx
  · rw [hsame _ hne] at hres
    exact h.stray hx hne hres
  · rw [hsame _ hne] at hres
    exact h.held hx hne hres
  · obtain ⟨hne, hlive⟩ := h.live hx
    rw [hsame x hne]
    exact ⟨hne, hlive⟩

/-- A reference is taken on loan. -/
theorem retain (h : r.Lends s id loans loose) (hx : s.resource? x = some res) (hne : x ≠ id)
    (hroom : res.refCount < Resource.maxRefCount)
    (hkept : x.toNat ≤ r.supply.issued → 0 < r.countOf x) :
    r.Lends (s.modifyResource x Resource.retained) id (x ::ₘ loans) loose := by
  have hlookup := resource?_modifyResource s x Resource.retained
  refine ⟨fun {y} hy => ?_, fun {y res'} hy hyne hres => ?_, fun {y res'} hy hyne hres => ?_,
    fun {y} hy => ?_, fun {y} hy hold => ?_⟩
  · rw [hlookup]
    split
    · rename_i heq
      subst heq
      have hlent := h.old hy
      rw [hx] at hlent
      obtain ⟨base, hbase, rfl⟩ := Option.map_eq_some_iff.mp hlent.symm
      rw [hx, hbase, Multiset.count_cons_self]
      exact congrArg some (Resource.retained_lent hroom)
    · rename_i heq
      rw [Multiset.count_cons_of_ne heq]
      exact h.old hy
  · rw [hlookup] at hres
    split at hres
    · rename_i heq
      subst heq
      rw [hx] at hres
      cases hres
      obtain ⟨hpayload, hhook, hcount⟩ := h.stray hy hyne hx
      refine ⟨hpayload, hhook, ?_⟩
      rw [Multiset.count_cons_self, ← hcount]
      exact Nat.min_eq_left hroom
    · rename_i heq
      rw [Multiset.count_cons_of_ne heq]
      exact h.stray hy hyne hres
  · rw [hlookup] at hres
    split at hres
    · rename_i heq
      exact .inl (heq ▸ Multiset.mem_cons_self x loans)
    · exact (h.held hy hyne hres).imp_left Multiset.mem_cons_of_mem
  · rw [hlookup]
    rcases Multiset.mem_cons.mp hy with rfl | hy
    · rw [if_pos rfl, hx]
      exact ⟨hne, _, rfl⟩
    · obtain ⟨hyne, res', hres'⟩ := h.live hy
      refine ⟨hyne, ?_⟩
      split
      · rw [hx]
        exact ⟨_, rfl⟩
      · exact ⟨res', hres'⟩
  · rcases Multiset.mem_cons.mp hy with rfl | hy
    · exact hkept hold
    · exact h.kept hy hold

/-- A loan is given back. What it was on may be loose then. -/
theorem release (h : r.Lends s id (x ::ₘ loans) loose) :
    r.Lends (s.modifyResource x Resource.released) id loans (x :: loose) := by
  have hlookup := resource?_modifyResource s x Resource.released
  obtain ⟨-, res, hx⟩ := h.live (Multiset.mem_cons_self x loans)
  refine ⟨fun {y} hy => ?_, fun {y res'} hy hyne hres => ?_, fun {y res'} hy hyne hres => ?_,
    fun {y} hy => ?_, fun {y} hy hold => h.kept (Multiset.mem_cons_of_mem hy) hold⟩
  · rw [hlookup]
    have hlent := h.old hy
    split
    · rename_i heq
      subst heq
      rw [hlent, Option.map_map, Multiset.count_cons_self]
      rfl
    · rename_i heq
      rwa [Multiset.count_cons_of_ne heq] at hlent
  · rw [hlookup] at hres
    split at hres
    · rename_i heq
      subst heq
      rw [hx] at hres
      cases hres
      obtain ⟨hpayload, hhook, hcount⟩ := h.stray hy hyne hx
      refine ⟨hpayload, hhook, ?_⟩
      rw [Multiset.count_cons_self] at hcount
      exact Nat.sub_eq_of_eq_add hcount
    · rename_i heq
      have hstray := h.stray hy hyne hres
      rwa [Multiset.count_cons_of_ne heq] at hstray
  · rw [hlookup] at hres
    split at hres
    · rename_i heq
      exact .inr (heq ▸ List.mem_cons_self)
    · rename_i heq
      rcases h.held hy hyne hres with hmem | hmem
      · exact .inl ((Multiset.mem_cons.mp hmem).resolve_left heq)
      · exact .inr (List.mem_cons_of_mem _ hmem)
  · obtain ⟨hyne, res', hres'⟩ := h.live (Multiset.mem_cons_of_mem hy)
    rw [hlookup]
    refine ⟨hyne, ?_⟩
    split
    · rw [hx]
      exact ⟨_, rfl⟩
    · exact ⟨res', hres'⟩

/-- A payload that is entered is loose. -/
theorem enter (h : r.Lends s id loans loose) (he : s.Enters s' res)
    (hfree : s.resource? s.supply.nextId = none) (hnew : r.supply.issued < s.supply.nextId.toNat)
    (hpayload : ∃ p, res.storage = .payload p) (hhook : res.hook? = none)
    (hzero : res.refCount = 0) : r.Lends s' id loans (s.supply.nextId :: loose) := by
  have hnot : s.supply.nextId ∉ loans := by
    intro hmem
    obtain ⟨-, res', hres'⟩ := h.live hmem
    rw [hfree] at hres'
    cases hres'
  refine ⟨fun {x} hx => ?_, fun {x res'} hx hne hres' => ?_, fun {x res'} hx hne hres' => ?_,
    fun {x} hx => ?_, h.kept⟩
  · rw [he.others x (by rintro rfl; omega)]
    exact h.old hx
  · by_cases hid : x = s.supply.nextId
    · subst hid
      cases he.found.symm.trans hres'
      exact ⟨hpayload, hhook, by rw [hzero, Multiset.count_eq_zero.mpr hnot]⟩
    · rw [he.others x hid] at hres'
      exact h.stray hx hne hres'
  · by_cases hid : x = s.supply.nextId
    · exact .inr (hid ▸ List.mem_cons_self)
    · rw [he.others x hid] at hres'
      exact (h.held hx hne hres').imp_right (List.mem_cons_of_mem _)
  · obtain ⟨hne, hlive⟩ := h.live hx
    rw [he.others x fun heq => hnot (heq ▸ hx)]
    exact ⟨hne, hlive⟩

/-- A new payload on which no reference is left can be removed. -/
theorem remove (h : r.Lends s id loans loose) (hnew : r.supply.issued < res.id.toNat)
    (hnot : res.id ∉ loans) : r.Lends (s.remove res) id loans loose := by
  have hback {y : ResourceId} {res' : Resource} (hy : (s.remove res).resource? y = some res') :
      s.resource? y = some res' := by
    rw [resource?_remove] at hy
    split at hy
    · cases hy
    · exact hy
  refine ⟨fun {x} hx => ?_, fun hx hne hres => h.stray hx hne (hback hres),
    fun hx hne hres => h.held hx hne (hback hres), fun {x} hx => ?_, h.kept⟩
  · rw [resource?_remove, if_neg (by rintro rfl; omega)]
    exact h.old hx
  · rw [resource?_remove, if_neg (by rintro rfl; exact hnot hx)]
    exact h.live hx

/-- A resource of before on which a reference is on loan has another one. -/
theorem two_le_refCount (h : r.Lends s id loans loose) (hx : x ∈ loans)
    (hold : x.toNat ≤ r.supply.issued) (hres : s.resource? x = some res) : 2 ≤ res.refCount := by
  have hpos := h.kept hx hold
  have hcount := Multiset.count_pos.mpr hx
  have hlent := h.old hold
  rw [hres] at hlent
  obtain ⟨base, hbase, rfl⟩ := Option.map_eq_some_iff.mp hlent.symm
  have hcountOf : r.countOf x = base.refCount := by
    unfold countOf
    rw [hbase]
    rfl
  show 2 ≤ base.refCount + loans.count x
  omega

/-- When nothing is on loan, nothing is loose and the instance is gone, every resource is what it
was. -/
theorem resource?_eq (h : r.Lends s id 0 []) (hw : r.WellFormed) (hgone : s.resource? id = none)
    (x : ResourceId) : s.resource? x = r.resource? x := by
  by_cases hx : x.toNat ≤ r.supply.issued
  · rw [h.old hx, Multiset.count_zero]
    exact Option.map_id'
  · have hold : r.resource? x = none := by
      refine Option.eq_none_iff_forall_ne_some.mpr fun res hres => ?_
      exact hx (hw.numbered hres).2
    rw [hold]
    by_cases hid : x = id
    · rw [hid, hgone]
    · refine Option.eq_none_iff_forall_ne_some.mpr fun res hres => ?_
      rcases h.held (Nat.lt_of_not_le hx) hid hres with hmem | hmem
      · exact Multiset.notMem_zero _ hmem
      · cases hmem

end Lends

end Registry

end Framecast
