import Framecast.Proofs.Registry.Dropping
import Framecast.Proofs.Registry.Steady

/-!
# Disposals as chains of elementary changes

A cascade removes what nothing references any more and gives back, one by one,
the references that the removed resources held. It moves no reference of anybody
else.
-/

namespace Framecast

namespace Registry

variable {strict : Prop} {writer : ResourceId} {r : Registry} {outside taken : Multiset ResourceId}

/-- Whether nothing references the live resources of a worklist. -/
def IsUnreferenced (r : Registry) (worklist : List ResourceId) : Prop :=
  ∀ id ∈ worklist, ∀ res, r.resource? id = some res → res.refCount = 0

/-- Dropping a held reference gives it back. -/
theorem edit_dropHeld (state : Registry × List ResourceId) (held : HeldRef) :
    Edit strict writer ⟨state.1, held.id ::ₘ outside, taken⟩
      ⟨(dropHeld state held).1, outside, taken⟩ := by
  unfold dropHeld
  cases h : state.1.resource? held.id with
  | none => exact .drop h
  | some target =>
    dsimp only
    split <;> exact .release h

/-- A worklist stays unreferenced when a reference is dropped. -/
theorem isUnreferenced_dropHeld {state : Registry × List ResourceId}
    (h : state.1.IsUnreferenced state.2) (held : HeldRef) :
    (dropHeld state held).1.IsUnreferenced (dropHeld state held).2 := by
  intro id hid res hres
  have hentered := (mem_dropHeld state held id).mp hid
  rw [resource?_dropHeld] at hres
  split at hres
  · obtain ⟨old, hold, rfl⟩ := Option.map_eq_some_iff.mp hres
    have hle : old.refCount ≤ 1 := by
      rcases hentered with hid | ⟨-, res, hres, hle⟩
      · rw [h id hid old hold]
        exact Nat.zero_le 1
      · rw [hold] at hres
        cases hres
        exact hle
    exact Nat.sub_eq_zero_of_le hle
  · rcases hentered with hid | ⟨hself, -⟩
    · exact h id hid res hres
    · contradiction

/-- Dropping held references gives them back and keeps the worklist unreferenced. -/
theorem edits_foldl_dropHeld (held : List HeldRef) (state : Registry × List ResourceId)
    (h : strict → state.1.IsUnreferenced state.2) :
    Edits strict writer ⟨state.1, outside + (held.map HeldRef.id : List ResourceId), taken⟩
        ⟨(held.foldl dropHeld state).1, outside, taken⟩ ∧
      (strict → (held.foldl dropHeld state).1.IsUnreferenced (held.foldl dropHeld state).2) := by
  induction held generalizing state with
  | nil => simpa using ⟨Relation.ReflTransGen.refl, h⟩
  | cons one rest ih =>
    obtain ⟨hrest, hzero⟩ := ih _ fun hs => isUnreferenced_dropHeld (h hs) one
    refine ⟨.head ?_ hrest, hzero⟩
    rw [List.map_cons, ← Multiset.cons_coe, Multiset.add_cons]
    exact edit_dropHeld state one

/-- A cascade over an unreferenced worklist is a chain of elementary changes. -/
theorem edits_cascade (n : Nat) {worklist : List ResourceId}
    (h : strict → r.IsUnreferenced worklist) :
    Edits strict writer ⟨r, outside, taken⟩ ⟨cascade n worklist r, outside, taken⟩ := by
  induction n generalizing worklist r with
  | zero => exact .refl
  | succ n ih =>
    unfold cascade
    cases hlive : r.nextLive worklist with
    | nil => exact .refl
    | cons id rest =>
      have hsub : ∀ x ∈ id :: rest, x ∈ worklist := by
        rw [← hlive]
        exact fun x hx => (List.dropWhile_sublist _).subset hx
      dsimp only
      cases hid : r.resource? id with
      | none => exact .refl
      | some res =>
        have hremoved : strict → (r.remove res).IsUnreferenced rest := by
          intro hs x hx res' hres'
          rw [resource?_remove] at hres'
          split at hres'
          · cases hres'
          · exact h hs x (hsub x (List.mem_cons_of_mem _ hx)) res' hres'
        have hdropped : Edits strict writer
              ⟨r.remove res, outside + (res.storage.heldRefs.map HeldRef.id : List ResourceId), taken⟩
              ⟨(res.storage.heldRefs.foldl dropHeld (r.remove res, rest)).1, outside, taken⟩ ∧ _ :=
          edits_foldl_dropHeld res.storage.heldRefs (r.remove res, rest) hremoved
        have hfirst : Edit strict writer ⟨r, outside, taken⟩ ⟨r.remove res,
            outside + (res.storage.heldRefs.map HeldRef.id : List ResourceId), taken⟩ := by
          rw [res.storage.map_id_heldRefs]
          exact .remove hid fun hs => h hs id (hsub id List.mem_cons_self) res hid
        exact .head hfirst (hdropped.1.trans (ih hdropped.2))

/-- Destroying what nothing references is a chain of elementary changes. -/
theorem edits_destroy {id : ResourceId}
    (h : strict → ∀ res, r.resource? id = some res → res.refCount = 0) :
    Edits strict writer ⟨r, outside, taken⟩ ⟨r.destroy id, outside, taken⟩ := by
  apply edits_cascade
  intro hs x hx
  rw [List.mem_singleton.mp hx]
  exact h hs

/-- Destroying what is not there does nothing. -/
theorem destroy_of_none {id : ResourceId} (h : r.resource? id = none) : r.destroy id = r := by
  unfold destroy
  cases r.size with
  | zero => rfl
  | succ n =>
    have hlive : r.nextLive [id] = [] := by simp [nextLive, h]
    unfold cascade
    rw [hlive]

/-- Destroying a live resource removes it, gives back what it held, and goes on from there. -/
theorem destroy_of_some {id : ResourceId} {res : Resource} (h : r.resource? id = some res) :
    ∃ n, r.size = n + 1 ∧ r.destroy id =
      cascade n (res.storage.heldRefs.foldl dropHeld (r.remove res, [])).2
        (res.storage.heldRefs.foldl dropHeld (r.remove res, [])).1 := by
  obtain ⟨n, hn⟩ := Nat.exists_eq_succ_of_ne_zero (size_pos h).ne'
  have hlive : r.nextLive [id] = [id] := by simp [nextLive, h]
  refine ⟨n, hn, ?_⟩
  unfold destroy
  rw [hn]
  conv_lhs => unfold cascade
  simp only [hlive, h]

/-- Destroying a payload removes it. -/
theorem destroy_payload {id : ResourceId} {res : Resource} {p : Payload}
    (h : r.resource? id = some res) (hpayload : res.storage = .payload p) :
    r.destroy id = r.remove res := by
  obtain ⟨n, -, hn⟩ := destroy_of_some h
  rw [hn, hpayload]
  cases n <;> rfl

/-- What was destroyed is gone. -/
theorem resource?_destroy_self (hw : r.WellFormed) (hl : r.supply.Lasts) (id : ResourceId) :
    (r.destroy id).resource? id = none := by
  cases h : r.resource? id with
  | none => rw [destroy_of_none h, h]
  | some res =>
    obtain ⟨n, -, hn⟩ := destroy_of_some h
    have hgone : (r.remove res).resource? id = none := by
      rw [resource?_remove, if_pos (hw.keyed h).symm]
    have hremove : Edit False 0 ⟨r, 0, 0⟩ ⟨r.remove res, 0 + res.storage.heldIds, 0⟩ :=
      .remove h fun hfalse => hfalse.elim
    have hw' := hremove.wellFormed hw (by simpa using hl)
    have hchain : Edits False 0 ⟨r.remove res, 0 + (res.storage.heldRefs.map HeldRef.id : List _), 0⟩
        ⟨r.destroy id, 0, 0⟩ := by
      obtain ⟨hdropped, hzero⟩ := @edits_foldl_dropHeld False 0 0 0 res.storage.heldRefs
        (r.remove res, []) fun hfalse => hfalse.elim
      rw [hn]
      exact hdropped.trans (edits_cascade n hzero)
    cases hafter : (r.destroy id).resource? id with
    | none => rfl
    | some res' =>
      have hissued : id.toNat ≤ (r.remove res).supply.issued := by
        rw [supply_remove]
        exact (hw.numbered h).2
      obtain ⟨res₁, hres₁, -⟩ := hchain.changes.origin hw' (by simpa using hl) hissued hafter
      rw [hgone] at hres₁
      cases hres₁

/-- A disposal that takes the last reference away. -/
theorem run_dispose {id : ResourceId} {res : Resource} (h : r.resource? id = some res)
    (hcount : res.refCount ≤ 1) :
    (dispose id).run r = .ok true ((r.modifyResource id Resource.released).destroy id) := by
  have hends := ends_dispose id r
  cases hrun : (dispose id).run r with
  | error e after =>
    obtain ⟨hnone, -⟩ := hends.of_error hrun
    rw [h] at hnone
    cases hnone
  | ok gone after =>
    obtain ⟨found, hfound, ⟨-, hmore, -⟩ | ⟨rfl, -, rfl⟩⟩ := hends.of_ok hrun
    · rw [h] at hfound
      cases hfound
      omega
    · rfl

/-- A disposal that goes through to the end gives one reference back. -/
theorem edits_released_destroy {id : ResourceId} {res : Resource} (h : r.resource? id = some res)
    (hcount : res.refCount ≤ 1) :
    Edits strict writer ⟨r, id ::ₘ outside, taken⟩
      ⟨(r.modifyResource id Resource.released).destroy id, outside, taken⟩ := by
  refine .head (.release h) (edits_destroy ?_)
  intro _ res' hres'
  rw [resource?_modifyResource, if_pos rfl, h] at hres'
  cases hres'
  show res.refCount - 1 = 0
  omega

/-- Releasing a reference gives it back. -/
theorem edits_release (r : Registry) (id : ResourceId) :
    Edits strict writer ⟨r, id ::ₘ outside, taken⟩ ⟨r.release id, outside, taken⟩ := by
  have h := ends_dispose id r
  unfold release
  split
  · obtain ⟨res, hres, ⟨-, -, rfl⟩ | ⟨-, hcount, rfl⟩⟩ := h.of_ok ‹_›
    · exact .single (.release hres)
    · exact edits_released_destroy hres hcount
  · obtain ⟨hres, -, rfl⟩ := h.of_error ‹_›
    exact .single (.drop hres)

/-- Releasing references one after another gives them back. -/
theorem edits_foldl_release (ids : List ResourceId) (r : Registry) :
    Edits strict writer ⟨r, outside + (ids : Multiset ResourceId), taken⟩
      ⟨ids.foldl release r, outside, taken⟩ := by
  induction ids generalizing r with
  | nil => simpa using Relation.ReflTransGen.refl
  | cons id rest ih =>
    rw [← Multiset.cons_coe, Multiset.add_cons]
    exact (edits_release r id).trans (ih _)

end Registry

end Framecast
