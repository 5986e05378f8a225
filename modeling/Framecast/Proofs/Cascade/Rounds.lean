import Framecast.Proofs.Registry.Dropping

/-!
# The rounds of a cascade

A round takes the newest entry of the worklist. What is gone already is passed over;
what is live is removed, and each reference that it held is dropped. A round lowers
counts by what was held and enters what thereby loses its last reference. Every
removal leaves one live resource less, so the worklist runs empty within the bound
that a cascade is given.
-/

namespace Framecast

namespace Registry

/-- One round: a live resource is removed, and what it held is dropped. -/
def round (r : Registry) (res : Resource) (rest : List ResourceId) :
    Registry × List ResourceId :=
  res.storage.heldRefs.foldl dropHeld (r.remove res, rest)

/-- The worklist is worked off, however many rounds it takes. -/
inductive Works : List ResourceId → Registry → Registry → Prop
  /-- Nothing is left to do. -/
  | done (r : Registry) : Works [] r r
  /-- What is gone already is passed over. -/
  | skip {r after : Registry} {id : ResourceId} {rest : List ResourceId}
      (h : r.resource? id = none) (hrest : Works rest r after) : Works (id :: rest) r after
  /-- What is live is removed. -/
  | take {r after : Registry} {id : ResourceId} {res : Resource} {rest : List ResourceId}
      (h : r.resource? id = some res) (hrest : Works (r.round res rest).2 (r.round res rest).1 after) :
    Works (id :: rest) r after

variable {r s after : Registry} {id x : ResourceId} {res : Resource} {held : List HeldRef}
  {worklist rest : List ResourceId}

theorem count_heldRefs (res : Resource) (x : ResourceId) :
    (res.storage.heldRefs.map HeldRef.id).count x = (retainersIn x res).length := by
  rw [res.storage.map_id_heldRefs, length_retainersIn]

/-- A round removes a resource and lowers each count by the slots through which it held. -/
theorem resource?_round (r : Registry) (res : Resource) (rest : List ResourceId)
    (x : ResourceId) : (r.round res rest).1.resource? x =
      if x = res.id then none
      else (r.resource? x).map (Resource.lowered (retainersIn x res).length) := by
  unfold round
  rw [resource?_foldl_dropHeld, resource?_remove, count_heldRefs]
  split <;> rfl

/-- A round enters what the removed resource held last. -/
theorem mem_round (r : Registry) (res : Resource) (rest : List ResourceId) (x : ResourceId) :
    x ∈ (r.round res rest).2 ↔
      x ∈ rest ∨ x ≠ res.id ∧ 0 < (retainersIn x res).length ∧
        ∃ res', r.resource? x = some res' ∧ res'.refCount ≤ (retainersIn x res).length := by
  unfold round
  rw [mem_foldl_dropHeld, resource?_remove, count_heldRefs]
  by_cases hx : x = res.id <;> simp [hx]

theorem round_eq (r : Registry) (res : Resource) (rest : List ResourceId) :
    ∃ resources, (r.round res rest).1 = { r.remove res with resources } :=
  foldl_dropHeld_eq _ _

/-- A registry goes on being keyed in a round. -/
theorem IsKeyed.round (h : r.IsKeyed) (res : Resource) (rest : List ResourceId) :
    (r.round res rest).1.IsKeyed := by
  intro x res' hres'
  rw [resource?_round] at hres'
  split at hres'
  · cases hres'
  · obtain ⟨old, hold, rfl⟩ := Option.map_eq_some_iff.mp hres'
    exact h x old hold

/-- A round leaves one live resource less. -/
theorem size_round (hkeyed : r.IsKeyed) (h : r.resource? id = some res)
    (rest : List ResourceId) : r.size = (r.round res rest).1.size + 1 := by
  unfold round
  rw [size_foldl_dropHeld]
  exact size_remove hkeyed h

/-- What is gone at the head of a worklist does not matter. -/
theorem Works.of_nextLive (h : Works (r.nextLive worklist) r after) : Works worklist r after := by
  induction worklist with
  | nil => exact h
  | cons id rest ih =>
    cases hid : r.resource? id with
    | none =>
      have hdrop : r.nextLive (id :: rest) = r.nextLive rest := by simp [nextLive, hid]
      exact .skip hid (ih (hdrop ▸ h))
    | some res =>
      have hkeep : r.nextLive (id :: rest) = id :: rest := by simp [nextLive, hid]
      exact hkeep ▸ h

/-- The first entry that matters is live. -/
theorem resource?_of_nextLive (h : r.nextLive worklist = id :: rest) :
    ∃ res, r.resource? id = some res := by
  have hfirst := List.head?_dropWhile_not (fun id => (r.resource? id).isNone) worklist
  unfold nextLive at h
  rw [h] at hfirst
  exact Option.isSome_iff_exists.mp (by simpa using hfirst)

/-- A cascade works its worklist off, if it is given as many rounds as resources are live. -/
theorem works_cascade {n : Nat} (hkeyed : r.IsKeyed) (hsize : r.size ≤ n)
    (worklist : List ResourceId) : Works worklist r (cascade n worklist r) := by
  induction n generalizing worklist r with
  | zero =>
    apply Works.of_nextLive
    cases hlive : r.nextLive worklist with
    | nil => exact .done r
    | cons id rest =>
      obtain ⟨res, hres⟩ := resource?_of_nextLive hlive
      have := size_pos hres
      omega
  | succ n ih =>
    apply Works.of_nextLive
    unfold cascade
    cases hlive : r.nextLive worklist with
    | nil => exact .done r
    | cons id rest =>
      obtain ⟨res, hres⟩ := resource?_of_nextLive hlive
      have hless := size_round hkeyed hres rest
      simp only [hres]
      exact .take hres (ih (hkeyed.round res rest) (by omega) _)

theorem works_destroy (hkeyed : r.IsKeyed) (id : ResourceId) : Works [id] r (r.destroy id) :=
  works_cascade hkeyed (Nat.le_refl _) [id]

/-- Working a worklist off leaves no more resources live than there were. -/
theorem Works.size_le (h : Works worklist r after) (hkeyed : r.IsKeyed) : after.size ≤ r.size := by
  induction h with
  | done => exact Nat.le_refl _
  | skip _ _ ih => exact ih hkeyed
  | take hres _ ih =>
    have hless := size_round hkeyed hres
    have hrest := ih (hkeyed.round _ _)
    exact hrest.trans (by rw [hless]; exact Nat.le_succ _)

/-- Destroying a live resource leaves fewer. -/
theorem size_destroy_lt (hkeyed : r.IsKeyed) (h : r.resource? id = some res) :
    (r.destroy id).size < r.size := by
  cases works_destroy hkeyed id with
  | skip hnone _ =>
    rw [h] at hnone
    cases hnone
  | take hres hrest =>
    have hless := size_round hkeyed hres []
    have hworked := hrest.size_le (hkeyed.round _ _)
    omega

end Registry

end Framecast
