import Framecast.Proofs.Guarded.Operations

/-!
# A guarded operation that never stops

`Follows` says that a guarded operation ends exactly as the operation that it guards,
with its answer or its failure and in the same state, so that no guard stops it. It
opens along the texts of the two, and says on the way what holds at either end.
-/

namespace Framecast

open Guarded

variable {α β : Type}

theorem Guarded.run_plainly (m : RegistryM α) (r : Registry) :
    (plainly m).run r = match m.run r with
      | .ok a after => .ok a after
      | .error e after => .error (.failure e) after := rfl

/-- From `r`, the guarded operation ends as the operation does: well as `good` says, or badly as
`bad` says. -/
def Follows (g : GuardedM α) (m : RegistryM α) (r : Registry) (good : α → Registry → Prop)
    (bad : Registry → Prop) : Prop :=
  Ends m r (fun a after => g.run r = .ok a after ∧ good a after)
    (fun e after => g.run r = .error (.failure e) after ∧ bad after)

namespace Follows

variable {g : GuardedM α} {m : RegistryM α} {r : Registry} {good good' : α → Registry → Prop}
  {bad bad' : Registry → Prop}

theorem ends (h : Follows g m r good bad) : Ends m r good (fun _ => bad) :=
  h.imp (fun _ _ h => h.2) fun _ _ h => h.2

theorem of_ends (h : Follows g m r good bad) (h' : Ends m r good' (fun _ => bad')) :
    Follows g m r good' bad' :=
  (Ends.and h h').imp (fun _ _ h => ⟨h.1.1, h.2⟩) fun _ _ h => ⟨h.1.1, h.2⟩

theorem imp (h : Follows g m r good bad) (hgood : ∀ a after, good a after → good' a after)
    (hbad : ∀ after, bad after → bad' after) : Follows g m r good' bad' :=
  Ends.imp h (fun a after h => ⟨h.1, hgood a after h.2⟩) fun _ after h => ⟨h.1, hbad after h.2⟩

/-- A sequence is followed step by step. -/
theorem bind {good : β → Registry → Prop} {g' : α → GuardedM β} {f : α → RegistryM β}
    (h : Follows g m r (fun a after => Follows (g' a) (f a) after good bad) bad) :
    Follows (g >>= g') (m >>= f) r good bad := by
  unfold Follows at *
  rw [Ends.bind_iff]
  refine Ends.imp h ?_ ?_
  · rintro a after ⟨hrun, hrest⟩
    refine hrest.imp ?_ ?_
    · rintro b last ⟨hlast, hgood⟩
      rw [EStateM.run_bind, hrun]
      exact ⟨hlast, hgood⟩
    · rintro e last ⟨hlast, hbad⟩
      rw [EStateM.run_bind, hrun]
      exact ⟨hlast, hbad⟩
  · rintro e after ⟨hrun, hbad⟩
    rw [EStateM.run_bind, hrun]
    exact ⟨rfl, hbad⟩

/-- What looks nothing up by position follows itself. -/
theorem of_plainly (h : Ends m r good (fun _ => bad)) : Follows (plainly m) m r good bad := by
  unfold Follows Ends at *
  rw [run_plainly]
  cases hm : m.run r with
  | ok a after =>
    rw [hm] at h
    exact ⟨rfl, h⟩
  | error e after =>
    rw [hm] at h
    exact ⟨rfl, h⟩

theorem of_pure {a : α} (h : good a r) : Follows (pure a) (pure a) r good bad := ⟨rfl, h⟩

theorem of_throw {e : ResourceError} (h : bad r) :
    Follows (throw (.failure e)) (throw e : RegistryM α) r good bad := ⟨rfl, h⟩

theorem of_get {good : Registry → Registry → Prop} (h : good r r) :
    Follows get get r good bad := ⟨rfl, h⟩

theorem of_set {r' : Registry} {good : PUnit → Registry → Prop} (h : good ⟨⟩ r') :
    Follows (set r') (set r') r good bad := ⟨rfl, h⟩

theorem of_modify {f : Registry → Registry} {good : PUnit → Registry → Prop}
    (h : good ⟨⟩ (f r)) : Follows (modify f) (modify f) r good bad := ⟨rfl, h⟩

/-- The answer is dropped. -/
theorem of_discard {good : Unit → Registry → Prop} (h : Follows g m r (fun _ => good ()) bad) :
    Follows (discard g) (discard m) r good bad := by
  have hg : discard g = g >>= fun _ => pure () := rfl
  have hm : discard m = m >>= fun _ => pure () := rfl
  rw [hg, hm]
  exact bind (h.imp (fun _ _ h => .of_pure h) fun _ h => h)

/-- Both take the same branch. -/
theorem ite {c : Prop} [Decidable c] {g' : GuardedM α} {m' : RegistryM α}
    (hyes : c → Follows g m r good bad) (hno : ¬c → Follows g' m' r good bad) :
    Follows (if c then g else g') (if c then m else m') r good bad := by
  by_cases hc : c
  · rw [if_pos hc, if_pos hc]
    exact hyes hc
  · rw [if_neg hc, if_neg hc]
    exact hno hc

/-- A guard that lets pass is passed. -/
theorem of_guard {d : GuardedM β} {b : β} {g : β → GuardedM α} (hd : d.run r = .ok b r)
    (h : Follows (g b) m r good bad) : Follows (d >>= g) m r good bad := by
  refine Ends.imp h ?_ ?_
  · rintro a after ⟨hrun, hgood⟩
    rw [EStateM.run_bind, hd]
    exact ⟨hrun, hgood⟩
  · rintro e after ⟨hrun, hbad⟩
    rw [EStateM.run_bind, hd]
    exact ⟨hrun, hbad⟩

theorem of_inside {found? : Option β} {b : β} {g : β → GuardedM α} (hfound : found? = some b)
    (h : Follows (g b) m r good bad) : Follows (inside found? >>= g) m r good bad :=
  of_guard (by rw [hfound]; rfl) h

/-- Steps that are followed and keep what holds so far are followed all the way. -/
theorem forM {P : Registry → Prop} {g : α → GuardedM PUnit} {f : α → RegistryM PUnit} {xs : List α}
    (hstep : ∀ x ∈ xs, ∀ s, P s → Follows (g x) (f x) s (fun _ => P) bad) (h : P r) :
    Follows (xs.forM g) (xs.forM f) r (fun _ => P) bad := by
  induction xs generalizing r with
  | nil => exact .of_pure h
  | cons x xs ih =>
    rw [List.forM_eq_forM, List.forM_cons, List.forM_eq_forM, List.forM_cons]
    refine bind ((hstep x List.mem_cons_self r h).imp (fun _ after hafter => ?_) fun _ h => h)
    exact ih (fun y hy => hstep y (List.mem_cons_of_mem _ hy)) hafter

end Follows

namespace Guarded

variable {r : Registry}

theorem run_demandLink {position : Nat} (h : position < r.links.length) :
    (demandLink position).run r = .ok () r := by
  unfold demandLink
  simp [Nat.not_le.mpr h]

/-- Links that are there let pass. -/
theorem run_forM_demandLink {α : Type} {link : α → Nat} {xs : List α}
    (h : ∀ x ∈ xs, link x < r.links.length) :
    (xs.forM fun x => demandLink (link x)).run r = .ok () r := by
  induction xs with
  | nil => rfl
  | cons x xs ih =>
    rw [List.forM_eq_forM, List.forM_cons, EStateM.run_bind,
      run_demandLink (h x List.mem_cons_self)]
    exact ih fun y hy => h y (List.mem_cons_of_mem _ hy)

/-- A buffer of the link lets pass. -/
theorem run_demandBuffer {position buffer : Nat}
    (h : buffer < (r.framesAt position).buffers.size) :
    (demandBuffer position buffer).run r = .ok () r := by
  unfold demandBuffer
  simp [Nat.not_le.mpr h]

end Guarded

end Framecast
