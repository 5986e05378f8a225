/-!
# How an operation ends

An operation on a state ends well or badly, and both ends keep what was changed
on the way. `Ends` says of both what holds then. It opens along the text of an
operation, one step at a time.
-/

namespace Framecast

variable {ε σ α β : Type}

/-- From `s`, the operation ends well as `good` says or badly as `bad` says. -/
def Ends (m : EStateM ε σ α) (s : σ) (good : α → σ → Prop) (bad : ε → σ → Prop) : Prop :=
  match m.run s with
  | .ok a after => good a after
  | .error e after => bad e after

namespace Ends

variable {m : EStateM ε σ α} {s : σ} {good : α → σ → Prop} {bad : ε → σ → Prop}

theorem of_ok (h : Ends m s good bad) {a : α} {after : σ} (hm : m.run s = .ok a after) :
    good a after := by
  unfold Ends at h
  rwa [hm] at h

theorem of_error (h : Ends m s good bad) {e : ε} {after : σ} (hm : m.run s = .error e after) :
    bad e after := by
  unfold Ends at h
  rwa [hm] at h

/-- Less may be said of both ends. -/
theorem imp (h : Ends m s good bad) {good' : α → σ → Prop} {bad' : ε → σ → Prop}
    (hgood : ∀ a after, good a after → good' a after)
    (hbad : ∀ e after, bad e after → bad' e after) : Ends m s good' bad' := by
  unfold Ends at *
  split
  · rename_i hm
    rw [hm] at h
    exact hgood _ _ h
  · rename_i hm
    rw [hm] at h
    exact hbad _ _ h

/-- What is known of the ends in two ways is known of them together. -/
theorem and (h : Ends m s good bad) {good' : α → σ → Prop} {bad' : ε → σ → Prop}
    (h' : Ends m s good' bad') :
    Ends m s (fun a after => good a after ∧ good' a after)
      (fun e after => bad e after ∧ bad' e after) := by
  unfold Ends at *
  split
  · rename_i hm
    rw [hm] at h h'
    exact ⟨h, h'⟩
  · rename_i hm
    rw [hm] at h h'
    exact ⟨h, h'⟩

/-- A sequence ends where its second part does, unless the first part ends badly. -/
@[simp] theorem bind_iff {f : α → EStateM ε σ β} {good : β → σ → Prop} :
    Ends (m >>= f) s good bad ↔ Ends m s (fun a after => Ends (f a) after good bad) bad := by
  unfold Ends
  simp only [EStateM.run_bind]
  cases m.run s <;> rfl

@[simp] theorem pure_iff {a : α} {good : α → σ → Prop} {bad : ε → σ → Prop} :
    Ends (pure a : EStateM ε σ α) s good bad ↔ good a s := Iff.rfl

@[simp] theorem throw_iff {e : ε} {good : α → σ → Prop} {bad : ε → σ → Prop} :
    Ends (throw e : EStateM ε σ α) s good bad ↔ bad e s := Iff.rfl

@[simp] theorem get_iff {good : σ → σ → Prop} {bad : ε → σ → Prop} :
    Ends (get : EStateM ε σ σ) s good bad ↔ good s s := Iff.rfl

@[simp] theorem set_iff {s' : σ} {good : PUnit → σ → Prop} {bad : ε → σ → Prop} :
    Ends (set s' : EStateM ε σ PUnit) s good bad ↔ good ⟨⟩ s' := Iff.rfl

@[simp] theorem modify_iff {f : σ → σ} {good : PUnit → σ → Prop} {bad : ε → σ → Prop} :
    Ends (modify f : EStateM ε σ PUnit) s good bad ↔ good ⟨⟩ (f s) := Iff.rfl

/-- The answer is dropped. -/
@[simp] theorem discard_iff {good : Unit → σ → Prop} :
    Ends (discard m) s good bad ↔ Ends m s (fun _ => good ()) bad := by
  unfold Ends
  have h : (discard m).run s = (m >>= fun _ => pure ()).run s := rfl
  rw [h, EStateM.run_bind]
  cases m.run s <;> rfl

/-- Steps that each keep what holds so far keep it all the way. -/
theorem forM {P : σ → Prop} {bad : ε → σ → Prop} {f : α → EStateM ε σ PUnit} {xs : List α}
    (hstep : ∀ x ∈ xs, ∀ s, P s → Ends (f x) s (fun _ => P) bad) {s : σ} (h : P s) :
    Ends (xs.forM f) s (fun _ => P) bad := by
  induction xs generalizing s with
  | nil => exact h
  | cons x xs ih =>
    rw [List.forM_eq_forM, List.forM_cons, bind_iff, ← List.forM_eq_forM]
    apply (hstep x List.mem_cons_self s h).imp
    · intro _ after hafter
      exact ih (fun y hy => hstep y (List.mem_cons_of_mem _ hy)) hafter
    · exact fun _ _ hbad => hbad

/-- Steps that each keep what holds so far keep it all the way, also when their answers are
collected. -/
theorem mapM {P : σ → Prop} {bad : ε → σ → Prop} {f : α → EStateM ε σ β} {xs : List α}
    (hstep : ∀ x ∈ xs, ∀ s, P s → Ends (f x) s (fun _ => P) bad) {s : σ} (h : P s) :
    Ends (xs.mapM f) s (fun _ => P) bad := by
  induction xs generalizing s with
  | nil => exact h
  | cons x xs ih =>
    rw [List.mapM_cons, bind_iff]
    apply (hstep x List.mem_cons_self s h).imp
    · intro _ after hafter
      rw [bind_iff]
      exact ih (fun y hy => hstep y (List.mem_cons_of_mem _ hy)) hafter
    · exact fun _ _ hbad => hbad

end Ends

end Framecast
