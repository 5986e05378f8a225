import Framecast.Proofs.Operation.Deeds

/-!
# What the answers of consumers come to

A resource awaits as many answers as it has links. An answer that loading went well
counts down, and the first one that it failed settles the matter; later answers are
not heard. As long as no more answers come than are awaited, the outcome can be read
off the answers, and it does not depend on their order whether loading went well.
-/

namespace Framecast

namespace LoadState

/-- How far loading has come after one more answer: nothing, or why it failed. -/
def after (load : LoadState) (failure? : Option String) : LoadState :=
  match load, failure? with
  | .pending n, none => if 1 < n then .pending (n - 1) else .loaded
  | .pending _, some reason => .failed reason
  | load, _ => load

/-- Whether answers are still awaited. -/
def IsPending (load : LoadState) : Prop := ∃ n, load = .pending n

/-- What a wait for a resource is told, if loading is settled. -/
def outcome? (load : LoadState) (x : ResourceId) : Option Outcome :=
  match load with
  | .pending _ => none
  | .loaded => some (.ready x)
  | .failed reason => some (.failed (.loadFailed x reason))

variable {load : LoadState} {x : ResourceId}

theorem outcome?_eq_none : load.outcome? x = none ↔ load.IsPending := by
  cases load <;> simp [outcome?, IsPending]

theorem outcome?_eq_ready : load.outcome? x = some (.ready x) ↔ load = .loaded := by
  cases load <;> simp [outcome?]

theorem outcome?_eq_loadFailed {reason : String} :
    load.outcome? x = some (.failed (.loadFailed x reason)) ↔ load = .failed reason := by
  cases load <;> simp [outcome?]

/-- What is settled stays so. -/
theorem foldl_after_of_not_pending (h : ¬load.IsPending) (answers : List (Option String)) :
    answers.foldl after load = load := by
  induction answers with
  | nil => rfl
  | cons answer rest ih =>
    have hone : load.after answer = load := by
      cases load with
      | pending n => exact absurd ⟨n, rfl⟩ h
      | loaded => rfl
      | failed reason => rfl
    rw [List.foldl_cons, hone, ih]

/-- How far loading has come that awaited `n` answers and got some. -/
def verdict (n : Nat) (answers : List (Option String)) : LoadState :=
  match answers.findSome? id with
  | some reason => .failed reason
  | none => if answers.length = n then .loaded else .pending (n - answers.length)

/-- Answers that are awaited come to their verdict. -/
theorem foldl_after_pending {n : Nat} (hn : 0 < n) {answers : List (Option String)}
    (h : answers.length ≤ n) : answers.foldl after (.pending n) = verdict n answers := by
  induction answers generalizing n with
  | nil =>
    unfold verdict
    rw [List.findSome?_nil, List.length_nil, if_neg (by omega)]
    rfl
  | cons answer rest ih =>
    rw [List.length_cons] at h
    cases answer with
    | some reason =>
      have hsettled : ¬(after (.pending n) (some reason)).IsPending := by simp [IsPending, after]
      exact foldl_after_of_not_pending hsettled rest
    | none =>
      have hverdict : verdict n (none :: rest) = verdict (n - 1) rest := by
        unfold verdict
        rw [List.findSome?_cons_of_isNone (by rfl), List.length_cons]
        cases rest.findSome? id with
        | some reason => rfl
        | none =>
          dsimp only
          by_cases hlast : rest.length + 1 = n
          · rw [if_pos hlast, if_pos (by omega)]
          · rw [if_neg hlast, if_neg (by omega), Nat.sub_sub, Nat.add_comm 1]
      rw [List.foldl_cons, hverdict]
      by_cases hone : 1 < n
      · rw [show after (.pending n) none = .pending (n - 1) from if_pos hone]
        exact ih (by omega) (by omega)
      · have hrest : rest = [] := List.eq_nil_of_length_eq_zero (by omega)
        rw [hrest, show after (.pending n) none = .loaded from if_neg hone]
        unfold verdict
        rw [List.findSome?_nil, if_pos (by rw [List.length_nil]; omega)]
        rfl

/-- A resource that was sent over some links and answered to has the verdict. -/
theorem foldl_after_awaiting {bindings : List Binding} {answers : List (Option String)}
    (h : answers.length ≤ bindings.length) :
    answers.foldl after (Registry.awaiting bindings) = verdict bindings.length answers := by
  unfold Registry.awaiting
  split
  · rename_i hempty
    have hnil : bindings = [] := List.isEmpty_iff.mp hempty
    rw [hnil] at h ⊢
    have hnone : answers = [] := List.eq_nil_of_length_eq_zero (Nat.le_zero.mp h)
    rw [hnone]
    rfl
  · rename_i hempty
    refine foldl_after_pending (List.length_pos_iff.mpr ?_) h
    simpa using hempty

/-- Answers are still awaited if fewer came than were awaited, and none that loading failed. -/
theorem verdict_eq_pending {n m : Nat} {answers : List (Option String)} (h : answers.length ≤ n) :
    verdict n answers = .pending m ↔
      (∀ answer ∈ answers, answer = none) ∧ answers.length < n ∧ m = n - answers.length := by
  unfold verdict
  cases hfound : answers.findSome? id with
  | some reason =>
    obtain ⟨answer, hanswer, hsome⟩ := List.exists_of_findSome?_eq_some hfound
    constructor
    · intro heq
      cases heq
    · rintro ⟨hall, -⟩
      rw [hall answer hanswer] at hsome
      cases hsome
  | none =>
    have hall := List.findSome?_eq_none_iff.mp hfound
    dsimp only
    split
    · constructor
      · intro heq
        cases heq
      · rintro ⟨-, hlt, -⟩
        omega
    · constructor
      · intro heq
        cases heq
        exact ⟨hall, by omega, rfl⟩
      · rintro ⟨-, -, rfl⟩
        rfl

/-- A resource is loaded if all awaited answers came and all of them went well. -/
theorem verdict_eq_loaded {n : Nat} {answers : List (Option String)} :
    verdict n answers = .loaded ↔ (∀ answer ∈ answers, answer = none) ∧ answers.length = n := by
  unfold verdict
  cases hfound : answers.findSome? id with
  | some reason =>
    obtain ⟨answer, hanswer, hsome⟩ := List.exists_of_findSome?_eq_some hfound
    constructor
    · intro heq
      cases heq
    · rintro ⟨hall, -⟩
      rw [hall answer hanswer] at hsome
      cases hsome
  | none =>
    have hall := List.findSome?_eq_none_iff.mp hfound
    dsimp only
    split
    · exact ⟨fun _ => ⟨hall, ‹_›⟩, fun _ => rfl⟩
    · constructor
      · intro heq
        cases heq
      · exact fun h => absurd h.2 ‹_›

/-- Loading failed for the first reason that was answered. -/
theorem verdict_eq_failed {n : Nat} {answers : List (Option String)} {reason : String} :
    verdict n answers = .failed reason ↔ answers.findSome? id = some reason := by
  unfold verdict
  cases answers.findSome? id with
  | some reason => simp
  | none =>
    dsimp only
    split <;> simp

/-- Whether loading went well does not depend on the order of the answers. -/
theorem verdict_perm {n : Nat} {answers answers' : List (Option String)}
    (h : answers'.Perm answers) : (verdict n answers' = .loaded ↔ verdict n answers = .loaded) ∧
      ((∃ reason, verdict n answers' = .failed reason) ↔
        ∃ reason, verdict n answers = .failed reason) := by
  constructor
  · simp only [verdict_eq_loaded, h.mem_iff, h.length_eq]
  · simp only [verdict_eq_failed, ← Option.isSome_iff_exists, List.findSome?_isSome_iff, h.mem_iff]

end LoadState

end Framecast
