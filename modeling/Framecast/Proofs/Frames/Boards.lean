import Framecast.Proofs.Frames.Latest

/-!
# Links side by side

Several links are used in any order, each by its own writer and its own reader. A
buffer belongs to the link on which it was allocated, for good: whoever copies into it
or reads it through another link is refused. So every link of a board goes through a
run of its own, as if the others were not there, and what is done with one link never
shows through another.
-/

namespace Framecast.Snapshot

/-- What can be done with a board. -/
inductive BoardAction where
  /-- A link is added. -/
  | connect
  /-- Something is done with link `l`. A buffer to copy into goes by its number on the board. -/
  | use (l : Nat) (action : LinkAction)
  deriving DecidableEq, Repr

namespace Board

/-- Does something with link `l`. A copy that is refused changes nothing. -/
def use (board : Board) (l : Nat) : LinkAction → Board
  | .allocate bytes => (board.allocate l bytes).2
  | .copy b bytes =>
    match board.copy b l bytes with
    | some (.ok (_, after)) => after
    | _ => board
  | .publish => board.publish l
  | .pickUp => (board.pickUp l).2

/-- Does one action. A link that is not there is not used. -/
def step (board : Board) : BoardAction → Board
  | .connect => board.connect.2
  | .use l action => if l < board.links.size then board.use l action else board

/-- An action in the numbers of link `l`, unless it goes to a buffer of another link. -/
def own? (board : Board) (l : Nat) : LinkAction → Option LinkAction
  | .copy b bytes => (board.numberOn? b l).map (.copy · bytes)
  | action => some action

/-- What an action on the board is to link `l`. -/
def seen? (board : Board) (l : Nat) : BoardAction → Option LinkAction
  | .connect => none
  | .use k action => if k = l ∧ k < board.links.size then board.own? k action else none

variable {board : Board} {b i k l : Nat} {bytes : Bytes}

/-- A link that was replaced is the new one, and the others are as before. -/
theorem link_setLink (h : k < board.links.size) (link : FrameLink) (l : Nat) :
    (board.setLink k link).link l = if k = l then link else board.link l := by
  unfold Board.link setLink
  rw [Array.getElem?_setIfInBounds]
  by_cases hkl : k = l
  · rw [if_pos hkl, if_pos hkl, if_pos (hkl ▸ h)]
    rfl
  · rw [if_neg hkl, if_neg hkl]

/-- Each link takes the step that is its own, and no other. -/
theorem link_use (h : k < board.links.size) (action : LinkAction) (l : Nat) :
    (board.use k action).link l =
      if k = l then ((board.own? k action).map (board.link k).step).getD (board.link k)
      else board.link l := by
  cases action with
  | allocate bytes => exact link_setLink h _ l
  | publish => exact link_setLink h _ l
  | pickUp => exact link_setLink h _ l
  | copy b bytes =>
    have hsame : board.link l = if k = l then board.link k else board.link l := by
      split
      · rename_i hkl
        rw [hkl]
      · rfl
    unfold use own? copy
    dsimp only
    cases hnumber : board.numberOn? b k with
    | none => exact hsame
    | some i =>
      cases hcopy : (board.link k).copy i bytes with
      | error e =>
        have hstep : (board.link k).step (.copy i bytes) = board.link k := by
          unfold FrameLink.step
          simp only [hcopy]
        simp only [Option.map_some, hcopy, Except.map, Option.getD_some, hstep]
        exact hsame
      | ok taken =>
        have hstep : (board.link k).step (.copy i bytes) = taken.2 := by
          unfold FrameLink.step
          simp only [hcopy]
        simp only [Option.map_some, hcopy, Except.map, Option.getD_some, hstep]
        exact link_setLink h _ l

/-- Every action is to each link what the link sees of it. -/
theorem link_step (board : Board) (action : BoardAction) (l : Nat) :
    (board.step action).link l =
      ((board.seen? l action).map (board.link l).step).getD (board.link l) := by
  cases action with
  | connect =>
    show (board.links.push .initial)[l]?.getD .initial = board.links[l]?.getD .initial
    rw [Array.getElem?_push]
    split
    · rename_i hl
      rw [hl, Array.getElem?_size]
      rfl
    · rfl
  | use k action =>
    unfold step seen?
    dsimp only
    by_cases hk : k < board.links.size
    · rw [if_pos hk, link_use hk]
      by_cases hkl : k = l
      · rw [if_pos hkl, if_pos ⟨hkl, hk⟩, hkl]
      · rw [if_neg hkl, if_neg fun h => hkl h.1]
        rfl
    · rw [if_neg hk, if_neg fun h => hk h.2]
      rfl

/-- A buffer has a number on the link that owns it, and on no other. -/
theorem numberOn?_eq_some : board.numberOn? b l = some i ↔ board.owners[b]? = some (l, i) := by
  unfold numberOn?
  cases board.owners[b]? with
  | none => simp
  | some owner =>
    obtain ⟨k, j⟩ := owner
    by_cases hkl : k = l <;> simp [hkl]

/-- No buffer is given away, and each allocation adds one. -/
theorem owners_step (board : Board) (action : BoardAction) :
    ∃ more, (board.step action).owners = board.owners ++ more := by
  have hsame : ∃ more, board.owners = board.owners ++ more := ⟨#[], Array.append_empty.symm⟩
  cases action with
  | connect => exact hsame
  | use k action =>
    unfold step
    dsimp only
    split
    · cases action with
      | allocate bytes => exact ⟨_, Array.push_eq_append⟩
      | publish | pickUp => exact hsame
      | copy c bytes =>
        unfold use copy
        dsimp only
        cases board.numberOn? c k with
        | none => exact hsame
        | some j =>
          dsimp only [Option.map_some]
          cases (board.link k).copy j bytes <;> exact hsame
    · exact hsame

/-- A buffer belongs to its link for good. -/
theorem numberOn?_step (h : board.numberOn? b l = some i) (action : BoardAction) :
    (board.step action).numberOn? b l = some i := by
  rw [numberOn?_eq_some] at h ⊢
  obtain ⟨more, heq⟩ := board.owners_step action
  rw [heq, Array.getElem?_append_left (Array.getElem?_eq_some_iff.mp h).1, h]

/-- What is done with other links leaves what is read of a buffer, and its line, as they were. -/
theorem unseen_step (h : board.numberOn? b l = some i) {action : BoardAction}
    (hseen : board.seen? l action = none) :
    (board.step action).read? b l = board.read? b l ∧
      (board.step action).summary b = board.summary b := by
  have hafter := numberOn?_step h action
  have hlink : (board.step action).link l = board.link l := by
    rw [link_step, hseen]
    rfl
  unfold read? summary length flagsOf
  rw [hafter, h, hlink, numberOn?_eq_some.mp hafter, numberOn?_eq_some.mp h]
  dsimp only
  rw [hlink]
  exact ⟨rfl, rfl⟩

/-- A buffer belongs to one link. -/
theorem numberOn?_eq_none (h : board.numberOn? b l = some i) (hne : k ≠ l) :
    board.numberOn? b k = none := by
  refine Option.eq_none_iff_forall_ne_some.mpr fun j hj => hne ?_
  rw [numberOn?_eq_some] at h hj
  exact (Prod.mk.inj (Option.some.inj (hj.symm.trans h))).1

end Board

/-- One action on a board and the board before it. -/
structure BoardMoment where
  /-- The board before the action. -/
  before : Board
  /-- The action. -/
  action : BoardAction

/-- From a board, some actions lead to another. The moments on the way are listed newest first. -/
inductive BoardRun (start : Board) : List BoardMoment → Board → Prop
  /-- Nothing is done. -/
  | nil : BoardRun start [] start
  /-- One more action is done. -/
  | snoc {past : List BoardMoment} {board : Board} (h : BoardRun start past board)
    (action : BoardAction) : BoardRun start (⟨board, action⟩ :: past) (board.step action)

/-- What link `l` sees of a run. -/
def seen (l : Nat) (past : List BoardMoment) : List LinkMoment :=
  past.filterMap fun m => (m.before.seen? l m.action).map (⟨m.before.link l, ·⟩)

namespace BoardRun

variable {past : List BoardMoment} {board : Board} {b i k l : Nat}

/-- Each link goes through a run of its own. -/
theorem linkRun (h : BoardRun .empty past board) (l : Nat) :
    LinkRun .initial (seen l past) (board.link l) := by
  induction h with
  | nil => exact .nil
  | @snoc past board h action ih =>
    rw [board.link_step]
    unfold seen at ih ⊢
    cases hseen : board.seen? l action with
    | none =>
      rw [List.filterMap_cons_none (by rw [hseen]; rfl)]
      exact ih
    | some own =>
      rw [List.filterMap_cons_some (by rw [hseen]; rfl)]
      exact ih.snoc own

/-- Links do not meddle with one another. Each goes through a run of its own; a buffer cannot be copied
into or read through any link but its own, whatever the snapshot; and what is done with the others
leaves the buffer as it was. -/
theorem keeps_apart (h : BoardRun .empty past board) :
    (∀ l, LinkRun .initial (seen l past) (board.link l)) ∧
      ∀ b l i, board.numberOn? b l = some i →
        (∀ k, k ≠ l → board.read? b k = none ∧ ∀ bytes, board.copy b k bytes = none) ∧
        ∀ action, (board.step action).numberOn? b l = some i ∧
          (board.seen? l action = none → (board.step action).read? b l = board.read? b l ∧
            (board.step action).summary b = board.summary b) := by
  refine ⟨h.linkRun, fun b l i hb => ⟨fun k hk => ?_, fun action =>
    ⟨Board.numberOn?_step hb action, Board.unseen_step hb⟩⟩⟩
  have hnone := Board.numberOn?_eq_none hb hk
  unfold Board.read? Board.copy
  rw [hnone]
  exact ⟨rfl, fun _ => rfl⟩

end BoardRun

end Framecast.Snapshot
