import Mathlib.Tactic.SplitIfs
import Framecast.Schema.Layout

/-!
# Parts and words of a run of bytes

Replacing a part of a run is read back from that part and is invisible
everywhere else. Words are parts of four bytes, so the words of a run behave
like independent cells, and a list of words written from the beginning is read
back word by word.
-/

namespace Framecast

/-- Where every look-up has an answer, the answers are collected. -/
theorem mapM_eq_some {α β : Type} {f : α → Option β} {g : α → β} {xs : List α}
    (h : ∀ x ∈ xs, f x = some (g x)) : xs.mapM f = some (xs.map g) := by
  induction xs with
  | nil => rfl
  | cons x xs ih =>
    rw [List.mapM_cons, h x List.mem_cons_self, ih fun y hy => h y (List.mem_cons_of_mem _ hy)]
    rfl

/-- Answers that are all rewritten alike can be collected first. -/
theorem mapM_map_eq {α β γ : Type} (f : α → Option β) (g : β → γ) (xs : List α) :
    xs.mapM (fun x => (f x).map g) = (xs.mapM f).map (List.map g) := by
  induction xs with
  | nil => rfl
  | cons x xs ih =>
    rw [List.mapM_cons, List.mapM_cons, ih]
    cases f x with
    | none => rfl
    | some y => cases xs.mapM f <;> rfl

namespace Bytes

/-- Byte by byte, a replaced part shows itself and leaves the rest alone. -/
theorem getElem?_splice {bytes part : Bytes} {offset : Nat}
    (h : offset + part.length ≤ bytes.length) (n : Nat) :
    (bytes.splice offset part)[n]? =
      if offset ≤ n ∧ n < offset + part.length then part[n - offset]? else bytes[n]? := by
  have hl : (bytes.take offset).length = offset := by
    rw [List.length_take]
    omega
  unfold splice
  rw [List.append_assoc, List.getElem?_append, List.getElem?_append, hl]
  split_ifs with h1 h2 h3 h4 h5
  · omega
  · rw [List.getElem?_take_of_lt h1]
  · rfl
  · omega
  · omega
  · rw [List.getElem?_drop]
    congr 1
    omega

theorem getElem?_slice (bytes : Bytes) (offset length n : Nat) :
    (bytes.slice offset length)[n]? = if n < length then bytes[offset + n]? else none := by
  unfold slice
  rw [List.getElem?_take, List.getElem?_drop]

/-- A replaced part is read back. -/
theorem slice_splice_self {bytes part : Bytes} {offset : Nat}
    (h : offset + part.length ≤ bytes.length) :
    (bytes.splice offset part).slice offset part.length = part := by
  apply List.ext_getElem?
  intro n
  rw [getElem?_slice, getElem?_splice h]
  split_ifs with h1 h2
  · rw [Nat.add_sub_cancel_left]
  · omega
  · exact (List.getElem?_eq_none (by omega)).symm

/-- A replaced part is invisible in every slice that does not meet it. -/
theorem slice_splice_of_disjoint {bytes part : Bytes} {offset other length : Nat}
    (h : offset + part.length ≤ bytes.length)
    (hd : offset + part.length ≤ other ∨ other + length ≤ offset) :
    (bytes.splice offset part).slice other length = bytes.slice other length := by
  apply List.ext_getElem?
  intro n
  rw [getElem?_slice, getElem?_slice, getElem?_splice h]
  split_ifs with h1 h2
  · omega
  · rfl
  · rfl

/-- A word is a matter of its own four bytes. -/
theorem word?_eq_of_slice {a b : Bytes} {i j : Nat} (h : a.slice (4 * i) 4 = b.slice (4 * j) 4) :
    a.word? i = b.word? j := by
  unfold word? slice at *
  generalize a.drop (4 * i) = x at *
  generalize b.drop (4 * j) = y at *
  match x, y with
  | [], [] | [_], [_] | [_, _], [_, _] | [_, _, _], [_, _, _] => rfl
  | _ :: _ :: _ :: _ :: _, _ :: _ :: _ :: _ :: _ =>
    simp only [List.take_succ_cons, List.take_zero, List.cons.injEq, and_true] at h
    obtain ⟨rfl, rfl, rfl, rfl⟩ := h
    rfl
  | [], _ :: _ | [_], [] | [_], _ :: _ :: _ | [_, _], [] | [_, _], [_] | [_, _], _ :: _ :: _ :: _
  | [_, _, _], [] | [_, _, _], [_] | [_, _, _], [_, _] | [_, _, _], _ :: _ :: _ :: _ :: _
  | _ :: _ :: _ :: _ :: _, [] | _ :: _ :: _ :: _ :: _, [_] | _ :: _ :: _ :: _ :: _, [_, _]
  | _ :: _ :: _ :: _ :: _, [_, _, _] => simp at h

theorem word?_eq {bytes : Bytes} {i : Nat} (h : 4 * i + 4 ≤ bytes.length) :
    bytes.word? i = some (bytes.word i) := by
  obtain ⟨w, hw⟩ := Option.isSome_iff_exists.mp ((isSome_word?_iff bytes i).mpr h)
  rw [hw, word_eq_of_word? hw]

/-- Words inside the run are read. -/
theorem words?_eq {bytes : Bytes} {n : Nat} (h : 4 * n ≤ bytes.length) :
    bytes.words? n = some ((List.range n).map bytes.word) := by
  refine mapM_eq_some fun i hi => word?_eq ?_
  rw [List.mem_range] at hi
  omega

theorem singles?_eq_words? (bytes : Bytes) (n : Nat) :
    bytes.singles? n = (bytes.words? n).map (List.map Binary32.mk) :=
  mapM_map_eq bytes.word? Binary32.mk (List.range n)

/-- A word inside the run is replaced. -/
theorem setWord?_eq {bytes : Bytes} {i : Nat} (h : 4 * i + 4 ≤ bytes.length) (w : UInt32) :
    bytes.setWord? i w = some (bytes.setWord i w) := by
  unfold setWord setWord?
  rw [if_pos h]
  rfl

/-- Writing a word that lies inside the run replaces its four bytes. -/
theorem setWord_eq_splice {bytes : Bytes} {i : Nat} (h : 4 * i + 4 ≤ bytes.length) (w : UInt32) :
    bytes.setWord i w = bytes.splice (4 * i) (Word.toBytes w) := by
  unfold setWord setWord?
  rw [if_pos h]
  rfl

/-- A written word is read back. -/
theorem word_setWord_self {bytes : Bytes} {i : Nat} (h : 4 * i + 4 ≤ bytes.length) (w : UInt32) :
    (bytes.setWord i w).word i = w := by
  have hs : (bytes.setWord i w).slice (4 * i) 4 = (Word.toBytes w).slice (4 * 0) 4 := by
    rw [setWord_eq_splice h]
    have hw : 4 * i + (Word.toBytes w).length ≤ bytes.length := h
    exact slice_splice_self hw
  exact word_eq_of_word? ((word?_eq_of_slice hs).trans (word?_toBytes w))

/-- Writing one word leaves the others alone. -/
theorem word_setWord_of_ne (bytes : Bytes) {i j : Nat} (h : i ≠ j) (w : UInt32) :
    (bytes.setWord i w).word j = bytes.word j := by
  by_cases hi : 4 * i + 4 ≤ bytes.length
  · have hs : (bytes.setWord i w).slice (4 * j) 4 = bytes.slice (4 * j) 4 := by
      rw [setWord_eq_splice hi]
      have hw : 4 * i + (Word.toBytes w).length ≤ bytes.length := hi
      apply slice_splice_of_disjoint hw
      rw [Word.length_toBytes]
      omega
    unfold word
    rw [word?_eq_of_slice hs]
  · unfold setWord setWord?
    rw [if_neg hi]
    rfl

/-- Writing words one after another keeps the length of the run. -/
theorem length_foldl_setWord (entries : List (UInt32 × Nat)) (bytes : Bytes) :
    (entries.foldl (fun run entry => run.setWord entry.2 entry.1) bytes).length = bytes.length := by
  induction entries generalizing bytes with
  | nil => rfl
  | cons entry rest ih => rw [List.foldl_cons, ih, length_setWord]

@[simp] theorem length_setWords (bytes : Bytes) (ws : List UInt32) :
    (bytes.setWords ws).length = bytes.length := length_foldl_setWord _ _

/-- Words written from word `k` on are read back, and the other words stay. -/
theorem word_foldl_setWord {ws : List UInt32} {k : Nat} {bytes : Bytes}
    (h : 4 * (k + ws.length) ≤ bytes.length) (i : Nat) :
    ((ws.zipIdx k).foldl (fun run entry => run.setWord entry.2 entry.1) bytes).word i =
      if k ≤ i then (ws[i - k]?).getD (bytes.word i) else bytes.word i := by
  induction ws generalizing k bytes with
  | nil => simp
  | cons w ws ih =>
    rw [List.length_cons] at h
    have hk : 4 * k + 4 ≤ bytes.length := by omega
    rw [List.zipIdx_cons, List.foldl_cons, ih (by rw [length_setWord]; omega)]
    rcases Nat.lt_trichotomy i k with hlt | heq | hgt
    · rw [if_neg (by omega), if_neg (by omega), word_setWord_of_ne _ (by omega)]
    · subst heq
      rw [if_neg (by omega), if_pos (Nat.le_refl _), word_setWord_self hk]
      simp
    · obtain ⟨d, rfl⟩ : ∃ d, i = k + 1 + d := ⟨i - (k + 1), by omega⟩
      have hd : k + 1 + d - k = d + 1 := by omega
      rw [if_pos (by omega), if_pos (by omega), word_setWord_of_ne _ (by omega), hd,
        Nat.add_sub_cancel_left, List.getElem?_cons_succ]

/-- Words written from the beginning are read back, and the words behind them stay. -/
theorem word_setWords {bytes : Bytes} {ws : List UInt32} (h : 4 * ws.length ≤ bytes.length)
    (i : Nat) : (bytes.setWords ws).word i = (ws[i]?).getD (bytes.word i) := by
  have hroom : 4 * (0 + ws.length) ≤ bytes.length := by omega
  simpa [setWords] using word_foldl_setWord hroom i

/-- A run of zero bytes has zero words only. -/
@[simp] theorem word_zeros (n i : Nat) : (zeros n).word i = 0 := by
  unfold word word? zeros
  rw [List.drop_replicate]
  match n - 4 * i with
  | 0 | 1 | 2 | 3 => rfl
  | _ + 4 => rfl

@[simp] theorem length_zeros (n : Nat) : (zeros n).length = n := List.length_replicate

theorem slice_zeros {n offset length : Nat} (h : offset + length ≤ n) :
    (zeros n).slice offset length = zeros length := by
  unfold zeros slice
  rw [List.drop_replicate, List.take_replicate, Nat.min_eq_left (by omega)]

end Bytes

end Framecast
