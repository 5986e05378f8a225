import Framecast.Proofs.Storage.Words

/-!
# Words as lenses

A place inside a larger state is a lens when it can be read and written, reading
gives what was written, writing what is there changes nothing, and the last write
wins. A place may be missing; then it can neither be read nor written. Each word
of a run of bytes is such a place, and so is each number, which is the word of its
pattern, whatever number the pattern stands for. A written word is spelt out in
its own four bytes and every other byte stays, so different words never meet.
-/

namespace Framecast

variable {σ α β : Type}

/-- A place in a state, which may be missing: what is written there is what is read there. -/
structure IsLens (get? : σ → Option α) (put? : σ → α → Option σ) : Prop where
  /-- Exactly a place that can be read can be written, whatever is written. -/
  isSome_put? (s : σ) (a : α) : (put? s a).isSome = (get? s).isSome
  /-- What was written is read. -/
  get_put {s t : σ} {a : α} : put? s a = some t → get? t = some a
  /-- Writing what is there anyway changes nothing. -/
  put_get {s : σ} {a : α} : get? s = some a → put? s a = some s
  /-- A second write leaves nothing of the first. -/
  put_put {s t : σ} {a : α} (b : α) : put? s a = some t → put? t b = put? s b

/-- Two places of which neither is seen or moved by a write to the other. -/
structure AreApart (get? : σ → Option α) (put? : σ → α → Option σ) (get'? : σ → Option β)
    (put'? : σ → β → Option σ) : Prop where
  /-- A write to the first place is invisible at the second. -/
  get'_put {s t : σ} {a : α} : put? s a = some t → get'? t = get'? s
  /-- A write to the second place is invisible at the first. -/
  get_put' {s t : σ} {b : β} : put'? s b = some t → get? t = get? s
  /-- The order of two writes, one to each place, does not matter. -/
  commute (s : σ) (a : α) (b : β) :
    ((put? s a).bind fun t => put'? t b) = (put'? s b).bind fun t => put? t a

/-- What is kept at a place may be read and written under another name. -/
theorem IsLens.rename {get? : σ → Option α} {put? : σ → α → Option σ} (h : IsLens get? put?)
    {named : α → β} {meant : β → α} (hmeant : ∀ a, meant (named a) = a)
    (hnamed : ∀ b, named (meant b) = b) :
    IsLens (fun s => (get? s).map named) (fun s b => put? s (meant b)) where
  isSome_put? s b := by rw [h.isSome_put?, Option.isSome_map]
  get_put hput := by rw [h.get_put hput, Option.map_some, hnamed]
  put_get {s b} hget := by
    obtain ⟨a, ha, rfl⟩ := Option.map_eq_some_iff.mp hget
    rw [hmeant]
    exact h.put_get ha
  put_put b hput := h.put_put (meant b) hput

/-- Whatever was collected had an answer. -/
theorem isSome_of_mapM {f : α → Option β} {xs : List α} {ys : List β} (h : xs.mapM f = some ys)
    {x : α} (hx : x ∈ xs) : (f x).isSome := by
  induction xs generalizing ys with
  | nil => cases hx
  | cons first rest ih =>
    rw [List.mapM_cons] at h
    obtain ⟨y, hy, h⟩ := Option.bind_eq_some_iff.mp h
    obtain ⟨_, hrest, -⟩ := Option.bind_eq_some_iff.mp h
    rcases List.mem_cons.mp hx with rfl | hx
    · rw [hy]
      rfl
    · exact ih hrest hx

namespace Bytes

variable {bytes after part : Bytes} {i j n offset : Nat} {w : UInt32}

/-- A slice and what comes after it are what comes from its beginning on. -/
theorem slice_append_drop (bytes : Bytes) (offset length : Nat) :
    bytes.slice offset length ++ bytes.drop (offset + length) = bytes.drop offset := by
  rw [← List.drop_drop]
  exact List.take_append_drop length (bytes.drop offset)

theorem splice_slice {length : Nat} (h : offset + length ≤ bytes.length) :
    bytes.splice offset (bytes.slice offset length) = bytes := by
  unfold splice
  rw [length_slice bytes h, List.append_assoc, slice_append_drop, List.take_append_drop]

/-- A part that is replaced twice shows the second replacement only. -/
theorem splice_splice_self {other : Bytes} (h : offset + part.length ≤ bytes.length)
    (hlength : other.length = part.length) :
    (bytes.splice offset part).splice offset other = bytes.splice offset other := by
  apply List.ext_getElem?
  intro n
  rw [getElem?_splice (by rw [length_splice _ _ h, hlength]; exact h), getElem?_splice h,
    getElem?_splice (by rw [hlength]; exact h), hlength]
  split_ifs <;> rfl

/-- Parts that do not meet can be replaced in either order. -/
theorem splice_comm {other : Bytes} {offset' : Nat} (h : offset + part.length ≤ bytes.length)
    (h' : offset' + other.length ≤ bytes.length)
    (hd : offset + part.length ≤ offset' ∨ offset' + other.length ≤ offset) :
    (bytes.splice offset part).splice offset' other =
      (bytes.splice offset' other).splice offset part := by
  apply List.ext_getElem?
  intro n
  rw [getElem?_splice (by rw [length_splice _ _ h]; exact h'), getElem?_splice h,
    getElem?_splice (by rw [length_splice _ _ h']; exact h), getElem?_splice h']
  split_ifs
  · omega
  all_goals rfl

/-- A word can be written exactly where it lies inside the run. -/
theorem isSome_setWord?_iff (bytes : Bytes) (i : Nat) (w : UInt32) :
    (bytes.setWord? i w).isSome ↔ 4 * i + 4 ≤ bytes.length := by
  unfold setWord?
  split
  · rename_i h
    exact iff_of_true rfl h
  · rename_i h
    exact iff_of_false Bool.false_ne_true h

/-- A word is written exactly where it lies inside the run, and its four bytes are replaced. -/
theorem setWord?_eq_some_iff : bytes.setWord? i w = some after ↔
    4 * i + 4 ≤ bytes.length ∧ bytes.splice (4 * i) (Word.toBytes w) = after := by
  unfold setWord?
  split
  · rename_i h
    rw [Option.some.injEq]
    exact (and_iff_right h).symm
  · rename_i h
    exact iff_of_false (Option.some_ne_none after).symm fun ⟨hinside, _⟩ => h hinside

/-- A word is what its four bytes spell. -/
theorem word?_eq_some_iff : bytes.word? i = some w ↔ bytes.slice (4 * i) 4 = Word.toBytes w := by
  constructor
  · intro h
    unfold word? at h
    unfold slice
    split at h
    · rename_i a b c d rest hdrop
      rw [hdrop, ← Option.some.inj h, Word.toBytes_ofBytes]
      rfl
    · cases h
  · intro h
    have hslice : bytes.slice (4 * i) 4 = (Word.toBytes w).slice (4 * 0) 4 := h
    rw [word?_eq_of_slice hslice, word?_toBytes]

/-- A written word shows in its own four bytes, the least significant first, and nowhere else. -/
theorem getElem?_of_setWord? (h : bytes.setWord? i w = some after) (n : Nat) :
    after[n]? =
      if 4 * i ≤ n ∧ n < 4 * i + 4 then some (UInt8.ofNat (w.toNat >>> (8 * (n - 4 * i))))
      else bytes[n]? := by
  obtain ⟨hinside, rfl⟩ := setWord?_eq_some_iff.mp h
  have hpart : 4 * i + (Word.toBytes w).length ≤ bytes.length := hinside
  rw [getElem?_splice hpart, Word.length_toBytes]
  split
  · rename_i hn
    have hk : n - 4 * i < 4 := by omega
    generalize n - 4 * i = k at hk
    match k, hk with
    | 0, _ | 1, _ | 2, _ | 3, _ => rfl
  · rfl

/-- Every word is a place of its own. -/
theorem isLens_word (i : Nat) : IsLens (word? · i) (setWord? · i) where
  isSome_put? bytes w := Bool.eq_iff_iff.mpr
    ((isSome_setWord?_iff bytes i w).trans (isSome_word?_iff bytes i).symm)
  get_put hput := by
    obtain ⟨hinside, rfl⟩ := setWord?_eq_some_iff.mp hput
    exact word?_eq_some_iff.mpr (slice_splice_self hinside)
  put_get {bytes w} hget := by
    have hinside : 4 * i + 4 ≤ bytes.length := (isSome_word?_iff bytes i).mp (by rw [hget]; rfl)
    refine setWord?_eq_some_iff.mpr ⟨hinside, ?_⟩
    rw [← word?_eq_some_iff.mp hget, splice_slice hinside]
  put_put {bytes after v} w hput := by
    obtain ⟨hinside, rfl⟩ := setWord?_eq_some_iff.mp hput
    have hafter := length_setWord? hput
    rw [setWord?_eq (hafter ▸ hinside), setWord?_eq hinside, setWord_eq_splice (hafter ▸ hinside),
      setWord_eq_splice hinside]
    exact congrArg some (splice_splice_self hinside rfl)

/-- A written word is invisible in the others. -/
theorem word?_of_setWord?_of_ne (h : i ≠ j) (hput : bytes.setWord? i w = some after) :
    after.word? j = bytes.word? j := by
  obtain ⟨hinside, rfl⟩ := setWord?_eq_some_iff.mp hput
  refine word?_eq_of_slice (slice_splice_of_disjoint hinside ?_)
  rw [Word.length_toBytes]
  omega

/-- Different words are apart. -/
theorem areApart_word (h : i ≠ j) :
    AreApart (word? · i) (setWord? · i) (word? · j) (setWord? · j) where
  get'_put := word?_of_setWord?_of_ne h
  get_put' := word?_of_setWord?_of_ne h.symm
  commute bytes v w := by
    by_cases hi : 4 * i + 4 ≤ bytes.length
    · by_cases hj : 4 * j + 4 ≤ bytes.length
      · have hdisjoint : 4 * i + 4 ≤ 4 * j ∨ 4 * j + 4 ≤ 4 * i := by omega
        have hj' : 4 * j + 4 ≤ (bytes.setWord i v).length := by rwa [length_setWord]
        have hi' : 4 * i + 4 ≤ (bytes.setWord j w).length := by rwa [length_setWord]
        rw [setWord?_eq hi, setWord?_eq hj, Option.bind_some, Option.bind_some, setWord?_eq hj',
          setWord?_eq hi', setWord_eq_splice hj', setWord_eq_splice hi', setWord_eq_splice hi,
          setWord_eq_splice hj]
        exact congrArg some (splice_comm hi hj hdisjoint)
      · have hrefused (bytes' : Bytes) (hlength : bytes'.length = bytes.length) :
            bytes'.setWord? j w = none := if_neg (hlength ▸ hj)
        rw [setWord?_eq hi, Option.bind_some, hrefused _ (length_setWord bytes i v),
          hrefused bytes rfl]
        rfl
    · have hrefused (bytes' : Bytes) (hlength : bytes'.length = bytes.length) :
          bytes'.setWord? i v = none := if_neg (hlength ▸ hi)
      rw [hrefused bytes rfl, Option.bind_none]
      cases hput : bytes.setWord? j w with
      | none => rfl
      | some after => exact (hrefused after (length_setWord? hput)).symm

/-- The first words of a run can be read exactly if it is long enough for them. -/
theorem isSome_words?_iff (bytes : Bytes) (n : Nat) :
    (bytes.words? n).isSome ↔ 4 * n ≤ bytes.length := by
  constructor
  · intro h
    cases n with
    | zero => exact Nat.zero_le _
    | succ n =>
      obtain ⟨ws, hws⟩ := Option.isSome_iff_exists.mp h
      exact (isSome_word?_iff bytes n).mp (isSome_of_mapM hws (List.mem_range.mpr n.lt_succ_self))
  · intro h
    rw [words?_eq h]
    rfl

/-- The words of a run are places that keep what is written and never meet. Numbers are words,
pattern by pattern, and the first numbers of a run are its first words. -/
structure AreCells : Prop where
  /-- A word can be read exactly where it lies inside the run. -/
  inside (bytes : Bytes) (i : Nat) : (bytes.word? i).isSome ↔ 4 * i + 4 ≤ bytes.length
  /-- Every word is a place of its own. -/
  word (i : Nat) : IsLens (word? · i) (setWord? · i)
  /-- Different words are apart. -/
  apart {i j : Nat} : i ≠ j → AreApart (word? · i) (setWord? · i) (word? · j) (setWord? · j)
  /-- A write keeps the length of the run. -/
  length {bytes after : Bytes} {i : Nat} {w : UInt32} :
    bytes.setWord? i w = some after → after.length = bytes.length
  /-- A written word shows in its own four bytes, the least significant first, and nowhere else. -/
  spelt {bytes after : Bytes} {i : Nat} {w : UInt32} : bytes.setWord? i w = some after → ∀ n,
    after[n]? =
      if 4 * i ≤ n ∧ n < 4 * i + 4 then some (UInt8.ofNat (w.toNat >>> (8 * (n - 4 * i))))
      else bytes[n]?
  /-- The pattern of a number that is read is the word in its place. -/
  bits (bytes : Bytes) (i : Nat) : (bytes.single? i).map Binary32.bits = bytes.word? i
  /-- Writing a number writes its pattern. -/
  ofBits (bytes : Bytes) (i : Nat) (w : UInt32) : bytes.setSingle? i ⟨w⟩ = bytes.setWord? i w
  /-- Every number is a place of its own, bit for bit. -/
  single (i : Nat) : IsLens (single? · i) (setSingle? · i)
  /-- The first numbers of a run that is long enough are its first words, in their order. -/
  singles (bytes : Bytes) (n : Nat) : bytes.singles? n =
    if 4 * n ≤ bytes.length then some ((List.range n).map fun i => ⟨bytes.word i⟩) else none

/-- The words of every run of bytes are independent cells. -/
theorem words_are_cells : AreCells where
  inside := isSome_word?_iff
  word := isLens_word
  apart := areApart_word
  length := length_setWord?
  spelt := getElem?_of_setWord?
  bits bytes i := by
    unfold single?
    rw [Option.map_map]
    exact Option.map_id_apply
  ofBits _ _ _ := rfl
  single i := (isLens_word i).rename (β := Binary32) (fun _ => rfl) fun _ => rfl
  singles bytes n := by
    rw [singles?_eq_words?]
    split
    · rename_i h
      rw [words?_eq h, Option.map_some, List.map_map]
      rfl
    · rename_i h
      cases hws : bytes.words? n with
      | none => rfl
      | some ws => exact absurd ((isSome_words?_iff bytes n).mp (by rw [hws]; rfl)) h

end Bytes

end Framecast
