import Framecast.Number.Binary

/-!
# Bytes and their little-endian words

Everything the library stores is a run of bytes read in 32-bit words, least
significant byte first. Word `i` of a run occupies the bytes from `4 * i` up to
`4 * i + 4`. Reading and writing refuse a word that does not lie inside the run.
A single-precision number is kept as the word of its pattern. The main statements
say that the words of a run behave like independent cells: what is written is what
is read, and nothing else moves.
-/

namespace Framecast

/-- A run of bytes, as kept in snapshots, payloads and records. -/
abbrev Bytes := List UInt8

namespace Word

/-- The four bytes of a word, least significant first. -/
def toBytes (w : UInt32) : Bytes :=
  [UInt8.ofNat w.toNat, UInt8.ofNat (w.toNat >>> 8),
    UInt8.ofNat (w.toNat >>> 16), UInt8.ofNat (w.toNat >>> 24)]

/-- The word whose bytes are `a`, `b`, `c`, `d`, least significant first. -/
def ofBytes (a b c d : UInt8) : UInt32 :=
  UInt32.ofNat (a.toNat + b.toNat <<< 8 + c.toNat <<< 16 + d.toNat <<< 24)

@[simp] theorem length_toBytes (w : UInt32) : (toBytes w).length = 4 := rfl

/-- The bytes of a word spell that word. -/
theorem ofBytes_toBytes (w : UInt32) :
    ofBytes (UInt8.ofNat w.toNat) (UInt8.ofNat (w.toNat >>> 8))
      (UInt8.ofNat (w.toNat >>> 16)) (UInt8.ofNat (w.toNat >>> 24)) = w := by
  apply UInt32.toNat_inj.mp
  have h := w.toNat_lt
  simp only [ofBytes, UInt8.toNat_ofNat', UInt32.toNat_ofNat']
  omega

/-- The word spelt by four bytes has exactly those bytes. -/
theorem toBytes_ofBytes (a b c d : UInt8) : toBytes (ofBytes a b c d) = [a, b, c, d] := by
  have ha := a.toNat_lt
  have hb := b.toNat_lt
  have hc := c.toNat_lt
  have hd := d.toNat_lt
  have h : (ofBytes a b c d).toNat =
      a.toNat + b.toNat <<< 8 + c.toNat <<< 16 + d.toNat <<< 24 := by
    simp only [ofBytes, UInt32.toNat_ofNat']
    omega
  simp only [toBytes, h, List.cons.injEq, and_true]
  refine ⟨?_, ?_, ?_, ?_⟩ <;> apply UInt8.toNat_inj.mp <;>
    simp only [UInt8.toNat_ofNat'] <;> omega

end Word

namespace Bytes

/-- Word `i` of the run, if the run reaches that far. -/
def word? (bytes : Bytes) (i : Nat) : Option UInt32 :=
  match bytes.drop (4 * i) with
  | a :: b :: c :: d :: _ => some (Word.ofBytes a b c d)
  | _ => none

/-- The run with word `i` replaced by `w`, if the run reaches that far. -/
def setWord? (bytes : Bytes) (i : Nat) (w : UInt32) : Option Bytes :=
  if 4 * i + 4 ≤ bytes.length then
    some (bytes.take (4 * i) ++ Word.toBytes w ++ bytes.drop (4 * i + 4))
  else none

/-- Word `i` of the run, zero past its end. -/
def word (bytes : Bytes) (i : Nat) : UInt32 := (bytes.word? i).getD 0

/-- The run with word `i` replaced by `w`; a word past the end changes nothing. -/
def setWord (bytes : Bytes) (i : Nat) (w : UInt32) : Bytes := (bytes.setWord? i w).getD bytes

/-- The first `n` words, if the run holds that many. -/
def words? (bytes : Bytes) (n : Nat) : Option (List UInt32) := (List.range n).mapM bytes.word?

/-- Number `i` of the run, if the run reaches that far. -/
def single? (bytes : Bytes) (i : Nat) : Option Binary32 := (bytes.word? i).map Binary32.mk

/-- The run with number `i` replaced by `x`, if the run reaches that far. -/
def setSingle? (bytes : Bytes) (i : Nat) (x : Binary32) : Option Bytes := bytes.setWord? i x.bits

/-- The first `n` numbers, if the run holds that many. -/
def singles? (bytes : Bytes) (n : Nat) : Option (List Binary32) :=
  (List.range n).mapM bytes.single?

/-- The run with its words from word 0 on replaced by `ws`. -/
def setWords (bytes : Bytes) (ws : List UInt32) : Bytes :=
  (ws.zipIdx).foldl (fun run entry => run.setWord entry.2 entry.1) bytes

/-- The `length` bytes from `offset` on. -/
def slice (bytes : Bytes) (offset length : Nat) : Bytes := (bytes.drop offset).take length

/-- The run with the bytes from `offset` on replaced by `part`. -/
def splice (bytes : Bytes) (offset : Nat) (part : Bytes) : Bytes :=
  bytes.take offset ++ part ++ bytes.drop (offset + part.length)

/-- A run of `n` zero bytes. -/
def zeros (n : Nat) : Bytes := List.replicate n 0

/-- A word can be read exactly when it lies inside the run. -/
theorem isSome_word?_iff (bytes : Bytes) (i : Nat) :
    (bytes.word? i).isSome ↔ 4 * i + 4 ≤ bytes.length := by
  have h : (bytes.drop (4 * i)).length = bytes.length - 4 * i := List.length_drop
  unfold word?
  split
  · rename_i heq
    rw [heq] at h
    simp only [List.length_cons] at h
    simp only [Option.isSome_some, true_iff]
    omega
  · rename_i hne
    simp only [Option.isSome_none, Bool.false_eq_true, false_iff]
    intro hle
    match hdrop : bytes.drop (4 * i) with
    | a :: b :: c :: d :: rest => exact hne a b c d rest hdrop
    | [] | [_] | [_, _] | [_, _, _] =>
      rw [hdrop] at h
      simp only [List.length_cons, List.length_nil] at h
      omega

@[simp] theorem word?_toBytes_append_zero (w : UInt32) (rest : Bytes) :
    Bytes.word? (Word.toBytes w ++ rest) 0 = some w := by
  simp only [word?, Word.toBytes, List.cons_append, List.nil_append, Nat.mul_zero, List.drop_zero,
    Word.ofBytes_toBytes]

theorem word?_toBytes (w : UInt32) : Bytes.word? (Word.toBytes w) 0 = some w := by
  have h := word?_toBytes_append_zero w []
  rwa [List.append_nil] at h

/-- Past the bytes of one word, the words of a run are those of its rest. -/
@[simp] theorem word?_toBytes_append_succ (w : UInt32) (rest : Bytes) (i : Nat) :
    Bytes.word? (Word.toBytes w ++ rest) (i + 1) = rest.word? i := by
  have h : 4 * (i + 1) = (Word.toBytes w).length + 4 * i := by
    rw [Word.length_toBytes]
    omega
  simp only [word?, h, List.drop_length_add_append]

/-- A word that can be read is the word. -/
theorem word_eq_of_word? {bytes : Bytes} {i : Nat} {w : UInt32} (h : bytes.word? i = some w) :
    bytes.word i = w := by
  unfold word
  rw [h]
  rfl

/-- Writing a word keeps the length of the run. -/
theorem length_setWord? {bytes after : Bytes} {i : Nat} {w : UInt32}
    (h : bytes.setWord? i w = some after) : after.length = bytes.length := by
  unfold setWord? at h
  split at h
  · simp only [Option.some.injEq] at h
    subst h
    simp only [List.length_append, List.length_take, List.length_drop, Word.length_toBytes]
    omega
  · exact absurd h (by simp)

/-- Writing a word, wherever it lies, keeps the length of the run. -/
@[simp] theorem length_setWord (bytes : Bytes) (i : Nat) (w : UInt32) :
    (bytes.setWord i w).length = bytes.length := by
  unfold setWord
  cases h : bytes.setWord? i w with
  | none => rfl
  | some after => exact length_setWord? h

theorem length_slice (bytes : Bytes) {offset length : Nat} (h : offset + length ≤ bytes.length) :
    (bytes.slice offset length).length = length := by
  simp only [slice, List.length_take, List.length_drop]
  omega

/-- Replacing a part inside the run keeps the length of the run. -/
theorem length_splice (bytes part : Bytes) {offset : Nat}
    (h : offset + part.length ≤ bytes.length) :
    (bytes.splice offset part).length = bytes.length := by
  simp only [splice, List.length_append, List.length_take, List.length_drop]
  omega

end Bytes

end Framecast
