import Mathlib.Data.Nat.Digits.Defs
import Mathlib.Data.Set.Function
import Framecast.Proofs.Storage.Lens
import Framecast.Ring.Record

/-!
# How records are spelt

A record is spelt in twelve bytes: three numbers to the base 256 of four digits each,
the least significant digit first. The first number stands for the command, the second
is the tick and the third the resource. As every number has four digits, not only do
the digits determine the number but also the number its digits. So a record has one
spelling, and twelve bytes spell one record or none; they spell none exactly if the
first number is neither zero nor one.

Encoding gives the spelling of a record. Decoding gives the record that is spelt or,
where none is, the first number, and thus undoes encoding and is undone by it.
-/

namespace Framecast

namespace Bytes

variable {bytes other : Bytes} {i : Nat}

/-- The number whose digits to the base 256 are the bytes, the least significant first. -/
def number (bytes : Bytes) : Nat := Nat.ofDigits 256 (bytes.map UInt8.toNat)

/-- Runs of the same length that denote the same number are the same. -/
theorem eq_of_number_eq (hlength : bytes.length = other.length)
    (h : bytes.number = other.number) : bytes = other := by
  have hdigits (run : Bytes) : ∀ d ∈ run.map UInt8.toNat, d < 256 := by
    intro d hd
    obtain ⟨byte, -, rfl⟩ := List.mem_map.mp hd
    exact byte.toNat_lt
  have hlengths : (bytes.map UInt8.toNat).length = (other.map UInt8.toNat).length := by
    rw [List.length_map, List.length_map, hlength]
  have hmap : bytes.map UInt8.toNat = other.map UInt8.toNat :=
    Nat.ofDigits_inj_of_len_eq (by omega) hlengths (hdigits bytes) (hdigits other) h
  exact (List.map_inj_right fun _ _ => UInt8.toNat_inj.mp).mp hmap

/-- The bytes of a word denote it. -/
@[simp] theorem number_toBytes (w : UInt32) : number (Word.toBytes w) = w.toNat := by
  have h := w.toNat_lt
  simp only [number, Word.toBytes, List.map_cons, List.map_nil, Nat.ofDigits_cons,
    Nat.ofDigits_nil, UInt8.toNat_ofNat']
  omega

/-- A word that can be read is the number that its four bytes denote. -/
theorem number_slice_of_word? {w : UInt32} (h : bytes.word? i = some w) :
    (bytes.slice (4 * i) 4).number = w.toNat := by
  rw [word?_eq_some_iff.mp h, number_toBytes]

/-- The three numbers that twelve bytes denote are their words. -/
theorem number_slices (h : bytes.length = 12) :
    (bytes.slice 0 4).number = (bytes.word 0).toNat ∧
      (bytes.slice 4 4).number = (bytes.word 1).toNat ∧
      (bytes.slice 8 4).number = (bytes.word 2).toNat := by
  have hread (i : Nat) (hi : i < 3) : bytes.word? i = some (bytes.word i) := word?_eq (by omega)
  exact ⟨number_slice_of_word? (hread 0 (by omega)), number_slice_of_word? (hread 1 (by omega)),
    number_slice_of_word? (hread 2 (by omega))⟩

/-- Twelve bytes are three times four bytes. -/
theorem append_slices (h : bytes.length = 12) :
    bytes.slice 0 4 ++ (bytes.slice 4 4 ++ bytes.slice 8 4) = bytes := by
  have hlast : bytes.slice 8 4 = bytes.drop 8 :=
    List.take_of_length_le (by rw [List.length_drop]; omega)
  calc
    _ = bytes.slice 0 4 ++ (bytes.slice 4 4 ++ bytes.drop 8) := by rw [hlast]
    _ = bytes.slice 0 4 ++ bytes.drop 4 := congrArg _ (bytes.slice_append_drop 4 4)
    _ = bytes := bytes.slice_append_drop 0 4

end Bytes

namespace Command

/-- The word of a command is zero for a creation and one for a disposal. -/
theorem toNat_word (c : Command) : c.word.toNat = if c = create then 0 else 1 := by
  cases c <;> rfl

theorem ofWord?_eq_none_iff {w : UInt32} : ofWord? w = none ↔ w ≠ 0 ∧ w ≠ 1 := by
  unfold ofWord?
  split_ifs <;> simp_all

end Command

namespace Record

variable {bytes other : Bytes} {record : Record} {w : UInt32}

/-- The bytes spell a record. -/
structure Spells (bytes : Bytes) (record : Record) : Prop where
  /-- There are twelve of them. -/
  length : bytes.length = 12
  /-- The first number is zero for a creation and one for a disposal. -/
  command : (bytes.slice 0 4).number = if record.command = .create then 0 else 1
  /-- The second number is the tick. -/
  tick : (bytes.slice 4 4).number = record.tick.toNat
  /-- The third number is the resource. -/
  id : (bytes.slice 8 4).number = record.id.toNat

/-- The first number of the bytes stands for a command: it is zero or one. -/
def NamesCommand (bytes : Bytes) : Prop :=
  (bytes.slice 0 4).number = 0 ∨ (bytes.slice 0 4).number = 1

/-- A record is encoded as its spelling. -/
theorem spells_encode (record : Record) : Spells record.encode record where
  length := record.length_encode
  command := (Bytes.number_slice_of_word? record.word?_encode_zero).trans
    (Command.toNat_word record.command)
  tick := Bytes.number_slice_of_word? record.word?_encode_one
  id := Bytes.number_slice_of_word? record.word?_encode_two

/-- A record has no two spellings. -/
theorem Spells.unique (h : Spells bytes record) (h' : Spells other record) : bytes = other := by
  have hpart {offset : Nat} (hinside : offset + 4 ≤ 12)
      (heq : (bytes.slice offset 4).number = (other.slice offset 4).number) :
      bytes.slice offset 4 = other.slice offset 4 := by
    refine Bytes.eq_of_number_eq ?_ heq
    rw [Bytes.length_slice bytes (h.length ▸ hinside),
      Bytes.length_slice other (h'.length ▸ hinside)]
  rw [← Bytes.append_slices h.length, ← Bytes.append_slices h'.length,
    hpart (by omega) (h.command.trans h'.command.symm),
    hpart (by omega) (h.tick.trans h'.tick.symm), hpart (by omega) (h.id.trans h'.id.symm)]

theorem encode_eq_iff : record.encode = bytes ↔ Spells bytes record :=
  ⟨fun h => h ▸ record.spells_encode, fun h => record.spells_encode.unique h⟩

/-- What is decoded is made of the words of the bytes, of which the first names the command. -/
theorem words_of_decode (h : decode bytes = .ok record) :
    bytes.word 0 = record.command.word ∧ bytes.word 1 = record.tick ∧
      bytes.word 2 = record.id := by
  unfold decode at h
  split at h
  · rename_i command hcommand
    cases h
    exact ⟨(Command.word_of_ofWord? hcommand).symm, rfl, rfl⟩
  · cases h

/-- Twelve bytes are decoded as the record that they spell. -/
theorem decode_eq_ok_iff (h : bytes.length = 12) :
    decode bytes = .ok record ↔ Spells bytes record := by
  constructor
  · intro hdecode
    obtain ⟨hcommand, htick, hid⟩ := words_of_decode hdecode
    obtain ⟨hzero, hone, htwo⟩ := Bytes.number_slices h
    refine ⟨h, ?_, ?_, ?_⟩
    · rw [hzero, hcommand, Command.toNat_word]
    · rw [hone, htick]
    · rw [htwo, hid]
  · intro hspells
    rw [← encode_eq_iff.mpr hspells, decode_encode]

/-- Bytes are refused exactly if their first word names no command, and it is handed back. -/
theorem decode_eq_error_iff :
    decode bytes = .error w ↔ bytes.word 0 = w ∧ w ≠ 0 ∧ w ≠ 1 := by
  rw [← Command.ofWord?_eq_none_iff]
  unfold decode
  constructor
  · intro h
    split at h
    · cases h
    · rename_i hnone
      cases h
      exact ⟨rfl, hnone⟩
  · rintro ⟨rfl, hnone⟩
    rw [hnone]

/-- Bytes that spell a record name its command. -/
theorem Spells.namesCommand (h : Spells bytes record) : NamesCommand bytes := by
  unfold NamesCommand
  rw [h.command]
  split_ifs
  · exact .inl rfl
  · exact .inr rfl

/-- Twelve bytes are a record exactly if the first number names a command. -/
theorem exists_decode_iff (h : bytes.length = 12) :
    (∃ record, decode bytes = .ok record) ↔ NamesCommand bytes := by
  constructor
  · rintro ⟨record, hdecode⟩
    exact ((decode_eq_ok_iff h).mp hdecode).namesCommand
  · intro hnames
    cases hdecode : decode bytes with
    | ok record => exact ⟨record, rfl⟩
    | error w =>
      obtain ⟨rfl, hzero, hone⟩ := decode_eq_error_iff.mp hdecode
      unfold NamesCommand at hnames
      rw [(Bytes.number_slices h).1] at hnames
      rcases hnames with hword | hword
      · exact absurd (UInt32.toNat_inj.mp hword) hzero
      · exact absurd (UInt32.toNat_inj.mp hword) hone

/-- Twelve bytes that are no record are refused with their first number. -/
theorem exists_error_of_not_namesCommand (h : bytes.length = 12) (hnot : ¬NamesCommand bytes) :
    ∃ w, decode bytes = .error w ∧ w.toNat = (bytes.slice 0 4).number := by
  cases hdecode : decode bytes with
  | ok record => exact absurd ((exists_decode_iff h).mp ⟨record, hdecode⟩) hnot
  | error w =>
    obtain ⟨rfl, -⟩ := decode_eq_error_iff.mp hdecode
    exact ⟨_, rfl, (Bytes.number_slices h).1.symm⟩

/-- Different records are encoded differently. -/
theorem encode_injective : Function.Injective encode := by
  intro record other h
  have hdecode : decode record.encode = decode other.encode := congrArg decode h
  rw [decode_encode, decode_encode] at hdecode
  exact Except.ok.inj hdecode

/-- Records and the bytes that spell one correspond to each other. -/
structure AreSpelt : Prop where
  /-- A record is encoded as the bytes that spell it, and as no others. -/
  encoded (record : Record) (bytes : Bytes) : record.encode = bytes ↔ Spells bytes record
  /-- A record is decoded from its encoding. -/
  decoded (record : Record) : decode record.encode = .ok record
  /-- Twelve bytes are decoded exactly if their first number is zero or one. -/
  accepted {bytes : Bytes} : bytes.length = 12 →
    ((∃ record, decode bytes = .ok record) ↔ NamesCommand bytes)
  /-- Encoding what was decoded gives the same twelve bytes. -/
  restored {bytes : Bytes} {record : Record} : bytes.length = 12 →
    decode bytes = .ok record → record.encode = bytes
  /-- Other twelve bytes are refused, and their first number is reported. -/
  reported {bytes : Bytes} : bytes.length = 12 → ¬NamesCommand bytes →
    ∃ w, decode bytes = .error w ∧ w.toNat = (bytes.slice 0 4).number
  /-- Different records are encoded differently. -/
  distinct : Function.Injective encode
  /-- Encoding is one-to-one between all records and all twelve bytes that are decoded. -/
  bijective : Set.BijOn encode Set.univ {bytes | bytes.length = 12 ∧ NamesCommand bytes}

/-- Every record has one spelling, and every twelve bytes whose first number is zero or one are
the spelling of one record. -/
theorem records_are_spelt : AreSpelt where
  encoded _ _ := encode_eq_iff
  decoded := decode_encode
  accepted := exists_decode_iff
  restored h hdecode := encode_eq_iff.mpr ((decode_eq_ok_iff h).mp hdecode)
  reported := exists_error_of_not_namesCommand
  distinct := encode_injective
  bijective := by
    refine ⟨fun record _ => ?_, encode_injective.injOn, fun bytes ⟨hlength, hnames⟩ => ?_⟩
    · exact ⟨record.length_encode, record.spells_encode.namesCommand⟩
    · obtain ⟨record, hdecode⟩ := (exists_decode_iff hlength).mpr hnames
      exact ⟨record, trivial, encode_eq_iff.mpr ((decode_eq_ok_iff hlength).mp hdecode)⟩

/-- A disposal and its bytes; with a nine in front these are no record. -/
example :
    encode ⟨.dispose, 0x01020304, 7⟩ = [1, 0, 0, 0, 4, 3, 2, 1, 7, 0, 0, 0] ∧
      decode [9, 0, 0, 0, 4, 3, 2, 1, 7, 0, 0, 0] = .error 9 := ⟨rfl, rfl⟩

end Record

end Framecast
