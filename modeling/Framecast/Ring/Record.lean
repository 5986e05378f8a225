import Framecast.Word

/-!
# Records of creation and disposal

A record says that a resource is to be created or disposed of at a tick. It
travels as twelve bytes: three little-endian words for the command, the tick and
the resource. Words other than 0 and 1 name no command.
-/

namespace Framecast

/-- A resource's number; zero names no resource. -/
abbrev ResourceId := UInt32

/-- A frame of the producing loop. -/
abbrev Tick := UInt32

/-- What a record asks for. -/
inductive Command where
  /-- The resource comes into being. -/
  | create
  /-- The resource goes away. -/
  | dispose
  deriving DecidableEq, Repr, Inhabited

namespace Command

/-- The word that stands for a command. -/
def word : Command → UInt32
  | create => 0
  | dispose => 1

/-- The command a word stands for. -/
def ofWord? (w : UInt32) : Option Command :=
  if w = 0 then some create else if w = 1 then some dispose else none

@[simp] theorem ofWord?_word (c : Command) : ofWord? c.word = some c := by cases c <;> rfl

/-- Each command has one word. -/
theorem word_of_ofWord? {w : UInt32} {c : Command} (h : ofWord? w = some c) : c.word = w := by
  unfold ofWord? at h
  split at h
  · rename_i hw
    cases h
    exact hw.symm
  · split at h
    · rename_i hw
      cases h
      exact hw.symm
    · exact absurd h (by simp)

end Command

/-- One intent, stamped with the tick at which it takes effect. -/
structure Record where
  /-- Creation or disposal. -/
  command : Command
  /-- The tick from which it holds. -/
  tick : Tick
  /-- The resource it is about. -/
  id : ResourceId
  deriving DecidableEq, Repr, Inhabited

namespace Record

/-- The length of an encoded record. -/
def size : Nat := 12

/-- The twelve bytes of a record. -/
def encode (r : Record) : Bytes :=
  Word.toBytes r.command.word ++ Word.toBytes r.tick ++ Word.toBytes r.id

/-- The record spelt by a run of bytes, or the word that names no command. -/
def decode (bytes : Bytes) : Except UInt32 Record :=
  match Command.ofWord? (bytes.word 0) with
  | some command => .ok ⟨command, bytes.word 1, bytes.word 2⟩
  | none => .error (bytes.word 0)

@[simp] theorem length_encode (r : Record) : r.encode.length = size := by
  simp [encode, size]

theorem word?_encode_zero (r : Record) : Bytes.word? r.encode 0 = some r.command.word := by
  unfold encode
  rw [List.append_assoc, Bytes.word?_toBytes_append_zero]

theorem word?_encode_one (r : Record) : Bytes.word? r.encode 1 = some r.tick := by
  unfold encode
  rw [List.append_assoc, Bytes.word?_toBytes_append_succ, Bytes.word?_toBytes_append_zero]

theorem word?_encode_two (r : Record) : Bytes.word? r.encode 2 = some r.id := by
  unfold encode
  rw [List.append_assoc, Bytes.word?_toBytes_append_succ, Bytes.word?_toBytes_append_succ,
    Bytes.word?_toBytes]

/-- A run whose first word names a command spells a record. -/
theorem decode_of_command {bytes : Bytes} {command : Command}
    (h : Command.ofWord? (bytes.word 0) = some command) :
    decode bytes = .ok ⟨command, bytes.word 1, bytes.word 2⟩ := by
  unfold decode
  rw [h]

/-- A record is read back from its own bytes. -/
@[simp] theorem decode_encode (r : Record) : decode r.encode = .ok r := by
  have h0 : Bytes.word r.encode 0 = r.command.word := Bytes.word_eq_of_word? r.word?_encode_zero
  have h1 : Bytes.word r.encode 1 = r.tick := Bytes.word_eq_of_word? r.word?_encode_one
  have h2 : Bytes.word r.encode 2 = r.id := Bytes.word_eq_of_word? r.word?_encode_two
  rw [decode_of_command (by rw [h0]; exact Command.ofWord?_word _), h1, h2]

end Record

end Framecast
