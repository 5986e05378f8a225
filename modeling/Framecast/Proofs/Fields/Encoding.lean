import Framecast.Proofs.Fields.Roundtrip

/-!
# Encoding in place

A property takes the values of its shape that respect its bounds, and no others. Where it
is plain, such a value becomes as many words as the property has, so the bytes that were
there before are all replaced, and the value is decoded from the new ones bit by bit. Word
by word and in place, encoding starts only after the value was accepted, so a refusal
leaves the bytes as they were.
-/

namespace Framecast

namespace Bytes

/-- Writing as many words as a run has leaves nothing of what it was. -/
theorem setWords_eq_flatMap {bytes : Bytes} {ws : List UInt32}
    (h : bytes.length = 4 * ws.length) : bytes.setWords ws = ws.flatMap Word.toBytes := by
  have hfold (ws : List UInt32) (k : Nat) (done rest : Bytes) (hdone : done.length = 4 * k)
      (hrest : rest.length = 4 * ws.length) :
      (ws.zipIdx k).foldl (fun run entry => run.setWord entry.2 entry.1) (done ++ rest) =
        done ++ ws.flatMap Word.toBytes := by
    induction ws generalizing k done rest with
    | nil =>
      obtain rfl := List.eq_nil_of_length_eq_zero hrest
      rfl
    | cons w ws ih =>
      rw [List.length_cons] at hrest
      have hset : (done ++ rest).setWord k w = (done ++ Word.toBytes w) ++ rest.drop 4 := by
        rw [setWord_eq_splice (by rw [List.length_append]; omega), splice, Word.length_toBytes,
          ← hdone, List.take_left, List.drop_length_add_append]
      rw [List.zipIdx_cons, List.foldl_cons, hset,
        ih (k + 1) _ _ (by rw [List.length_append, Word.length_toBytes]; omega)
          (by rw [List.length_drop]; omega), List.flatMap_cons, List.append_assoc]
  exact hfold ws 0 [] bytes rfl h

end Bytes

namespace Property

variable {p : Property} {value : Value} {bytes part : Bytes}

/-- The values that have the shape of a property. -/
inductive Fits (p : Property) : Value → Prop where
  /-- A truth value. -/
  | bool (hkind : p.kind = .bool) (b : Bool) : p.Fits (.bool b)
  /-- A number, flags or a variant. -/
  | word (hkind : p.kind = .u32 ∨ p.kind = .bitmask ∨ p.kind = .enumeration) (w : UInt32) :
    p.Fits (.word w)
  /-- A single. -/
  | float (hkind : p.kind = .f32) (x : Binary32) : p.Fits (.float x)
  /-- Exactly as many components as the property has. -/
  | floats (hkind : p.kind ∈ [.vec2, .vec3, .rgb, .rgba, .quat, .mat4]) (xs : List Binary32)
    (hcount : xs.length = p.count) : p.Fits (.floats xs)
  /-- A text. -/
  | text (hkind : p.kind = .string) (s : String) : p.Fits (.text s)
  /-- A raw buffer. -/
  | buffer (hkind : p.kind = .arrayBuffer) (b : RawBuffer) : p.Fits (.buffer b)
  /-- A reference, or none. -/
  | ref (hkind : p.kind = .ref) (target : Option ResourceId) : p.Fits (.ref target)
  /-- References for at most all elements, none of them left out. -/
  | dense (hkind : p.kind = .refArray) (ids : List ResourceId) (hcount : ids.length ≤ p.count) :
    p.Fits (.refs (ids.map some))
  /-- References for at most all slots, some of them left out. -/
  | slots (hkind : p.kind = .refMap) (slots : List (Option ResourceId))
    (hcount : slots.length ≤ p.count) : p.Fits (.refs slots)

/-- A value that, as far as it is a number, lies neither below the lower bound nor above the
upper one. -/
def Admits (p : Property) (value : Value) : Prop :=
  ∀ x, value.number? = some x →
    (∀ low, p.min? = some low → x.less low = false) ∧
      ∀ high, p.max? = some high → high.less x = false

/-- A list of references with none left out is a list of references. -/
theorem exists_map_some {slots : List (Option ResourceId)} (h : slots.all Option.isSome = true) :
    ∃ ids : List ResourceId, slots = ids.map some := by
  induction slots with
  | nil => exact ⟨[], rfl⟩
  | cons slot rest ih =>
    rw [List.all_cons, Bool.and_eq_true] at h
    obtain ⟨id, rfl⟩ := Option.isSome_iff_exists.mp h.1
    obtain ⟨ids, rfl⟩ := ih h.2
    exact ⟨id :: ids, rfl⟩

/-- A value has the shape of a property exactly if the check says so. -/
theorem checkShape_eq_ok_iff : p.checkShape value = .ok () ↔ p.Fits value := by
  constructor
  · intro h
    unfold checkShape at h
    split at h
    all_goals try rename_i hkind
    case h_1 => exact .bool hkind _
    case h_2 | h_3 | h_4 => exact .word (by simp [hkind]) _
    case h_5 => exact .float hkind _
    case h_6 | h_7 | h_8 | h_9 | h_10 | h_11 =>
      split at h
      · exact .floats (by simp [hkind]) _ ‹_›
      · cases h
    case h_12 => exact .text hkind _
    case h_13 => exact .buffer hkind _
    case h_14 => exact .ref hkind _
    case h_15 =>
      split at h
      · cases h
      · rename_i hcount
        split at h
        · rename_i hall
          obtain ⟨ids, rfl⟩ := exists_map_some hall
          rw [List.length_map] at hcount
          exact .dense hkind ids (Nat.le_of_not_lt hcount)
        · cases h
    case h_16 =>
      split at h
      · cases h
      · exact .slots hkind _ (Nat.le_of_not_lt ‹_›)
    case h_17 => cases h
  · intro h
    unfold checkShape
    cases h with
    | bool hkind | float hkind | text hkind | buffer hkind | ref hkind => rw [hkind]
    | word hkind => rcases hkind with hkind | hkind | hkind <;> rw [hkind]
    | floats hkind xs hcount =>
      simp only [List.mem_cons, List.not_mem_nil, or_false] at hkind
      rcases hkind with hkind | hkind | hkind | hkind | hkind | hkind <;> rw [hkind] <;>
        exact if_pos hcount
    | dense hkind ids hcount =>
      rw [hkind]
      dsimp only
      rw [if_neg (by rw [List.length_map]; omega), if_pos (by simp)]
    | slots hkind slots hcount =>
      rw [hkind]
      exact if_neg (Nat.not_lt_of_le hcount)

/-- A value passes the check of the bounds exactly if it is admitted by them. -/
theorem checkBounds_eq_ok_iff : p.checkBounds value = .ok () ↔ p.Admits value := by
  unfold checkBounds Admits
  cases value.number? with
  | none => exact ⟨fun _ x hx => (nomatch hx), fun _ => rfl⟩
  | some x =>
    have hinside : (p.below x || p.above x) = false ↔
        (∀ low, p.min? = some low → x.less low = false) ∧
          ∀ high, p.max? = some high → high.less x = false := by
      rw [Bool.or_eq_false_iff]
      unfold below above
      cases p.min? <;> cases p.max? <;> simp
    simp only [Option.some.injEq, forall_eq']
    rw [← hinside]
    cases p.below x || p.above x <;> simp

/-- A property accepts the values of its shape that its bounds admit, and no others. -/
theorem validate_eq_ok_iff : p.validate value = .ok () ↔ p.Fits value ∧ p.Admits value := by
  unfold validate
  rw [Layout.bind_eq_ok_iff, checkShape_eq_ok_iff, checkBounds_eq_ok_iff]

/-- A value is encoded exactly if the property is plain and accepts it, and then as its words. -/
theorem encodePlain_eq_ok_iff (hsound : p.IsSound) :
    p.encodePlain value bytes = .ok part ↔
      p.kind.isPlain = true ∧ p.validate value = .ok () ∧
        ∃ words, plainWords? value = some words ∧ words.length = p.count ∧
          part = bytes.setWords words := by
  constructor
  · intro h
    have hplain := isPlain_of_encodePlain h
    obtain ⟨_, hvalid, hencoded⟩ := Layout.ok_of_bind h
    obtain ⟨words, hwords, hcount⟩ := plainWords?_of_validate hsound hplain hvalid
    rw [hwords] at hencoded
    cases hencoded
    exact ⟨hplain, hvalid, words, hwords, hcount, rfl⟩
  · rintro ⟨-, hvalid, words, hwords, -, rfl⟩
    unfold encodePlain
    rw [hvalid, hwords]
    rfl

/-- Encodes a plain value in place: word by word over the bytes at hand, once it was accepted.
What was written before a failure would stay. -/
def overwrite (p : Property) (value : Value) : EStateM SchemaError Bytes Unit := do
  match p.validate value with
  | .ok _ => pure ()
  | .error e => throw e
  match value with
  | .bool b => modify (·.setWord 0 (if b then 1 else 0))
  | .word w => modify (·.setWord 0 w)
  | .float x => modify (·.setWord 0 x.bits)
  | .floats xs => xs.zipIdx.forM fun (x, i) => modify (·.setWord i x.bits)
  | .text _ | .buffer _ | .ref _ | .refs _ => throw (.kindMismatch p.name p.kind)

/-- Writing components one after another writes their words. -/
theorem run_forM_setWord (xs : List Binary32) (k : Nat) (bytes : Bytes) :
    ((xs.zipIdx k).forM fun (x, i) => modify (·.setWord i x.bits) :
        EStateM SchemaError Bytes Unit).run bytes =
      .ok () (((xs.map Binary32.bits).zipIdx k).foldl
        (fun run entry => run.setWord entry.2 entry.1) bytes) := by
  induction xs generalizing k bytes with
  | nil => rfl
  | cons x xs ih => exact ih (k + 1) (bytes.setWord k x.bits)

/-- Encoding in place ends with the encoded bytes, or refuses and leaves the bytes as they were. -/
theorem run_overwrite (p : Property) (value : Value) (bytes : Bytes) :
    (p.overwrite value).run bytes =
      match p.encodePlain value bytes with
      | .ok part => .ok () part
      | .error e => .error e bytes := by
  unfold overwrite encodePlain
  cases hvalid : p.validate value with
  | error e => rfl
  | ok u =>
    cases value with
    | floats xs => exact run_forM_setWord xs 0 bytes
    | bool | word | float | text | buffer | ref | refs => rfl

/-- What is left in the own bytes of a property once a value was encoded there. -/
structure Encoded (p : Property) (value : Value) (part : Bytes) : Prop where
  /-- There are as many words as the property has, and they are those of the value. -/
  words : ∃ words, plainWords? value = some words ∧ words.length = p.count ∧
    part = words.flatMap Word.toBytes
  /-- They are as many bytes as the property has. -/
  length : part.length = p.length
  /-- The value is decoded from them. -/
  decoded : p.plainValue? part = some value
  /-- Whatever had been there in their place, they would be the same. -/
  fresh : ∀ bytes : Bytes, bytes.length = p.length → p.encodePlain value bytes = .ok part

/-- A value that is encoded takes the place of everything that was there. -/
theorem encoded_of_encodePlain (hsound : p.IsSound) (hbytes : bytes.length = p.length)
    (h : p.encodePlain value bytes = .ok part) : p.Encoded value part := by
  obtain ⟨hplain, hvalid, words, hwords, hcount, rfl⟩ := (encodePlain_eq_ok_iff hsound).mp h
  have hflat (other : Bytes) (hother : other.length = p.length) :
      other.setWords words = words.flatMap Word.toBytes :=
    Bytes.setWords_eq_flatMap (by rw [hother, hcount]; rfl)
  constructor
  · exact ⟨words, hwords, hcount, hflat bytes hbytes⟩
  · rw [Bytes.length_setWords, hbytes]
  · exact plainValue?_of_validate hsound hvalid hwords (p.words_setWords hbytes hcount)
  · intro other hother
    refine (encodePlain_eq_ok_iff hsound).mpr ⟨hplain, hvalid, words, hwords, hcount, ?_⟩
    rw [hflat other hother, hflat bytes hbytes]

/-- What a property makes of a value that is to be encoded over `bytes`. -/
structure EncodesExactly (p : Property) (value : Value) (bytes : Bytes) : Prop where
  /-- The property accepts the values of its shape that its bounds admit. -/
  accepted : p.validate value = .ok () ↔ p.Fits value ∧ p.Admits value
  /-- It encodes what it accepts, if it is plain. -/
  encoded : (∃ part, p.encodePlain value bytes = .ok part) ↔
    p.kind.isPlain = true ∧ p.validate value = .ok ()
  /-- Done in place, this replaces every byte, and the value is decoded from the new ones. -/
  replaced : ∀ part, p.encodePlain value bytes = .ok part →
    (p.overwrite value).run bytes = .ok () part ∧ p.Encoded value part
  /-- If the property does not encode the value, the bytes stay as they are. -/
  refused : ∀ e, p.encodePlain value bytes = .error e →
    (p.overwrite value).run bytes = .error e bytes

end Property

/-- The properties of a compiled layout encode exactly the plain values that they accept, and
whatever their own bytes were before, these are replaced as a whole or left as they are. -/
theorem Layout.IsCompiled.encodes_exactly {layout : Layout} (h : layout.IsCompiled) {p : Property}
    (hp : p ∈ layout.props) (value : Value) {bytes : Bytes} (hbytes : bytes.length = p.length) :
    p.EncodesExactly value bytes := by
  have hsound := h.isSound.sound p hp
  constructor
  · exact Property.validate_eq_ok_iff
  · constructor
    · rintro ⟨part, hpart⟩
      obtain ⟨hplain, hvalid, -⟩ := (Property.encodePlain_eq_ok_iff hsound).mp hpart
      exact ⟨hplain, hvalid⟩
    · rintro ⟨hplain, hvalid⟩
      obtain ⟨words, hwords, hcount⟩ := Property.plainWords?_of_validate hsound hplain hvalid
      exact ⟨_, (Property.encodePlain_eq_ok_iff hsound).mpr
        ⟨hplain, hvalid, words, hwords, hcount, rfl⟩⟩
  · intro part hpart
    refine ⟨?_, Property.encoded_of_encodePlain hsound hbytes hpart⟩
    rw [Property.run_overwrite, hpart]
  · intro e he
    rw [Property.run_overwrite, he]

namespace Samples

/-- The tip of a pointer: two components. -/
def tip : Property := (Declaration.ofKind "tip" .vec2).place 0

/-- The layout of a pointer. -/
def pointer : Layout := ⟨"pointer", [tip], 8⟩

theorem isCompiled_pointer : pointer.IsCompiled :=
  ⟨"pointer", [.ofKind "tip" .vec2], by decide, by decide +kernel⟩

/-- The bytes of a pointer that was used before. -/
def worn : Bytes := List.replicate 8 0xAA

/-- A one and a NaN with a payload take the place of everything that was there, and are decoded
from what was written. A single component is refused, and leaves the bytes as they were. -/
theorem encodes_exactly_pointer :
    (tip.overwrite (.floats [⟨0x3F800000⟩, ⟨0x7FC00001⟩])).run worn =
      .ok () [0, 0, 0x80, 0x3F, 1, 0, 0xC0, 0x7F] ∧
    tip.plainValue? [0, 0, 0x80, 0x3F, 1, 0, 0xC0, 0x7F] =
      some (.floats [⟨0x3F800000⟩, ⟨0x7FC00001⟩]) ∧
    (tip.overwrite (.floats [⟨0x3F800000⟩])).run worn = .error (.lengthMismatch "tip" 2 1) worn := by
  have hexact (xs : List Binary32) : tip.EncodesExactly (.floats xs) worn :=
    isCompiled_pointer.encodes_exactly List.mem_cons_self (.floats xs) rfl
  obtain ⟨hrun, hencoded⟩ := (hexact [⟨0x3F800000⟩, ⟨0x7FC00001⟩]).replaced
    [0, 0, 0x80, 0x3F, 1, 0, 0xC0, 0x7F] (by decide +kernel)
  exact ⟨hrun, hencoded.decoded, (hexact [⟨0x3F800000⟩]).refused _ (by decide +kernel)⟩

end Samples

end Framecast
