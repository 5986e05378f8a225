import Framecast.Proofs.Fields.Encoding

/-!
# The storage of an instance that was given nothing

It is filled by one pass over the properties, which starts from zeros. Each plain default
was accepted when the layout was compiled, so it is encoded, and it replaces all of the
property's own bytes, which no other property shares. So after any part of the pass the
defaults of the properties that were visited are in their places and all other bytes are
zero. Two storages of which this is true for the same properties are equal, so the order
of the pass does not matter.
-/

namespace Framecast

/-- A property that is encoded in place and has a value for an instance that was given none. -/
structure Property.HasPlainDefault (p : Property) (value : Value) : Prop where
  /-- It is encoded in place. -/
  plain : p.kind.isPlain = true
  /-- The value. -/
  default : p.default? = some value

namespace Property

variable {p : Property} {value : Value} {storage part part' : Bytes}

/-- The default of a sound property can be encoded, whatever is in its place. -/
theorem HasPlainDefault.encodes (h : p.HasPlainDefault value) (hsound : p.IsSound)
    (bytes : Bytes) : ∃ part, p.encodePlain value bytes = .ok part := by
  have hvalid := (hsound.default value h.default).1
  obtain ⟨words, hwords, hcount⟩ := plainWords?_of_validate hsound h.plain hvalid
  exact ⟨_, (encodePlain_eq_ok_iff hsound).mpr ⟨h.plain, hvalid, words, hwords, hcount, rfl⟩⟩

/-- Where there is a plain default, it is encoded over what is in its place. -/
theorem HasPlainDefault.storeDefault (h : p.HasPlainDefault value)
    (hpart : p.encodePlain value (p.slice storage) = .ok part) :
    Layout.storeDefault storage p = p.splice storage part := by
  unfold Layout.storeDefault
  rw [h.default]
  dsimp only
  rw [if_pos h.plain, hpart]

/-- Where there is no plain default, nothing is stored. -/
theorem storeDefault_of_none (h : ∀ value, ¬p.HasPlainDefault value) :
    Layout.storeDefault storage p = storage := by
  unfold Layout.storeDefault
  split
  · rename_i value hvalue
    rw [if_neg fun hplain => h value ⟨hplain, hvalue⟩]
  · rfl

theorem HasPlainDefault.unique {other : Value} (h : p.HasPlainDefault value)
    (h' : p.HasPlainDefault other) : value = other :=
  Option.some.inj (h.default.symm.trans h'.default)

theorem Encoded.unique (h : p.Encoded value part) (h' : p.Encoded value part') : part = part' := by
  obtain ⟨words, hwords, -, rfl⟩ := h.words
  obtain ⟨words', hwords', -, rfl⟩ := h'.words
  rw [Option.some.inj (hwords.symm.trans hwords')]

end Property

namespace Layout

variable {layout : Layout} {visited props : List Property} {storage storage' : Bytes} {n : Nat}

/-- A byte that belongs to none of the properties with a plain default. -/
def IsSpare (props : List Property) (n : Nat) : Prop :=
  ∀ p ∈ props, ∀ value, p.HasPlainDefault value → n < p.offset ∨ p.stop ≤ n

/-- Storage in which the plain defaults of the properties visited are in their places, and
nothing else is. -/
structure Defaulted (layout : Layout) (visited : List Property) (storage : Bytes) : Prop where
  /-- It has the length of an instance. -/
  length : storage.length = layout.byteLength
  /-- The own bytes of a property that was visited are those of its default. -/
  encoded : ∀ p ∈ visited, ∀ value, p.HasPlainDefault value → p.Encoded value (p.slice storage)
  /-- All other bytes are zero. -/
  spare : ∀ n < layout.byteLength, IsSpare visited n → storage[n]? = some 0

/-- Zeros hold no default. -/
theorem defaulted_zeros (layout : Layout) :
    layout.Defaulted [] (Bytes.zeros layout.byteLength) where
  length := Bytes.length_zeros _
  encoded _ hp := nomatch hp
  spare _ hn _ := List.getElem?_replicate_of_lt hn

/-- Visiting one more property puts its default in its place and leaves the others alone. -/
theorem Defaulted.visit (h : layout.Defaulted visited storage) (hsound : layout.IsSound)
    (hvisited : ∀ q ∈ visited, q ∈ layout.props) {p : Property} (hp : p ∈ layout.props) :
    layout.Defaulted (p :: visited) (storeDefault storage p) := by
  by_cases hdefault : ∃ value, p.HasPlainDefault value
  · obtain ⟨value, hvalue⟩ := hdefault
    have hslice := hsound.length_slice hp h.length
    obtain ⟨part, hpart⟩ := hvalue.encodes (hsound.sound p hp) (p.slice storage)
    have hencoded := Property.encoded_of_encodePlain (hsound.sound p hp) hslice hpart
    rw [hvalue.storeDefault hpart]
    constructor
    · exact hsound.length_splice hp h.length hencoded.length
    · intro q hq other hother
      by_cases hqp : q = p
      · subst hqp
        rw [hsound.slice_splice_self hp h.length hencoded.length, ← hvalue.unique hother]
        exact hencoded
      · have hq := (List.mem_cons.mp hq).resolve_left hqp
        rw [hsound.slice_splice_of_ne hp (hvisited q hq) (Ne.symm hqp) h.length hencoded.length]
        exact h.encoded q hq other hother
    · intro n hn hspare
      have houtside : ¬(p.offset ≤ n ∧ n < p.offset + part.length) := by
        have := hspare p List.mem_cons_self value hvalue
        rw [hencoded.length]
        unfold Property.stop at this
        omega
      have hinside : p.offset + part.length ≤ storage.length := by
        rw [h.length, hencoded.length]
        exact hsound.stop_le p hp
      unfold Property.splice
      rw [Bytes.getElem?_splice hinside, if_neg houtside]
      exact h.spare n hn fun q hq => hspare q (List.mem_cons_of_mem _ hq)
  · have hnone (value : Value) : ¬p.HasPlainDefault value := fun h => hdefault ⟨value, h⟩
    rw [Property.storeDefault_of_none hnone]
    refine ⟨h.length, fun q hq other hother => ?_, fun n hn hspare => ?_⟩
    · rcases List.mem_cons.mp hq with rfl | hq
      · exact absurd hother (hnone other)
      · exact h.encoded q hq other hother
    · exact h.spare n hn fun q hq => hspare q (List.mem_cons_of_mem _ hq)

/-- A pass over properties of the layout puts all their defaults in their places. -/
theorem Defaulted.pass (h : layout.Defaulted visited storage) (hsound : layout.IsSound)
    (hvisited : ∀ q ∈ visited, q ∈ layout.props) (hprops : ∀ p ∈ props, p ∈ layout.props) :
    layout.Defaulted (props.reverse ++ visited) (props.foldl storeDefault storage) := by
  induction props generalizing visited storage with
  | nil => exact h
  | cons p props ih =>
    have hp := hprops p List.mem_cons_self
    rw [List.reverse_cons, List.append_assoc]
    refine ih (h.visit hsound hvisited hp) (fun q hq => ?_) fun q hq =>
      hprops q (List.mem_cons_of_mem _ hq)
    rcases List.mem_cons.mp hq with rfl | hq
    · exact hp
    · exact hvisited q hq

/-- The defaults of the properties that were visited determine the whole storage. -/
theorem Defaulted.unique (h : layout.Defaulted visited storage)
    (h' : layout.Defaulted props storage') (hsame : ∀ p, p ∈ visited ↔ p ∈ props) :
    storage = storage' := by
  apply List.ext_getElem?
  intro n
  by_cases hn : n < layout.byteLength
  · by_cases hspare : IsSpare visited n
    · have hspare' : IsSpare props n := fun p hp => hspare p ((hsame p).mpr hp)
      rw [h.spare n hn hspare, h'.spare n hn hspare']
    · -- the byte is one of a default, and it is found there in both
      unfold IsSpare at hspare
      push Not at hspare
      obtain ⟨p, hp, value, hvalue, hlow, hhigh⟩ := hspare
      have hslice := (h.encoded p hp value hvalue).unique
        (h'.encoded p ((hsame p).mp hp) value hvalue)
      have hbyte (bytes : Bytes) : bytes[n]? = (p.slice bytes)[n - p.offset]? := by
        unfold Property.slice
        unfold Property.stop at hhigh
        rw [Bytes.getElem?_slice, if_pos (by omega), Nat.add_sub_cancel' hlow]
      rw [hbyte storage, hbyte storage', hslice]
  · rw [List.getElem?_eq_none (by rw [h.length]; omega),
      List.getElem?_eq_none (by rw [h'.length]; omega)]

/-- A pass over all properties, in any order, puts all defaults in their places. -/
theorem IsSound.defaulted (h : layout.IsSound) {order : List Property}
    (horder : order.Perm layout.props) :
    layout.Defaulted order (order.foldl storeDefault (Bytes.zeros layout.byteLength)) := by
  have hpass := (defaulted_zeros layout).pass h (fun _ hq => nomatch hq)
    fun p hp => horder.mem_iff.mp hp
  rw [List.append_nil] at hpass
  exact ⟨hpass.length, fun p hp => hpass.encoded p (List.mem_reverse.mpr hp),
    fun n hn hspare => hpass.spare n hn fun p hp => hspare p (List.mem_reverse.mp hp)⟩

/-- The storage of an instance that was given nothing is its plain defaults, each in its place. -/
structure DefaultsExactly (layout : Layout) : Prop where
  /-- It has the length of an instance. -/
  length : layout.defaultBytes.length = layout.byteLength
  /-- No plain default is ever refused, whatever is in its place. -/
  accepted : ∀ p ∈ layout.props, ∀ value, p.HasPlainDefault value → ∀ bytes,
    ∃ part, p.encodePlain value bytes = .ok part
  /-- Every plain default is decoded from the property's own bytes. -/
  decoded : ∀ p ∈ layout.props, ∀ value, p.HasPlainDefault value →
    p.plainValue? (p.slice layout.defaultBytes) = some value
  /-- Bytes of no plain default are zero. -/
  spare : ∀ n < layout.byteLength, IsSpare layout.props n → layout.defaultBytes[n]? = some 0
  /-- In whatever order the properties are visited, the storage is the same. -/
  anyOrder : ∀ order : List Property, order.Perm layout.props →
    order.foldl storeDefault (Bytes.zeros layout.byteLength) = layout.defaultBytes

/-- An instance of a compiled layout that was given nothing holds exactly the plain defaults. -/
theorem IsCompiled.defaults_exactly (h : layout.IsCompiled) : layout.DefaultsExactly := by
  have hsound := h.isSound
  have hdefaulted : layout.Defaulted layout.props layout.defaultBytes :=
    hsound.defaulted (List.Perm.refl _)
  constructor
  · exact hdefaulted.length
  · intro p hp value hvalue
    exact hvalue.encodes (hsound.sound p hp)
  · intro p hp value hvalue
    exact (hdefaulted.encoded p hp value hvalue).decoded
  · exact hdefaulted.spare
  · intro order horder
    exact (hsound.defaulted horder).unique hdefaulted fun p => horder.mem_iff

end Layout

namespace Samples

/-- A ratio whose default is a NaN with a payload. -/
def ratio : Declaration :=
  { Declaration.ofKind "ratio" .f32 with default? := some (.float ⟨0x7FC00001⟩) }

/-- What a mixer declares: a mark without a default, a ratio, a title, which is not plain, and a
step of five. -/
def mixerDeclared : List Declaration :=
  [.ofKind "mark" .u32, ratio,
    { Declaration.ofKind "title" .string with default? := some (.text "mixer") },
    { Declaration.ofKind "step" .u32 with default? := some (.word 5) }]

/-- The layout of a mixer. -/
def mixer : Layout := .packed "mixer" mixerDeclared

theorem isCompiled_mixer : mixer.IsCompiled :=
  ⟨"mixer", mixerDeclared, by decide, by decide +kernel⟩

/-- A mixer that was given nothing has the ratio and the step in their places and zeros in the
others, also if its properties are visited backwards, and the NaN is decoded with its payload. -/
theorem defaults_exactly_mixer :
    mixer.defaultBytes = [0, 0, 0, 0, 1, 0, 0xC0, 0x7F, 0, 0, 0, 0, 5, 0, 0, 0] ∧
    (ratio.place 4).plainValue? ((ratio.place 4).slice mixer.defaultBytes) =
      some (.float ⟨0x7FC00001⟩) ∧
    mixer.props.reverse.foldl Layout.storeDefault (Bytes.zeros 16) = mixer.defaultBytes := by
  have hexact := isCompiled_mixer.defaults_exactly
  refine ⟨by decide +kernel, ?_, hexact.anyOrder _ (List.reverse_perm mixer.props)⟩
  exact hexact.decoded (ratio.place 4) (by decide +kernel) _ ⟨rfl, rfl⟩

end Samples

end Framecast
