import Framecast.Proofs.Storage.Holdings
import Framecast.Registry.Write

/-!
# Access to bytes, with bounds checked

Parts and words are looked up by position. Here every such look-up is guarded: there
is no answer if a position is out of range anywhere. In storage that fits its layout
there always is one, and it is what is looked up without guards.
-/

namespace Framecast

namespace Bytes

/-- The `length` bytes from `offset` on, if they are inside. -/
def slice? (bytes : Bytes) (offset length : Nat) : Option Bytes :=
  if offset + length ≤ bytes.length then some (bytes.slice offset length) else none

/-- The run with its words from word 0 on replaced by `ws`, if all of them are inside. -/
def setWords? (bytes : Bytes) (ws : List UInt32) : Option Bytes :=
  ws.zipIdx.foldlM (fun run entry => run.setWord? entry.2 entry.1) bytes

variable {bytes : Bytes}

/-- Words inside the run are replaced. -/
theorem setWords?_eq {ws : List UInt32} (h : 4 * ws.length ≤ bytes.length) :
    bytes.setWords? ws = some (bytes.setWords ws) := by
  have hfold (ws : List UInt32) (k : Nat) (bytes : Bytes) (h : 4 * (k + ws.length) ≤ bytes.length) :
      (ws.zipIdx k).foldlM (fun run entry => run.setWord? entry.2 entry.1) bytes =
        some ((ws.zipIdx k).foldl (fun run entry => run.setWord entry.2 entry.1) bytes) := by
    induction ws generalizing k bytes with
    | nil => rfl
    | cons w ws ih =>
      rw [List.length_cons] at h
      rw [List.zipIdx_cons, List.foldlM_cons, List.foldl_cons, setWord?_eq (by omega)]
      exact ih (k + 1) _ (by rw [length_setWord]; omega)
  exact hfold ws 0 bytes (by omega)

end Bytes

namespace Property

/-- The property's own bytes inside the storage of an instance, if the storage reaches that far. -/
def slice? (p : Property) (storage : Bytes) : Option Bytes := storage.slice? p.offset p.length

/-- The words of a property's own bytes, if there are that many. -/
def words? (p : Property) (bytes : Bytes) : Option (List UInt32) := bytes.words? p.count

/-- Encodes a plain value word by word, if all words are inside the property's own bytes. -/
def encodePlain? (p : Property) (value : Value) (bytes : Bytes) :
    Option (Except SchemaError Bytes) :=
  match p.validate value with
  | .error e => some (.error e)
  | .ok _ =>
    match plainWords? value with
    | some words => (bytes.setWords? words).map .ok
    | none => some (.error (.kindMismatch p.name p.kind))

/-- The slots of a property that can hold a reference, if all of them are inside its own bytes. -/
def refSlots? (p : Property) (bytes : Bytes) : Option (List (Nat × ResourceId)) :=
  match p.kind with
  | .string => (bytes.word? 0).map fun w => [(0, w)]
  | .arrayBuffer => (bytes.word? 2).map fun w => [(0, w)]
  | _ =>
    if p.isOwningRef then
      (List.range p.count).mapM fun i => (bytes.word? i).map fun w => (i, w)
    else some []

/-- The references held by one property of an instance, read within bounds. -/
def heldRefs? (p : Property) (storage : Bytes) : Option (List HeldRef) := do
  let slots ← p.refSlots? (← p.slice? storage)
  return (slots.filter (·.2 != 0)).map fun (slot, id) => ⟨p, slot, id⟩

variable {p : Property} {bytes : Bytes}

theorem slice?_eq {layout : Layout} (h : layout.IsSound) (hp : p ∈ layout.props)
    (hs : bytes.length = layout.byteLength) : p.slice? bytes = some (p.slice bytes) :=
  if_pos (hs ▸ h.stop_le p hp)

theorem words?_eq (h : bytes.length = p.length) : p.words? bytes = some (p.words bytes) :=
  Bytes.words?_eq (by rw [h]; rfl)

/-- A plain value that is accepted has no more words than its property. -/
theorem length_plainWords_le (hp : p.IsSound) {value : Value} {words : List UInt32}
    (hvalid : p.validate value = .ok ()) (hwords : plainWords? value = some words) :
    words.length ≤ p.count := by
  obtain ⟨_, hshape, -⟩ := Layout.ok_of_bind hvalid
  have hone (h : p.kind.fixedCount = some 1) : 1 ≤ p.count := Nat.le_of_eq (hp.count_eq 1 h).symm
  unfold checkShape at hshape
  cases value with
  | bool | word | float =>
    cases hwords
    cases hk : p.kind <;> rw [hk] at hshape <;>
      first | exact hone (by rw [hk]; rfl) | cases hshape
  | floats xs =>
    cases hwords
    rw [List.length_map]
    cases hk : p.kind <;> rw [hk] at hshape <;> dsimp only at hshape <;>
      first | cases hshape | skip
    all_goals
      split at hshape
      · exact Nat.le_of_eq ‹_›
      · cases hshape
  | text | buffer | ref | refs => cases hwords

/-- Encoding a plain value stays inside the property's own bytes. -/
theorem encodePlain?_eq (hp : p.IsSound) (h : bytes.length = p.length) (value : Value) :
    p.encodePlain? value bytes = some (p.encodePlain value bytes) := by
  unfold encodePlain? encodePlain
  cases hvalid : p.validate value with
  | error e => rfl
  | ok u =>
    cases hwords : plainWords? value with
    | none => rfl
    | some words =>
      have hcount := length_plainWords_le hp hvalid hwords
      dsimp only
      rw [Bytes.setWords?_eq (by rw [h]; unfold length; omega)]
      rfl

/-- The slots of a property are inside its own bytes. -/
theorem refSlots?_eq (hp : p.IsSound) (h : bytes.length = p.length) :
    p.refSlots? bytes = some (p.refSlots bytes) := by
  have hword {i : Nat} (hi : i < p.count) : bytes.word? i = some (bytes.word i) :=
    Bytes.word?_eq (by rw [h]; unfold length; omega)
  have hslots : ((List.range p.count).mapM fun i => (bytes.word? i).map fun w => (i, w)) =
      some ((List.range p.count).map fun i => (i, bytes.word i)) := mapM_eq_some fun i hi => by
    rw [hword (List.mem_range.mp hi)]
    rfl
  unfold refSlots? refSlots
  cases hk : p.kind with
  | string =>
    show (bytes.word? 0).map _ = some [(0, bytes.word 0)]
    rw [hword (by rw [hp.count_eq 1 (by rw [hk]; rfl)]; omega)]
    rfl
  | arrayBuffer =>
    show (bytes.word? 2).map _ = some [(0, bytes.word 2)]
    rw [hword (by rw [hp.count_eq 3 (by rw [hk]; rfl)]; omega)]
    rfl
  | _ =>
    dsimp only
    by_cases howning : p.isOwningRef = true
    · rw [if_pos howning, if_pos howning, hslots]
    · rw [if_neg howning, if_neg howning]

/-- The references of a property are read within bounds. -/
theorem heldRefs?_eq {layout : Layout} (h : layout.IsSound) (hp : p ∈ layout.props)
    (hs : bytes.length = layout.byteLength) : p.heldRefs? bytes = some (p.heldRefs bytes) := by
  unfold heldRefs?
  rw [slice?_eq h hp hs]
  dsimp only [bind, Option.bind]
  rw [refSlots?_eq (h.sound p hp) (h.length_slice hp hs)]
  rfl

end Property

namespace Layout

/-- The references held by an instance, read within bounds. -/
def heldRefs? (layout : Layout) (storage : Bytes) : Option (List HeldRef) :=
  (layout.props.mapM fun (prop : Property) => prop.heldRefs? storage).map List.flatten

/-- Encodes the default of one property within bounds. -/
def storeDefault? (storage : Bytes) (prop : Property) : Option Bytes :=
  match prop.default? with
  | some value =>
    if prop.kind.isPlain then do
      match ← prop.encodePlain? value (← prop.slice? storage) with
      | .ok part => return prop.splice storage part
      | .error _ => return storage
    else some storage
  | none => some storage

/-- The storage of an instance that was given nothing, encoded within bounds. -/
def defaultBytes? (layout : Layout) : Option Bytes :=
  layout.props.foldlM storeDefault? (Bytes.zeros layout.byteLength)

variable {layout : Layout} {storage : Bytes}

/-- The references of an instance are read within bounds. -/
theorem heldRefs?_eq (h : layout.IsSound) (hs : storage.length = layout.byteLength) :
    layout.heldRefs? storage = some (layout.heldRefs storage) := by
  unfold heldRefs?
  rw [mapM_eq_some fun p hp => Property.heldRefs?_eq h hp hs]
  rfl

/-- A default is encoded within bounds. -/
theorem storeDefault?_eq (h : layout.IsSound) {prop : Property} (hp : prop ∈ layout.props)
    (hs : storage.length = layout.byteLength) :
    storeDefault? storage prop = some (storeDefault storage prop) := by
  unfold storeDefault? storeDefault
  cases prop.default? with
  | none => rfl
  | some value =>
    dsimp only
    split
    · rw [Property.slice?_eq h hp hs]
      dsimp only [bind, Option.bind]
      rw [Property.encodePlain?_eq (h.sound prop hp) (h.length_slice hp hs)]
      dsimp only
      cases prop.encodePlain value (prop.slice storage) <;> rfl
    · rfl

/-- All defaults are encoded within bounds. -/
theorem defaultBytes?_eq (h : layout.IsSound) :
    layout.defaultBytes? = some layout.defaultBytes := by
  have hfold (props : List Property) (hprops : ∀ p ∈ props, p ∈ layout.props) (storage : Bytes)
      (hb : layout.IsBlank storage) :
      props.foldlM storeDefault? storage = some (props.foldl storeDefault storage) := by
    induction props generalizing storage with
    | nil => rfl
    | cons p rest ih =>
      have hp := hprops p List.mem_cons_self
      rw [List.foldlM_cons, storeDefault?_eq h hp hb.1]
      exact ih (fun q hq => hprops q (List.mem_cons_of_mem _ hq)) _ (hb.storeDefault h hp)
  exact hfold layout.props (fun _ hp => hp) _ ⟨Bytes.length_zeros _, heldIds_zeros h⟩

end Layout

/-- The references that the bytes of an instance hold, read within bounds. -/
def Storage.heldRefs? : Storage → Option (List HeldRef)
  | .payload _ => some []
  | .fields schema bytes => schema.layout.heldRefs? bytes

/-- In storage that fits its layout, references are read within bounds. -/
theorem Storage.heldRefs?_eq {s : Storage} (h : s.IsSound) : s.heldRefs? = some s.heldRefs := by
  cases s with
  | payload p => rfl
  | fields schema bytes => exact Layout.heldRefs?_eq h.1 h.2

namespace Registry

/-- The value that a property's own bytes stand for, if every word that is looked at is inside. -/
def valueOf? (r : Registry) (prop : Property) (bytes : Bytes) : Option Value :=
  match prop.kind with
  | .bool => (bytes.word? 0).map fun w => .bool (w != 0)
  | .u32 | .bitmask | .enumeration => (bytes.word? 0).map .word
  | .f32 => (bytes.word? 0).map fun w => .float ⟨w⟩
  | .vec2 | .vec3 | .rgb | .rgba | .quat | .mat4 =>
    (prop.words? bytes).map fun words => .floats (words.map Binary32.mk)
  | .string => (bytes.word? 0).map fun w => .text ((r.string? w).getD "")
  | .arrayBuffer => (bytes.word? 2).map fun w => .buffer ((r.buffer? w).getD .placeholder)
  | .refArray =>
    (prop.words? bytes).map fun words => .refs ((words.map idAt).takeWhile Option.isSome)
  | .refMap => (prop.words? bytes).map fun words => .refs (words.map idAt)
  | .ref | .selfRef => (bytes.word? 0).map fun w => .ref (idAt w)

/-- The current value of a property, if its bytes and every word that is looked at are inside. -/
def getProp? (r : Registry) (id : ResourceId) (name : String) :
    Option (Except ResourceError Value) :=
  match r.resource? id with
  | none => some (.error (.notFound id))
  | some resource =>
    match resource.storage with
    | .payload _ => some (.error (.unknownProp resource.type name))
    | .fields schema bytes =>
      match schema.layout.prop? name with
      | none => some (.error (.unknownProp schema.name name))
      | some prop => (prop.slice? bytes).bind fun part => (r.valueOf? prop part).map .ok

variable {r : Registry}

/-- The value of a property is read within its own bytes. -/
theorem valueOf?_eq {prop : Property} {bytes : Bytes} (hp : prop.IsSound)
    (h : bytes.length = prop.length) : r.valueOf? prop bytes = some (r.valueOf prop bytes) := by
  have hword {i n : Nat} (hn : prop.kind.fixedCount = some n) (hi : i < n) :
      bytes.word? i = some (bytes.word i) :=
    Bytes.word?_eq (by rw [h]; unfold Property.length; rw [hp.count_eq n hn]; omega)
  unfold valueOf? valueOf Property.plainValue?
  rw [Property.words?_eq h]
  cases hk : prop.kind with
  | vec2 | vec3 | rgb | rgba | quat | mat4 | refArray | refMap => rfl
  | selfRef => exact absurd hk hp.ne_selfRef
  | arrayBuffer =>
    rw [hword (i := 2) (n := 3) (by rw [hk]; rfl) (by omega)]
    rfl
  | _ =>
    rw [hword (i := 0) (n := 1) (by rw [hk]; rfl) (by omega)]
    rfl

/-- Properties are read within bounds if all storage fits its layout. -/
theorem getProp?_eq (h : ∀ {id res}, r.resource? id = some res → res.storage.IsSound)
    (id : ResourceId) (name : String) : r.getProp? id name = some (r.getProp id name) := by
  unfold getProp? getProp
  cases hres : r.resource? id with
  | none => rfl
  | some res =>
    have hsound := h hres
    cases hs : res.storage with
    | payload p => simp only [hs]
    | fields schema bytes =>
      rw [hs] at hsound
      cases hprop : schema.layout.prop? name with
      | none => simp only [hs, hprop]
      | some prop =>
        have hmem := (Layout.mem_of_prop? hprop).1
        simp only [hs, hprop, Property.slice?_eq hsound.1 hmem hsound.2, Option.bind_some,
          valueOf?_eq (hsound.1.sound prop hmem) (hsound.1.length_slice hmem hsound.2),
          Option.map_some]

end Registry

end Framecast
