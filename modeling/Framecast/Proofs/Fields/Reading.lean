import Framecast.Proofs.Accounts.Ledger
import Framecast.Proofs.Fields.Density
import Framecast.Proofs.Guarded.Bytes
import Framecast.Typed.Class

/-!
# Two ways of reading a property

The host reads a property by its kind and takes the numbers that it stores as they
are. A typed reader goes by a marker and looks every number up. While the host gives
back no more than it took, what a property holds is there and is what the property
asks for, so both read the same through the marker that the property was declared
with. A reverse pointer holds nothing: it may lead to what is gone, and then only the
host still reads its number. A word that numbers no variant is likewise a word for the
host and nothing for a typed reader.
-/

namespace Framecast

/-- Whether the values of a kind consist of components. -/
def Kind.hasComponents : Kind → Bool
  | .vec2 | .vec3 | .rgb | .rgba | .quat | .mat4 => true
  | _ => false

/-- A marker that a property was declared with. -/
structure Marker.Declares (m : Marker) (prop : Property) : Prop where
  /-- The kind is the declared one. -/
  kind : prop.kind = (m.declare prop.name).kind
  /-- There are as many words, hence as many slots. -/
  count : prop.count = (m.declare prop.name).count
  /-- References are to the declared type. -/
  target : prop.target? = (m.declare prop.name).target?
  /-- It is a reverse pointer exactly if it was declared as one. -/
  backRef : prop.backRef = (m.declare prop.name).backRef
  /-- Components are read of kinds that have some. -/
  components : ∀ {k}, m = .floats k → k.hasComponents = true

/-- What a number is resolved to by a reader of some type. -/
def Registry.ofType? (r : Registry) (target : String) (id : ResourceId) : Option ResourceId :=
  if (r.resource? id).map Resource.type = some target then some id else none

/-- When a typed reader is shown the same of a property as the host. The typed reader is shown a
variant only if there is such a one, and a reverse pointer only if it leads to something of its
type. -/
inductive Marker.Agrees (r : Registry) : Marker → Value → Reading → Prop
  /-- The same truth value. -/
  | bool (x : Bool) : Agrees r .bool (.bool x) (.bool x)
  /-- The same word. -/
  | u32 (w : UInt32) : Agrees r .u32 (.word w) (.word w)
  /-- The same flags. -/
  | bitmask (w : UInt32) : Agrees r .bitmask (.word w) (.word w)
  /-- The same number. -/
  | f32 (x : Binary32) : Agrees r .f32 (.float x) (.float x)
  /-- The same components. -/
  | floats (k : Kind) (xs : List Binary32) : Agrees r (.floats k) (.floats xs) (.floats xs)
  /-- The variant of the same number, if there is one. -/
  | variant (count : Nat) (w : UInt32) :
    Agrees r (.variant count) (.word w) (.variant (if w.toNat < count then some w else none))
  /-- The same text. -/
  | string (s : String) : Agrees r .string (.text s) (.text s)
  /-- No raw buffer, and the one that stands for none. -/
  | unset : Agrees r .arrayBuffer (.buffer .placeholder) (.buffer none)
  /-- The same raw buffer. -/
  | buffer (b : RawBuffer) : Agrees r .arrayBuffer (.buffer b) (.buffer (some b))
  /-- The same reference, or none. -/
  | ref (target : String) (id? : Option ResourceId) :
    Agrees r (.ref target) (.ref id?) (.handle id?)
  /-- The same reverse pointer as far as it leads to something of its type. -/
  | backRef (target : String) (id? : Option ResourceId) :
    Agrees r (.backRef target) (.ref id?) (.handle (id?.bind (r.ofType? target)))
  /-- The same references in the same places of a list. -/
  | refArray (target : String) (capacity : Nat) (ids : List ResourceId) :
    Agrees r (.refArray target capacity) (.refs (ids.map some)) (.handles ids)
  /-- The same reference, or none, in each slot. -/
  | refMap (target : String) (capacity : Nat) (slots : List (Option ResourceId)) :
    Agrees r (.refMap target capacity) (.refs slots) (.slots slots)

/-- What a property holds is there, and is what the property asks for. -/
structure Registry.Backs (r : Registry) (prop : Property) (part : Bytes) : Prop where
  /-- Owning references lead to resources of the declared type. -/
  typed : prop.isOwningRef = true → ∀ w ∈ prop.heldIds part,
    ∃ target, r.resource? w = some target ∧ prop.target? = some target.type
  /-- A raw buffer that is set is there. -/
  buffered : prop.kind = .arrayBuffer → ∀ w ∈ prop.heldIds part, ∃ b, r.buffer? w = some b

namespace Registry

variable {r : Registry} {x : ResourceId} {res : Resource} {schema : Schema} {bytes part : Bytes}
  {prop : Property} {m : Marker} {target : String}

/-- A typed reader resolves a stored number if it leads to something of the type. -/
theorem resolve?_view (r : Registry) (target : String) (w : ResourceId) :
    r.view.resolve? target w = (idAt w).bind (r.ofType? target) := by
  unfold View.resolve? idAt ofType?
  by_cases hw : w = 0
  · rw [if_pos hw, if_pos hw, Option.bind_none]
  · rw [if_neg hw, if_neg hw, Option.bind_some]
    rfl

theorem string?_view (r : Registry) (w : ResourceId) : r.view.string? w = r.string? w :=
  Option.bind_assoc _ _ _

theorem buffer?_view (r : Registry) (w : ResourceId) : r.view.buffer? w = r.buffer? w :=
  Option.bind_assoc _ _ _

/-- What an owning reference holds is resolved as it is. -/
theorem Backs.resolve? (h : r.Backs prop part) (hprop : prop.IsSound)
    (howning : prop.isOwningRef = true) (htarget : prop.target? = some target) {w : ResourceId}
    (hw : w ∈ prop.words part) : r.view.resolve? target w = idAt w := by
  rw [resolve?_view]
  by_cases hzero : w = 0
  · rw [hzero]
    rfl
  · have hheld : w ∈ prop.heldIds part := by
      rw [prop.heldIds_of_isHolder hprop (.inr howning), List.mem_filter]
      exact ⟨hw, by simpa using hzero⟩
    obtain ⟨found, hfound, htype⟩ := h.typed howning w hheld
    rw [htarget] at htype
    unfold idAt ofType?
    rw [if_neg hzero, Option.bind_some, hfound, Option.map_some, htype, if_pos rfl]

/-- References before the first zero are resolved one by one. -/
theorem Backs.filterMap_leading (h : r.Backs prop part) (hprop : prop.IsSound)
    (howning : prop.isOwningRef = true) (htarget : prop.target? = some target) :
    (leading (prop.words part)).filterMap (r.view.resolve? target) = leading (prop.words part) := by
  have hone {w : ResourceId} (hw : w ∈ leading (prop.words part)) :
      r.view.resolve? target w = some w := by
    rw [h.resolve? hprop howning htarget ((List.takeWhile_sublist _).subset hw)]
    exact if_neg (ne_zero_of_mem_leading hw)
  rw [List.filterMap_congr fun w hw => hone hw]
  exact List.filterMap_some

/-- A raw buffer that is set is the one that is read. -/
theorem Backs.buffer? (h : r.Backs prop part) (hkind : prop.kind = .arrayBuffer)
    (hset : part.word 2 ≠ 0) : ∃ b, r.buffer? (part.word 2) = some b := by
  refine h.buffered hkind _ ?_
  rw [prop.heldIds_of_arrayBuffer hkind, List.mem_filter]
  exact ⟨List.mem_singleton_self _, by simpa using hset⟩

/-- Through the marker that it was declared with, a property whose contents are there reads the same
as without. -/
theorem Backs.agrees (h : r.Backs prop part) (hprop : prop.IsSound) (hm : m.Declares prop)
    (hpart : part.length = prop.length) (hzero : r.resource? 0 = none) :
    ∃ reading, m.read? r.view part = some reading ∧ m.Agrees r (r.valueOf prop part) reading ∧
      (m = .arrayBuffer → (reading = .buffer none ↔ part.word 2 = 0)) := by
  have hword {i : Nat} {f : UInt32 → Reading} (hi : i < prop.count) :
      (part.word? i).map f = some (f (part.word i)) := by
    rw [Bytes.word?_eq (by rw [hpart, Property.length]; omega), Option.map_some]
  have hone {f : UInt32 → Reading} (hcount : prop.kind.fixedCount = some 1) :
      (part.word? 0).map f = some (f (part.word 0)) := by
    refine hword ?_
    rw [hprop.count_eq 1 hcount]
    exact Nat.one_pos
  have hwords {f : List UInt32 → Reading} {n : Nat} (hcount : prop.count = n) :
      (part.words? n).map f = some (f (prop.words part)) := by
    rw [← hcount, show part.words? prop.count = some (prop.words part) from Property.words?_eq hpart,
      Option.map_some]
  have howning (href : prop.kind.isReference = true) (hback : prop.backRef = false) :
      prop.isOwningRef = true := by
    unfold Property.isOwningRef
    rw [href, hback]
    rfl
  have hkind := hm.kind
  unfold valueOf Property.plainValue?
  rw [hkind]
  by_cases hbuffer : m = .arrayBuffer
  · subst hbuffer
    refine ⟨_, hword (by rw [hm.count]; exact Nat.lt_succ_self 2), ?_⟩
    by_cases hunset : part.word 2 = 0
    · rw [if_pos hunset]
      have hnone : r.buffer? (part.word 2) = none := by
        unfold Registry.buffer?
        rw [hunset, hzero]
        rfl
      rw [hnone]
      exact ⟨.unset, fun _ => iff_of_true rfl hunset⟩
    · rw [if_neg hunset, buffer?_view]
      obtain ⟨b, hb⟩ := h.buffer? hkind hunset
      rw [hb]
      exact ⟨.buffer b, fun _ => iff_of_false (by simp) hunset⟩
  have hother (reading : Reading) :
      m = .arrayBuffer → (reading = .buffer none ↔ part.word 2 = 0) := fun h => absurd h hbuffer
  cases m with
  | bool => exact ⟨_, hone (by rw [hkind]; rfl), .bool _, hother _⟩
  | u32 => exact ⟨_, hone (by rw [hkind]; rfl), .u32 _, hother _⟩
  | bitmask => exact ⟨_, hone (by rw [hkind]; rfl), .bitmask _, hother _⟩
  | f32 =>
    refine ⟨.float ⟨part.word 0⟩, ?_, .f32 _, hother _⟩
    show (part.single? 0).map Reading.float = _
    rw [Bytes.single?, Option.map_map]
    exact hone (by rw [hkind]; rfl)
  | floats k =>
    refine ⟨.floats ((prop.words part).map Binary32.mk), ?_, ?_, hother _⟩
    · show (part.singles? (k.fixedCount.getD 0)).map Reading.floats = _
      rw [Bytes.singles?_eq_words?, Option.map_map]
      exact hwords hm.count
    have hcomponents := hm.components rfl
    change k.hasComponents = true at hcomponents
    cases k <;> first | exact .floats _ _ | cases hcomponents
  | variant count => exact ⟨_, hone (by rw [hkind]; rfl), .variant _ _, hother _⟩
  | string =>
    refine ⟨_, hone (by rw [hkind]; rfl), ?_, hother _⟩
    have htext : (if part.word 0 = 0 then "" else (r.view.string? (part.word 0)).getD "") =
        (r.string? (part.word 0)).getD "" := by
      split
      · rename_i hunset
        unfold Registry.string?
        rw [hunset, hzero]
        rfl
      · rw [string?_view]
    rw [htext]
    exact .string _
  | arrayBuffer => exact absurd rfl hbuffer
  | ref target =>
    refine ⟨_, hone (by rw [hkind]; rfl), ?_, hother _⟩
    have hcount : prop.count = 1 := hprop.count_eq 1 (by rw [hkind]; rfl)
    rw [h.resolve? hprop (howning (by rw [hkind]; rfl) hm.backRef) hm.target]
    · exact .ref target _
    · exact List.mem_map_of_mem (List.mem_range.mpr (by omega))
  | backRef target =>
    refine ⟨_, hone (by rw [hkind]; rfl), ?_, hother _⟩
    rw [resolve?_view]
    exact .backRef target _
  | refArray target capacity =>
    have hcount : prop.count = capacity := hm.count
    have hrun : Marker.readRun part capacity 0 = some (leading (prop.words part)) := by
      rw [Marker.readRun_eq fun j hj => Bytes.word?_eq (by rw [hpart, Property.length]; omega),
        ← hcount]
      simp only [Nat.zero_add]
      rfl
    refine ⟨.handles (leading (prop.words part)), ?_, ?_, hother _⟩
    · show (Marker.readRun part capacity 0).map _ = _
      rw [hrun, Option.map_some,
        h.filterMap_leading hprop (howning (by rw [hkind]; rfl) hm.backRef) hm.target]
    · rw [takeWhile_map_idAt]
      exact .refArray target capacity _
  | refMap target capacity =>
    refine ⟨_, hwords hm.count, ?_, hother _⟩
    rw [List.map_congr_left fun w hw =>
      h.resolve? hprop (howning (by rw [hkind]; rfl) hm.backRef) hm.target hw]
    exact .refMap target capacity _

end Registry

namespace Run

variable {config : Config} {supply : Supply} {past : List Moment} {b : Broadcast}

end Run

namespace Samples

end Samples

end Framecast
