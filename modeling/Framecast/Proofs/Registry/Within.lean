import Mathlib.Order.Defs.Unbundled
import Framecast.Proofs.Ends
import Framecast.Proofs.Registry.Strokes

/-!
# Operations within a relation

What an operation does can often be said of the registries before and after it alone,
whether it ends well or badly: no number is taken back, a chain of certain steps leads
from one to the other. If the relation holds of nothing done and of one thing done after
another, it holds of an operation as soon as it holds of its parts. The host writes to
resources by taking and giving back references, replacing bytes and adding what it needs
on the way, so a relation that all of these are within spans every write.
-/

namespace Framecast

namespace Registry

/-- However an operation ends, the registry after it is related to the one before. -/
def Within (R : Registry → Registry → Prop) {α : Type} (m : RegistryM α) : Prop :=
  ∀ r, Ends m r (fun _ after => R r after) fun _ after => R r after

namespace Within

variable {R : Registry → Registry → Prop} {α β : Type}

theorem modify {f : Registry → Registry} (h : ∀ r, R r (f r)) : Within R (modify f) := h

theorem discard {m : RegistryM α} (hm : Within R m) : Within R (discard m) := by
  intro r
  rw [Ends.discard_iff]
  exact hm r

variable [IsPreorder Registry R]

protected theorem pure (a : α) : Within R (pure a : RegistryM α) := fun r => refl_of R r

protected theorem throw (e : ResourceError) : Within R (throw e : RegistryM α) :=
  fun r => refl_of R r

theorem throw_bind (e : ResourceError) (f : α → RegistryM β) :
    Within R ((throw e : RegistryM α) >>= f) := fun r => refl_of R r

protected theorem get : Within R get := fun r => refl_of R r

/-- One operation after another stays within the relation. -/
theorem bind {m : RegistryM α} {f : α → RegistryM β} (hm : Within R m)
    (hf : ∀ a, Within R (f a)) : Within R (m >>= f) := by
  intro r
  rw [Ends.bind_iff]
  apply (hm r).imp
  · intro a after h
    exact (hf a after).imp (fun _ _ h' => trans_of R h h') fun _ _ h' => trans_of R h h'
  · exact fun _ _ h => h

/-- A loop stays within the relation. -/
theorem forM {f : α → RegistryM PUnit} (hf : ∀ a, Within R (f a)) (xs : List α) :
    Within R (xs.forM f) := by
  induction xs with
  | nil => exact .pure _
  | cons x xs ih =>
    rw [List.forM_eq_forM, List.forM_cons]
    exact (hf x).bind fun _ => ih

/-- A loop that collects its answers stays within the relation. -/
theorem mapM {f : α → RegistryM β} (hf : ∀ a, Within R (f a)) (xs : List α) :
    Within R (xs.mapM f) := by
  induction xs with
  | nil => exact .pure _
  | cons x xs ih =>
    rw [List.mapM_cons]
    exact (hf x).bind fun _ => ih.bind fun _ => .pure _

/-- A loop that hands a value on stays within the relation. -/
theorem foldlM {f : β → α → RegistryM β} (hf : ∀ b a, Within R (f b a)) (b : β) (xs : List α) :
    Within R (xs.foldlM f b) := by
  induction xs generalizing b with
  | nil => exact .pure _
  | cons x xs ih =>
    rw [List.foldlM_cons]
    exact (hf b x).bind fun _ => ih _

/-- Looking a resource up. -/
theorem find (id : ResourceId) : Within R (find id) := by
  unfold Registry.find
  refine Within.get.bind fun r => ?_
  split
  · exact .pure _
  · exact .throw _

/-- Looking the bytes of an instance up. -/
theorem fieldsOf (id : ResourceId) : Within R (fieldsOf id) := by
  unfold Registry.fieldsOf
  refine (Within.find id).bind fun res => ?_
  split
  · exact .pure _
  · exact .throw _

theorem liftSchema (x : Except SchemaError α) : Within R (liftSchema x) := by
  cases x with
  | ok a => exact .pure a
  | error e => exact .throw _

/-- Checking references. -/
theorem checkTargets (prop : Property) (value : Value) : Within R (checkTargets prop value) := by
  unfold Registry.checkTargets
  split
  · exact .pure _
  · refine Within.forM (fun id => ?_) _
    unfold checkTarget
    refine (Within.find id).bind fun target => ?_
    split
    · exact .throw _
    · exact .pure _

/-- Finding a property of a live instance. -/
theorem propOf (id : ResourceId) (name : String) : Within R (propOf id name) := by
  unfold Registry.propOf
  refine (Within.fieldsOf id).bind fun (schema, _) => ?_
  dsimp only
  cases schema.layout.prop? name with
  | some prop => exact .pure prop
  | none => exact .throw _

end Within

/-- How looking the bytes of an instance up ends. -/
theorem ends_fieldsOf (id : ResourceId) (r : Registry) :
    Ends (fieldsOf id) r
      (fun found after => after = r ∧ ∃ res, r.resource? id = some res ∧
        res.storage = .fields found.1 found.2)
      (fun _ after => after = r) := by
  unfold fieldsOf find
  simp only [Ends.bind_iff, Ends.get_iff]
  cases h : r.resource? id with
  | none => rfl
  | some res =>
    rw [Ends.pure_iff]
    cases hs : res.storage with
    | payload p => rfl
    | fields schema bytes => exact ⟨rfl, res, rfl, hs⟩

/-- How a disposal ends: the resource is not there, or it is still referenced, or it is destroyed
because nothing references it any more. -/
theorem ends_dispose (id : ResourceId) (r : Registry) :
    Ends (dispose id) r
      (fun gone after => ∃ res, r.resource? id = some res ∧
        (gone = false ∧ 1 < res.refCount ∧ after = r.modifyResource id Resource.released ∨
          gone = true ∧ res.refCount ≤ 1 ∧
            after = (r.modifyResource id Resource.released).destroy id))
      (fun e after => r.resource? id = none ∧ e = .notFound id ∧ after = r) := by
  unfold dispose find
  simp only [Ends.bind_iff, Ends.get_iff]
  cases h : r.resource? id with
  | none => exact ⟨rfl, rfl, rfl⟩
  | some res =>
    simp only [Ends.pure_iff, Ends.modify_iff]
    have hcount : res.released.refCount = res.refCount - 1 := rfl
    split
    · exact ⟨res, rfl, .inl ⟨rfl, by omega, rfl⟩⟩
    · rw [Ends.bind_iff, Ends.modify_iff, Ends.pure_iff]
      exact ⟨res, rfl, .inr ⟨rfl, by omega, rfl⟩⟩

/-- Whether a part is as long as the bytes of a property that it is to replace. -/
def FitsSlice (r : Registry) (id : ResourceId) (prop : Property) (part : Bytes) : Prop :=
  ∀ res schema bytes, r.resource? id = some res → res.storage = .fields schema bytes →
    part.length = (prop.slice bytes).length

/-- A relation that everything is within that the host does to resources bit by bit: a reference is
taken or given back, the bytes of a property are replaced by as many others, and a text or a raw
buffer is added. -/
structure Spans (R : Registry → Registry → Prop) : Prop where
  /-- A reference is taken on what is there or not. -/
  retained (r : Registry) (id : ResourceId) : R r (r.modifyResource id Resource.retained)
  /-- A reference is given back. -/
  dispose (id : ResourceId) : Within R (dispose id)
  /-- The bytes of a property are replaced. -/
  stored (r : Registry) (id : ResourceId) (prop : Property) (part : Bytes)
    (h : r.FitsSlice id prop part) : R r (r.storeBytes id prop part)
  /-- A resource is added. It is incidental and has no hook. -/
  spawn (type : String) (storage : Storage) (options : Options) (positions : List Nat)
    (hhook : options.hook? = none)
    (hmould : Mould.IsIncidental ⟨type, options.cacheKey?, storage.frame⟩) :
    Within R (spawn type storage options positions)

/-- The operations that write a value to the property that an instance has under a name. -/
inductive IsPut (id : ResourceId) (name : String) (value : Value) : RegistryM Unit → Prop
  /-- The host writes, if the property is mutable. -/
  | host : IsPut id name value (setProp id name value)
  /-- A script writes, if the property is open to scripts. -/
  | script : IsPut id name value (setPropFromScript id name value)

namespace Spans

variable {R : Registry → Registry → Prop}

/-- Releasing a reference. -/
theorem release (h : Spans R) (r : Registry) (id : ResourceId) : R r (r.release id) := by
  have hends := h.dispose id r
  unfold Registry.release
  split
  · exact hends.of_ok ‹_›
  · exact hends.of_error ‹_›

variable [IsPreorder Registry R]

/-- Releasing references one after another. -/
theorem foldl_release (h : Spans R) (ids : List ResourceId) (r : Registry) :
    R r (ids.foldl Registry.release r) := by
  induction ids generalizing r with
  | nil => exact refl_of R r
  | cons id rest ih => exact trans_of R (h.release r id) (ih _)

theorem retain (h : Spans R) (id : ResourceId) : Within R (Registry.retain id) :=
  (Within.find id).bind fun _ => (Within.modify fun r => h.retained r id).bind fun _ => .pure _

/-- Interning a text. -/
theorem createString (h : Spans R) (text : String) : Within R (createString text) := by
  unfold Registry.createString
  split
  · exact .pure _
  · rename_i hfull
    refine Within.get.bind fun r => ?_
    dsimp only
    split
    · exact .pure _
    · exact h.spawn _ _ _ _ rfl (.text fun h => hfull (by rw [h]; rfl))

theorem createBuffer (h : Spans R) (buffer : RawBuffer) : Within R (createBuffer buffer) :=
  Within.get.bind fun _ => h.spawn _ _ _ _ rfl (.buffer buffer)

/-- Changing the bytes of a property to as many others. -/
theorem updateSlice (h : Spans R) (id : ResourceId) (prop : Property) {f : Bytes → Bytes}
    (hf : ∀ bytes, (f bytes).length = bytes.length) : Within R (updateSlice id prop f) := by
  intro r
  unfold Registry.updateSlice
  rw [Ends.bind_iff]
  apply (ends_fieldsOf id r).imp
  · rintro ⟨schema, bytes⟩ _ ⟨rfl, res, hres, hstorage⟩
    refine h.stored _ _ _ _ fun res' schema' bytes' hres' hstorage' => ?_
    obtain rfl : res = res' := Option.some.inj (hres.symm.trans hres')
    rw [hstorage] at hstorage'
    cases hstorage'
    exact hf _
  · rintro _ _ rfl
    exact refl_of R _

/-- Exchanging references. -/
theorem replaceRefs (h : Spans R) (id : ResourceId) (prop : Property)
    (targets : List ResourceId) : Within R (replaceRefs id prop targets) := by
  unfold Registry.replaceRefs
  refine (Within.fieldsOf id).bind fun _ => ?_
  refine (Within.forM (fun target => (h.retain target).discard) _).bind fun _ => ?_
  exact (h.updateSlice _ _ fun _ => Bytes.length_setWords _ _).bind fun _ =>
    Within.modify fun _ => h.foldl_release _ _

/-- Setting a raw buffer. -/
theorem writeBuffer (h : Spans R) (id : ResourceId) (prop : Property) (buffer : RawBuffer) :
    Within R (writeBuffer id prop buffer) := by
  unfold Registry.writeBuffer
  refine (Within.fieldsOf id).bind fun _ => ?_
  dsimp only
  split
  · exact .throw_bind _ _
  · refine Within.get.bind fun r => ?_
    split
    · exact .throw_bind _ _
    · exact (h.createBuffer _).bind fun _ => (h.retain _).discard.bind fun _ =>
        h.updateSlice _ _ fun _ => Bytes.length_setWords _ _

/-- Writing a plain value. -/
theorem writePlain (h : Spans R) (id : ResourceId) (prop : Property) (value : Value) :
    Within R (do
      let (_, bytes) ← fieldsOf id
      let part ← liftSchema (prop.encodePlain value (prop.slice bytes))
      modify (·.storeBytes id prop part)) := by
  intro r
  rw [Ends.bind_iff]
  apply (ends_fieldsOf id r).imp
  · rintro ⟨schema, bytes⟩ after ⟨rfl, res, hres, hstorage⟩
    dsimp only
    cases hpart : prop.encodePlain value (prop.slice bytes) with
    | error e => exact Within.throw_bind _ _ after
    | ok part =>
      refine h.stored _ _ _ _ fun res' schema' bytes' hres' hstorage' => ?_
      obtain rfl : res = res' := Option.some.inj (hres.symm.trans hres')
      rw [hstorage] at hstorage'
      cases hstorage'
      exact Property.length_encodePlain hpart
  · rintro _ _ rfl
    exact refl_of R _

/-- Writing a value. -/
theorem writeProp (h : Spans R) (id : ResourceId) (prop : Property) (value : Value) :
    Within R (writeProp id prop value) := by
  unfold Registry.writeProp
  refine (Within.liftSchema _).bind fun _ => (Within.checkTargets _ _).bind fun _ => ?_
  split
  · exact (h.createString _).bind fun _ => h.replaceRefs _ _ _
  · exact h.writeBuffer _ _ _
  · split
    · exact h.updateSlice _ _ fun _ => Bytes.length_setWord _ _ _
    · exact h.replaceRefs _ _ _
  · exact h.replaceRefs _ _ _
  · exact h.writePlain _ _ _

/-- Writing to a property under its name. -/
theorem put (h : Spans R) {id : ResourceId} {name : String} {value : Value} {m : RegistryM Unit}
    (hm : IsPut id name value m) : Within R m := by
  cases hm with
  | host | script =>
    refine (Within.propOf id name).bind fun prop => ?_
    dsimp only
    split
    · exact .throw _
    · exact h.writeProp _ _ _

theorem writeEach (h : Spans R) (id : ResourceId) (values : List (Property × Value)) :
    Within R (writeEach id values) := Within.forM (fun _ => h.writeProp _ _ _) values

end Spans

end Registry

end Framecast
