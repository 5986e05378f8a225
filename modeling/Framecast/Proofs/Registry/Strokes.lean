import Mathlib.Logic.Relation
import Framecast.Proofs.Ends
import Framecast.Proofs.Registry.Removal

/-!
# Operations as chains of strokes

Apart from taking answers in, sending and creating instances, all that the host does
to a registry comes down to a few strokes: what is declared changes, the count or the
bytes of a resource change, a payload is added and sent, a resource is removed. How
far the loading of a resource has come, who waits for it and what the host is told
can be read off each stroke.
-/

namespace Framecast

/-- Storage without the bytes of an instance. -/
def Storage.frame : Storage → Storage
  | .payload p => .payload p
  | .fields schema _ => .fields schema []

@[simp] theorem Storage.frame_eq_payload {s : Storage} {p : Payload} :
    s.frame = .payload p ↔ s = .payload p := by
  cases s <;> simp [frame]

/-- A resource without its count and its bytes. -/
def Resource.standing (res : Resource) : Resource :=
  { res with refCount := 0, storage := res.storage.frame }

/-- What a resource is made as and stays. -/
structure Mould where
  /-- Its type tag. -/
  type : String
  /-- What it is deduplicated by. -/
  key? : Option CacheKey
  /-- Its payload, or its schema without any bytes. -/
  frame : Storage
  deriving DecidableEq, Repr

/-- The mould of a resource. -/
def Resource.mould (res : Resource) : Mould := ⟨res.type, res.cacheKey?, res.storage.frame⟩

/-- What an operation makes on its way: a text under itself, or a raw buffer without a key. -/
inductive Mould.IsIncidental : Mould → Prop
  /-- A text is interned. -/
  | text {s : String} (h : s ≠ "") :
    Mould.IsIncidental ⟨stringType, some (.text s), .payload (.text s)⟩
  /-- A raw buffer is entered. -/
  | buffer (b : RawBuffer) : Mould.IsIncidental ⟨arrayBufferType, none, .payload (.buffer b)⟩

/-- Of two resources of one mould, both have a payload or none has. -/
theorem Resource.payload_iff_of_mould {res res' : Resource} {p : Payload}
    (h : res'.mould = res.mould) : res'.storage = .payload p ↔ res.storage = .payload p := by
  have hframe : res'.storage.frame = res.storage.frame := congrArg Mould.frame h
  rw [← Storage.frame_eq_payload, hframe, Storage.frame_eq_payload]

/-- What two resources have in common that differ in their count and their bytes only. -/
theorem Resource.of_standing {res res' : Resource} (h : res'.standing = res.standing) :
    res'.id = res.id ∧ res'.bindings = res.bindings ∧ res'.load = res.load ∧
      res'.waiters = res.waiters := by
  unfold standing at h
  obtain ⟨hid, -, -, -, -, -, -, hbindings, hload, hwaiters⟩ := Resource.mk.inj h
  exact ⟨hid, hbindings, hload, hwaiters⟩

/-- Resources that differ in their count and their bytes only have one mould. -/
theorem Resource.mould_of_standing {res res' : Resource} (h : res'.standing = res.standing) :
    res'.mould = res.mould := by
  unfold standing at h
  obtain ⟨-, htype, -, -, hframe, hkey, -, -, -, -⟩ := Resource.mk.inj h
  unfold mould
  rw [htype, hkey, hframe]

namespace Registry

/-- The answers that are under way, link by link. -/
def acks (r : Registry) : List (Array Ack) := r.links.map (·.wire.acks)

/-- A registry that has some resource under a number and is as before otherwise, as far as look-ups,
waits, answers, schemas, settings and the host go. -/
structure Places (r after : Registry) (id : ResourceId) (res : Resource) : Prop where
  /-- The resource has the number. -/
  found : after.resource? id = some res
  /-- Other resources are as before. -/
  others : ∀ x, x ≠ id → after.resource? x = r.resource? x
  /-- No wait has ended. -/
  waits : after.waits = r.waits
  /-- The host is told nothing. -/
  journal : after.journal = r.journal
  /-- No answer has come in. -/
  acks : after.acks = r.acks
  /-- Nothing is declared. -/
  schemas : after.schemas = r.schemas
  /-- The settings are the same. -/
  config : after.config = r.config

/-- A registry to which a resource was added under the next number and sent to its links. -/
structure Adds (r after : Registry) (res : Resource) : Prop extends
    r.Places after r.supply.nextId res where
  /-- It carries the number. -/
  keyed : res.id = r.supply.nextId
  /-- It awaits the links that it was sent to. -/
  load : res.load = awaiting res.bindings
  /-- Nobody waits for it. -/
  waiters : res.waiters = []
  /-- One number is given out. -/
  supply : after.supply = r.supply.draw

/-- One stroke of an operation. What is added is incidental and has no hook. -/
inductive Stroke : Registry → Registry → Prop
  /-- What is declared changes, or numbers and raw buffers are given out elsewhere. -/
  | declare {r : Registry} (schemas : Std.TreeMap String Schema) (loaderTypes : List String)
      {supply : Supply} (h : r.supply.issued ≤ supply.issued) :
    Stroke r { r with schemas, loaderTypes, supply }
  /-- The count or the bytes of a resource change. -/
  | touch {r : Registry} (id : ResourceId) {f : Resource → Resource}
      (hf : ∀ res, (f res).standing = res.standing) : Stroke r (r.modifyResource id f)
  /-- A resource is added. -/
  | add {r after : Registry} {res : Resource} (h : r.Adds after res) (hhook : res.hook? = none)
      (hmould : res.mould.IsIncidental) : Stroke r after
  /-- A resource is removed. -/
  | remove {r : Registry} {id : ResourceId} {res : Resource} (h : r.resource? id = some res) :
    Stroke r (r.remove res)

/-- A chain of strokes. -/
abbrev Strokes : Registry → Registry → Prop := Relation.ReflTransGen Stroke

variable {r : Registry}

/-- Changing the count or the bytes of a resource shows in no resource otherwise. -/
theorem standing_modifyResource (r : Registry) (id : ResourceId) {f : Resource → Resource}
    (hf : ∀ res, (f res).standing = res.standing) (x : ResourceId) :
    ((r.modifyResource id f).resource? x).map Resource.standing =
      (r.resource? x).map Resource.standing := by
  rw [resource?_modifyResource]
  split
  · rename_i heq
    rw [heq, Option.map_map]
    exact congrArg (fun g => (r.resource? id).map g) (funext hf)
  · rfl

/-- Other bytes of a property show in nothing else of a resource. -/
theorem standing_stored (prop : Property) (part : Bytes) (res : Resource) :
    (match res.storage with
      | .fields schema bytes => { res with storage := .fields schema (prop.splice bytes part) }
      | .payload _ => res : Resource).standing = res.standing := by
  split
  · rename_i schema bytes hstorage
    unfold Resource.standing
    rw [hstorage]
    rfl
  · rfl

theorem strokes_touch (r : Registry) (id : ResourceId) {f : Resource → Resource}
    (hf : ∀ res, (f res).standing = res.standing) : r.Strokes (r.modifyResource id f) :=
  .single (.touch id hf)

theorem strokes_retained (r : Registry) (id : ResourceId) :
    r.Strokes (r.modifyResource id Resource.retained) := strokes_touch r id fun _ => rfl

theorem strokes_released (r : Registry) (id : ResourceId) :
    r.Strokes (r.modifyResource id Resource.released) := strokes_touch r id fun _ => rfl

theorem strokes_storeBytes (r : Registry) (id : ResourceId) (prop : Property) (part : Bytes) :
    r.Strokes (r.storeBytes id prop part) := strokes_touch r id (standing_stored prop part)

theorem standing_storeBytes (r : Registry) (id : ResourceId) (prop : Property) (part : Bytes)
    (x : ResourceId) : ((r.storeBytes id prop part).resource? x).map Resource.standing =
      (r.resource? x).map Resource.standing :=
  standing_modifyResource r id (standing_stored prop part) x

/-- Dropping a held reference. -/
theorem strokes_dropHeld (state : Registry × List ResourceId) (held : HeldRef) :
    state.1.Strokes (dropHeld state held).1 := by
  unfold dropHeld
  split
  · dsimp only
    split <;> exact strokes_released _ _
  · exact .refl

/-- Dropping held references. -/
theorem strokes_foldl_dropHeld (held : List HeldRef) (state : Registry × List ResourceId) :
    state.1.Strokes (held.foldl dropHeld state).1 := by
  induction held generalizing state with
  | nil => exact .refl
  | cons one rest ih => exact (strokes_dropHeld state one).trans (ih _)

/-- A cascade. -/
theorem strokes_cascade (n : Nat) (worklist : List ResourceId) (r : Registry) :
    r.Strokes (cascade n worklist r) := by
  induction n generalizing worklist r with
  | zero => exact .refl
  | succ n ih =>
    unfold cascade
    split
    · exact .refl
    · split
      · exact .refl
      · rename_i hres
        exact .head (.remove hres) ((strokes_foldl_dropHeld _ (_, _)).trans (ih _ _))

theorem strokes_destroy (r : Registry) (id : ResourceId) : r.Strokes (r.destroy id) :=
  strokes_cascade _ _ _

@[simp] theorem acks_modifyResource (r : Registry) (id : ResourceId) (f : Resource → Resource) :
    (r.modifyResource id f).acks = r.acks := by
  unfold acks
  rw [links_modifyResource]

/-- Sending a resource over links takes no answer in. -/
theorem acks_foldl_bindOne (res : Resource) (tick : Tick) (positions : List Nat)
    (state : List Binding × List Link) :
    (positions.foldl (bindOne res tick) state).2.map (·.wire.acks) = state.2.map (·.wire.acks) := by
  have hship (link : Link) (k : Nat) : (link.ship k res tick).2.wire.acks = link.wire.acks := by
    unfold Link.ship
    cases res.storage <;> rfl
  have hone (links : List Link) (k k' : Nat) :
      (updateLink (·.ship k' res tick) links k).2.map (·.wire.acks) = links.map (·.wire.acks) := by
    induction links generalizing k with
    | nil => rfl
    | cons link rest ih =>
      cases k with
      | zero => exact congrArg (· :: _) (hship link k')
      | succ k => exact congrArg (_ :: ·) (ih k)
  induction positions generalizing state with
  | nil => rfl
  | cons k rest ih => exact (ih _).trans (hone state.2 k k)

/-- Binding a resource places it with its bindings, and awaits them. -/
theorem ends_bind_places {id : ResourceId} {res : Resource} (h : r.resource? id = some res)
    (positions : List Nat) :
    Ends (bind id positions) r
      (fun _ after => after.supply = r.supply ∧ ∃ bindings,
        r.Places after id { res with bindings, load := awaiting bindings })
      (fun _ _ => False) := by
  unfold bind find
  rw [Ends.bind_iff, Ends.bind_iff, Ends.get_iff, h]
  dsimp only
  rw [Ends.pure_iff, Ends.modify_iff]
  exact ⟨rfl, _, (getElem?_insert _ _ _ _).trans (if_pos rfl),
    fun x hx => (getElem?_insert _ _ _ _).trans (if_neg hx), rfl, rfl, acks_foldl_bindOne _ _ _ _,
    rfl, rfl⟩

/-- Entering a resource places it under the next number, sent nowhere yet. -/
theorem places_insert (r : Registry) (type : String) (storage : Storage) (options : Options) :
    r.Places (r.insert type storage options).2 r.supply.nextId
      ⟨r.supply.nextId, type, options.name?.getD (defaultName type r.supply.nextId), 0, storage,
        options.cacheKey?, options.hook?, [], .pending 0, []⟩ :=
  ⟨(getElem?_insert _ _ _ _).trans (if_pos rfl),
    fun _ hx => (getElem?_insert _ _ _ _).trans (if_neg hx), rfl, rfl, rfl, rfl, rfl⟩

theorem Places.trans {mid after : Registry} {id : ResourceId} {res res' : Resource}
    (h : r.Places mid id res) (h' : mid.Places after id res') : r.Places after id res' :=
  ⟨h'.found, fun x hx => (h'.others x hx).trans (h.others x hx), h'.waits.trans h.waits,
    h'.journal.trans h.journal, h'.acks.trans h.acks, h'.schemas.trans h.schemas,
    h'.config.trans h.config⟩

/-- Entering a resource and sending it to some links adds it. -/
theorem ends_spawn_adds (type : String) (storage : Storage) (options : Options)
    (positions : List Nat) (r : Registry) :
    Ends (spawn type storage options positions) r
      (fun id after => id = r.supply.nextId ∧ ∃ res, r.Adds after res ∧
        res.hook? = options.hook? ∧ res.mould = ⟨type, options.cacheKey?, storage.frame⟩)
      (fun _ _ => False) := by
  have hentered := places_insert r type storage options
  unfold spawn
  rw [Ends.bind_iff, Ends.get_iff, ← Prod.mk.eta (p := r.insert type storage options)]
  dsimp only
  rw [Ends.bind_iff, Ends.set_iff, Ends.bind_iff]
  refine (ends_bind_places hentered.found positions).imp ?_ fun _ _ h => h
  rintro _ after ⟨hsupply, bindings, hplaces⟩
  rw [Ends.pure_iff]
  have hadds : r.Adds after _ := ⟨hentered.trans hplaces, rfl, rfl, rfl, hsupply⟩
  exact ⟨rfl, _, hadds, rfl, rfl⟩

end Registry

end Framecast
