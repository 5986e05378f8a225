import Mathlib.Logic.Relation
import Framecast.Proofs.Registry.Removal

/-!
# Elementary changes of a registry

Every operation of a registry is a chain of a few elementary changes: a resource
is entered, referenced, released, written to, sent over a link or removed, and
apart from these only things change that no statement here is about. Whatever
each elementary change keeps, every operation keeps.

Next to the registry goes a book of the references that no instance holds: those
of the host, and those that are between two hands because an operation has taken
them from one place and not yet put them in another.
-/

namespace Framecast

/-- A resource without what only its loading and its removal are about. -/
def Resource.body (res : Resource) : Resource :=
  { res with hook? := none, load := .loaded, waiters := [] }

theorem Resource.bindings_of_body {res res' : Resource} (h : res.body = res'.body) :
    res.bindings = res'.bindings := by
  have hbindings : res.body.bindings = res'.body.bindings := congrArg bindings h
  exact hbindings

theorem Resource.storage_of_body {res res' : Resource} (h : res.body = res'.body) :
    res.storage = res'.storage := by
  have hstorage : res.body.storage = res'.body.storage := congrArg storage h
  exact hstorage

/-- A link without the answers on their way back. -/
def Link.body (link : Link) : Link := { link with wire := { link.wire with acks := #[] } }

/-- Whether a type tag is that of the schema, if there is one. -/
def Storage.IsNamed (storage : Storage) (type : String) : Prop :=
  ∀ schema bytes, storage = .fields schema bytes → type = schema.name

theorem Storage.isNamed_payload (p : Payload) (type : String) : (Storage.payload p).IsNamed type := by
  intro schema bytes h
  cases h

theorem Schema.isNamed_name (schema : Schema) (bytes : Bytes) :
    (Storage.fields schema bytes).IsNamed schema.name := by
  rintro _ _ ⟨⟩
  rfl

/-- Whether a resource was sent over the link at a position. -/
def Resource.IsBoundTo (res : Resource) (k : Nat) : Prop := ∃ b ∈ res.bindings, b.link = k

@[simp] theorem Link.link_ship (link : Link) (k : Nat) (res : Resource) (tick : Tick) :
    (link.ship k res tick).1.link = k := by
  unfold ship
  cases res.storage <;> rfl

/-- The lists of the types and the cache. -/
def Registry.indexes (r : Registry) : Std.TreeMap String (List ResourceId) × List (CacheSlot × ResourceId) :=
  (r.byType, r.cache)

/-- A registry that differs only in what no resource, link or buffer shows. -/
structure Registry.Quiet (r r' : Registry) : Prop where
  /-- The resources are the same. -/
  resources : ∀ id, (r'.resource? id).map Resource.body = (r.resource? id).map Resource.body
  /-- They are listed and cached alike. -/
  indexes : r'.indexes = r.indexes
  /-- The links are the same. -/
  links : r'.links.map Link.body = r.links.map Link.body
  /-- The same buffers are set aside. -/
  disposed : r'.disposed = r.disposed
  /-- The same buffers are retired. -/
  retired : r'.retired = r.retired
  /-- The tick of later intents is the same. -/
  tick : r'.tick = r.tick
  /-- The settings are the same. -/
  config : r'.config = r.config
  /-- Numbers may have been given out elsewhere. -/
  issued : r.supply.issued ≤ r'.supply.issued

/-- A registry with the references that no instance holds. -/
structure Book where
  /-- The registry. -/
  registry : Registry
  /-- The references of the host and those between two hands. -/
  outside : Multiset ResourceId
  /-- Every reference that was taken so far. -/
  taken : Multiset ResourceId

/-- The references that a property's new bytes hold are of the type that it declares, and what is
held as a raw buffer is one that is known on every link. -/
structure Registry.Admits (r : Registry) (prop : Property) (part : Bytes) : Prop where
  /-- References lead to resources of the declared type. -/
  typed : prop.isOwningRef = true → ∀ id ∈ prop.heldIds part,
    ∃ target, r.resource? id = some target ∧ prop.target? = some target.type
  /-- Raw buffers are live as such and were sent over every link. -/
  sent : prop.kind = .arrayBuffer → ∀ id ∈ prop.heldIds part,
    ∃ target, r.resource? id = some target ∧ (∃ b, target.storage = .payload (.buffer b)) ∧
      ∀ k < r.links.length, target.IsBoundTo k

/-- Every raw buffer that a resource holds has a number that was given out, and was sent over a link
if it is still there. -/
def Registry.BuffersSent (r : Registry) (storage : Storage) (k : Nat) : Prop :=
  ∀ schema bytes, storage = .fields schema bytes → ∀ prop ∈ schema.layout.props,
    prop.kind = .arrayBuffer → ∀ id ∈ prop.heldIds (prop.slice bytes),
      id.toNat ≤ r.supply.issued ∧
        ∀ target, r.resource? id = some target → target.IsBoundTo k

/-- One elementary change. Bytes of the instance `writer` may be written, and of no other, and it
is not sent anywhere meanwhile. In a strict change only what nobody references is removed. -/
inductive Edit (strict : Prop) (writer : ResourceId) : Book → Book → Prop
  /-- Nothing that matters here changes. -/
  | quiet {r r' : Registry} {outside taken : Multiset ResourceId} (h : r.Quiet r') :
    Edit strict writer ⟨r, outside, taken⟩ ⟨r', outside, taken⟩
  /-- A resource that holds nothing is entered under the next number and under a key that leads
  nowhere. -/
  | enter {r : Registry} {outside taken : Multiset ResourceId} (type : String)
      {storage : Storage} (options : Options) (hsound : storage.IsSound)
      (hblank : storage.heldIds = []) (hnamed : storage.IsNamed type)
      (huncached : r.cached? type options.cacheKey? = none) :
    Edit strict writer ⟨r, outside, taken⟩ ⟨(r.insert type storage options).2, outside, taken⟩
  /-- A reference on a resource is taken. -/
  | retain {r : Registry} {outside taken : Multiset ResourceId} {id : ResourceId} {res : Resource}
      (h : r.resource? id = some res) :
    Edit strict writer ⟨r, outside, taken⟩
      ⟨r.modifyResource id Resource.retained, id ::ₘ outside, id ::ₘ taken⟩
  /-- A reference on a resource is given back. -/
  | release {r : Registry} {outside taken : Multiset ResourceId} {id : ResourceId}
      {res : Resource} (h : r.resource? id = some res) :
    Edit strict writer ⟨r, id ::ₘ outside, taken⟩
      ⟨r.modifyResource id Resource.released, outside, taken⟩
  /-- A reference on a resource that is gone is dropped. -/
  | drop {r : Registry} {outside taken : Multiset ResourceId} {id : ResourceId}
      (h : r.resource? id = none) :
    Edit strict writer ⟨r, id ::ₘ outside, taken⟩ ⟨r, outside, taken⟩
  /-- The bytes of a property are replaced. References move between the book and the bytes. -/
  | store {r : Registry} {outside outside' taken : Multiset ResourceId} {res : Resource}
      {schema : Schema} {bytes part : Bytes} {prop : Property}
      (h : r.resource? writer = some res) (hstorage : res.storage = .fields schema bytes)
      (hprop : prop ∈ schema.layout.props) (hpart : part.length = (prop.slice bytes).length)
      (hmoved : outside' + prop.heldIds part = outside + prop.heldIds (prop.slice bytes))
      (hadmits : r.Admits prop part) :
    Edit strict writer ⟨r, outside, taken⟩ ⟨r.storeBytes writer prop part, outside', taken⟩
  /-- A resource is sent over a link. -/
  | ship {r : Registry} {outside taken : Multiset ResourceId} {id : ResourceId} {res : Resource}
      {k : Nat} {link : Link} (load : LoadState) (h : r.resource? id = some res)
      (hlink : r.links[k]? = some link) (hother : id ≠ writer) (hnew : ¬res.IsBoundTo k)
      (hbuffers : r.BuffersSent res.storage k) :
    Edit strict writer ⟨r, outside, taken⟩
      ⟨{ r with
        links := r.links.set k (link.ship k res r.tick).2
        resources := r.resources.insert id
          { res with bindings := res.bindings ++ [(link.ship k res r.tick).1], load } },
        outside, taken⟩
  /-- A resource is removed. What it held is between two hands. -/
  | remove {r : Registry} {outside taken : Multiset ResourceId} {id : ResourceId} {res : Resource}
      (h : r.resource? id = some res) (hfree : strict → res.refCount = 0) :
    Edit strict writer ⟨r, outside, taken⟩
      ⟨r.remove res, outside + res.storage.heldIds, taken⟩

/-- A chain of elementary changes. -/
abbrev Edits (strict : Prop) (writer : ResourceId) : Book → Book → Prop :=
  Relation.ReflTransGen (Edit strict writer)

/-- An elementary change, whatever becomes of references. -/
def Registry.Change (r after : Registry) : Prop :=
  ∃ strict writer outside outside' taken taken',
    Edit strict writer ⟨r, outside, taken⟩ ⟨after, outside', taken'⟩

/-- A chain of elementary changes, whatever becomes of references. -/
abbrev Registry.Changes : Registry → Registry → Prop := Relation.ReflTransGen Registry.Change

theorem Edits.changes {strict : Prop} {writer : ResourceId} {b b' : Book}
    (h : Edits strict writer b b') : b.registry.Changes b'.registry :=
  h.lift Book.registry fun b₁ b₂ hstep =>
    ⟨strict, writer, b₁.outside, b₂.outside, b₁.taken, b₂.taken, hstep⟩

/-- A chain of elementary changes, whoever writes in each of them and whether what it removes is
referenced or not. -/
abbrev Dealings : Book → Book → Prop :=
  Relation.ReflTransGen fun b b' => ∃ strict writer, Edit strict writer b b'

theorem Edits.dealings {strict : Prop} {writer : ResourceId} {b b' : Book}
    (h : Edits strict writer b b') : Dealings b b' :=
  h.lift id fun _ _ hstep => ⟨strict, writer, hstep⟩

/-- A change at whose end there are as many references outside of instances as before. -/
def Registry.KeepsOutside (r after : Registry) : Prop :=
  ∀ outside taken, ∃ taken', Dealings ⟨r, outside, taken⟩ ⟨after, outside, taken'⟩

/-- A chain that moves no reference, takes none and writes to no instance. What it may send
somewhere is the resource that is entered next. -/
def Registry.Neutral (r after : Registry) : Prop :=
  ∀ strict writer, writer ≠ r.supply.nextId → ∀ outside taken,
    Edits strict writer ⟨r, outside, taken⟩ ⟨after, outside, taken⟩

namespace Registry

variable {r r' r'' : Registry}

protected theorem Neutral.refl (r : Registry) : r.Neutral r := fun _ _ _ _ _ => .refl

namespace KeepsOutside

protected theorem refl (r : Registry) : r.KeepsOutside r := fun _ taken => ⟨taken, .refl⟩

protected theorem trans (h : r.KeepsOutside r') (h' : r'.KeepsOutside r'') : r.KeepsOutside r'' := by
  intro outside taken
  obtain ⟨taken₁, hfirst⟩ := h outside taken
  obtain ⟨taken₂, hsecond⟩ := h' outside taken₁
  exact ⟨taken₂, hfirst.trans hsecond⟩

/-- A change that conserves the references outside is a chain of elementary changes. -/
theorem changes (h : r.KeepsOutside r') : r.Changes r' := by
  obtain ⟨taken, hdealings⟩ := h 0 0
  exact hdealings.lift Book.registry fun b₁ b₂ ⟨strict, writer, hstep⟩ =>
    ⟨strict, writer, b₁.outside, b₂.outside, b₁.taken, b₂.taken, hstep⟩

end KeepsOutside

/-- A chain that moves no reference conserves the references outside. -/
theorem Neutral.keepsOutside (h : r.Neutral r') : r.KeepsOutside r' := by
  obtain ⟨writer, hwriter⟩ : ∃ writer, writer ≠ r.supply.nextId :=
    ⟨r.supply.nextId + 1, by simp⟩
  intro outside taken
  exact ⟨taken, (h True writer hwriter outside taken).dealings⟩

theorem Neutral.changes (h : r.Neutral r') : r.Changes r' := h.keepsOutside.changes

namespace Quiet

protected theorem refl (r : Registry) : r.Quiet r :=
  ⟨fun _ => rfl, rfl, rfl, rfl, rfl, rfl, rfl, Nat.le_refl _⟩

protected theorem trans (h : r.Quiet r') (h' : r'.Quiet r'') : r.Quiet r'' :=
  ⟨fun id => (h'.resources id).trans (h.resources id), h'.indexes.trans h.indexes,
    h'.links.trans h.links, h'.disposed.trans h.disposed, h'.retired.trans h.retired,
    h'.tick.trans h.tick, h'.config.trans h.config, h.issued.trans h'.issued⟩

theorem keepsOutside (h : r.Quiet r') : r.KeepsOutside r' :=
  fun _ taken => ⟨taken, .single ⟨True, 0, .quiet h⟩⟩

theorem changes (h : r.Quiet r') : r.Changes r' := h.keepsOutside.changes

end Quiet

@[simp] theorem indexes_modifyResource (r : Registry) (id : ResourceId)
    (f : Resource → Resource) : (r.modifyResource id f).indexes = r.indexes := by
  unfold modifyResource
  split <;> rfl

/-- A change of a resource that its body does not show is quiet. -/
theorem quiet_modifyResource (r : Registry) (id : ResourceId) {f : Resource → Resource}
    (hf : ∀ res, (f res).body = res.body) : r.Quiet (r.modifyResource id f) := by
  refine ⟨fun x => ?_, by simp, by simp, by simp, by simp, by simp, by simp, by simp⟩
  rw [resource?_modifyResource]
  split
  · rename_i hx
    rw [hx, Option.map_map]
    congr 1
    exact funext hf
  · rfl

end Registry

end Framecast
