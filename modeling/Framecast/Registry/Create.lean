import Framecast.Registry.Cascade

/-!
# New resources

A new resource takes the next number, is entered under its type and its cache
key, and is bound to its links: each link gets its buffers and a creation intent
at the current tick. A resource that is already cached is returned instead.
-/

namespace Framecast

namespace Link

/-- Allocates the buffers of a resource on a link and queues its creation. -/
def ship (link : Link) (position : Nat) (resource : Resource) (tick : Tick) : Binding × Link :=
  let (status, frames) := link.wire.frames.allocate [0]
  let (cargo, data?, frames) : Cargo × Option Nat × Snapshot.FrameLink :=
    match resource.storage with
    | .payload p => (.payload p, none, frames)
    | .fields schema bytes =>
      let (buffer, frames) := frames.allocate bytes
      (.fields schema buffer, some buffer, frames)
  let envelope : Envelope := ⟨resource.type, resource.id, resource.name, cargo, status⟩
  (⟨position, link.thread, status, data?⟩,
    { link with
      outbox := link.outbox.push (.create envelope tick), wire := { link.wire with frames } })

end Link

namespace Registry

/-- The name of a resource that was given none. -/
def defaultName (type : String) (id : ResourceId) : String := type ++ "[" ++ toString id ++ "]"

/-- Enters a number in the list of a type, unless it is there. -/
def list (byType : Std.TreeMap String (List ResourceId)) (type : String) (id : ResourceId) :
    Std.TreeMap String (List ResourceId) :=
  let ids := byType[type]?.getD []
  byType.insert type (if ids.contains id then ids else id :: ids)

/-- Enters a new resource and gives its number. It is bound to no link yet. -/
def insert (r : Registry) (type : String) (storage : Storage) (options : Options) :
    ResourceId × Registry :=
  let id := r.supply.nextId
  let resource : Resource :=
    { id, type, name := options.name?.getD (defaultName type id), refCount := 0, storage,
      cacheKey? := options.cacheKey?, hook? := options.hook?, bindings := [], load := .pending 0,
      waiters := [] }
  let cache := match options.cacheKey? with
    | some key => (⟨type, key⟩, id) :: r.cache
    | none => r.cache
  (id, { r with
    supply := r.supply.draw, cache, byType := list r.byType type id,
    resources := r.resources.insert id resource })

/-- Changes the link at a position and gives what the change answers. -/
def updateLink {α : Type} (f : Link → α × Link) : List Link → Nat → Option α × List Link
  | [], _ => (none, [])
  | link :: rest, 0 =>
    let (answer, link) := f link
    (some answer, link :: rest)
  | link :: rest, position + 1 =>
    let (answer?, rest) := updateLink f rest position
    (answer?, link :: rest)

/-- Binds a resource to one more link. -/
def bindOne (resource : Resource) (tick : Tick) (state : List Binding × List Link)
    (position : Nat) : List Binding × List Link :=
  let (binding?, links) := updateLink (·.ship position resource tick) state.2 position
  (state.1 ++ binding?.toList, links)

/-- The load state of a resource that was sent to some links: without any it counts as loaded. -/
def awaiting (bindings : List Binding) : LoadState :=
  if bindings.isEmpty then .loaded else .pending bindings.length

/-- Binds a live resource to the links at some positions and queues its creation on them. -/
def bind (id : ResourceId) (positions : List Nat) : RegistryM Unit := do
  let resource ← find id
  modify fun r =>
    let (bindings, links) := positions.foldl (bindOne resource r.tick) (resource.bindings, r.links)
    { r with
      links,
      resources := r.resources.insert id { resource with bindings, load := awaiting bindings } }

/-- Enters a new resource and binds it to the links at some positions. -/
def spawn (type : String) (storage : Storage) (options : Options) (positions : List Nat) :
    RegistryM ResourceId := do
  let (id, r) := (← get).insert type storage options
  set r
  bind id positions
  return id

/-- Creates an opaque resource that the loader on `thread` makes something of. -/
def createOpaque (thread : Thread) (type : String) (payload : Payload) (options : Options) :
    RegistryM ResourceId := do
  let r ← get
  match r.linkTo? thread with
  | none => throw (.invalidThread thread)
  | some position =>
    if !r.loaderTypes.contains type then throw (.unregisteredType type)
    match r.cached? type options.cacheKey? with
    | some id => return id
    | none => spawn type (.payload payload) options [position]

/-- Interns a text. The empty text is no resource and has the number zero. -/
def createString (text : String) : RegistryM ResourceId := do
  if text.isEmpty then return 0
  let r ← get
  let key : CacheKey := .text text
  match r.cached? stringType (some key) with
  | some id => return id
  | none => spawn stringType (.payload (.text text)) { cacheKey? := some key } r.allLinks

/-- Creates a resource for a raw buffer. -/
def createBuffer (buffer : RawBuffer) : RegistryM ResourceId := do
  spawn arrayBufferType (.payload (.buffer buffer)) {} (← get).allLinks

end Registry

end Framecast
