import Framecast.Registry.Basic

/-!
# Disposal and its cascade

Disposing of a resource releases what it holds, and what nothing holds any more
is disposed of in turn. A worklist, newest entry first, carries the resources
whose count has reached zero; a resource may be entered more than once and is
removed once. Each removal leaves fewer live resources, so the number of live
resources bounds the number of rounds.
-/

namespace Framecast

namespace Registry

/-- Queues the disposal of a resource on one link and sets its buffers there aside, with their
final bytes. -/
def retireBinding (resource : Resource) (r : Registry) (b : Binding) : Registry :=
  let r := r.modifyLink b.link fun link =>
    { link with outbox := link.outbox.push (.dispose resource.id r.tick) }
  let r := { r with disposed := r.disposed.push ⟨b.link, b.status, [disposedBit], {}⟩ }
  match b.data?, resource.storage.bytes? with
  | some buffer, some bytes => { r with disposed := r.disposed.push ⟨b.link, buffer, bytes, {}⟩ }
  | _, _ => r

/-- Runs the hook of a resource, if it has one. -/
def runHook (resource : Resource) (r : Registry) : Registry :=
  match resource.hook? with
  | some label => r.note (.hook label resource.id)
  | none => r

/-- Removes a resource from the cache. -/
def uncache (resource : Resource) (r : Registry) : Registry :=
  match resource.cacheKey? with
  | some key => { r with cache := r.cache.filter (·.1 != ⟨resource.type, key⟩) }
  | none => r

/-- Removes a resource from the list of its type. -/
def unlist (resource : Resource) (r : Registry) : Registry :=
  { r with byType := r.byType.modify resource.type fun ids => ids.erase resource.id }

/-- Removes a live resource, without looking at what it holds: its hook runs, the indexes forget
it, its waits end and every link is told. -/
def remove (resource : Resource) (r : Registry) : Registry :=
  let r := { r with resources := r.resources.erase resource.id }
  let r := r.runHook resource
  let r := r.uncache resource
  let r := r.unlist resource
  let r := resource.waiters.foldl (resolve (.failed (.disposed resource.id))) r
  resource.bindings.foldl (retireBinding resource) r

/-- Drops one held reference. A resource that nothing holds any more enters the worklist. -/
def dropHeld (state : Registry × List ResourceId) (held : HeldRef) : Registry × List ResourceId :=
  match state.1.resource? held.id with
  | some target =>
    let r := state.1.modifyResource held.id Resource.released
    if target.released.refCount = 0 then (r, held.id :: state.2) else (r, state.2)
  | none => state

/-- The worklist from its first live entry on. -/
def nextLive (r : Registry) (worklist : List ResourceId) : List ResourceId :=
  worklist.dropWhile fun id => (r.resource? id).isNone

/-- Works off a worklist in at most `n` rounds. -/
def cascade : Nat → List ResourceId → Registry → Registry
  | 0, _, r => r
  | n + 1, worklist, r =>
    match r.nextLive worklist with
    | [] => r
    | id :: rest =>
      match r.resource? id with
      | none => r
      | some resource =>
        let dropped := resource.storage.heldRefs.foldl dropHeld (r.remove resource, rest)
        cascade n dropped.2 dropped.1

/-- Removes a resource and everything that only it kept alive. -/
def destroy (r : Registry) (id : ResourceId) : Registry := cascade r.size [id] r

/-- Drops a reference on a resource and disposes of it once nothing holds it. An unreferenced
resource is disposed of at once. The result says whether it was disposed of. -/
def dispose (id : ResourceId) : RegistryM Bool := do
  let resource ← find id
  modify (·.modifyResource id Resource.released)
  if 0 < resource.released.refCount then return false
  modify (·.destroy id)
  return true

/-- Drops a reference that an instance held; the resource may be gone already. -/
def release (r : Registry) (id : ResourceId) : Registry :=
  match (dispose id).run r with
  | .ok _ after => after
  | .error _ after => after

end Registry

end Framecast
