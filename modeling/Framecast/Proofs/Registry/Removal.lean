import Framecast.Proofs.Registry.Resources
import Framecast.Registry.Frame

/-!
# What a removal does

Removing a resource takes it out, queues one disposal on every link that it is
bound to, and sets its buffers there aside with their final bytes. Nothing else
changes but the indexes and the waits.
-/

namespace Framecast

/-- The buffers of one binding with their final bytes, as they are set aside. -/
def Binding.finals (b : Binding) (storage : Storage) : List RetiredBuffer :=
  ⟨b.link, b.status, [disposedBit], {}⟩ ::
    match b.data?, storage.bytes? with
    | some buffer, some bytes => [⟨b.link, buffer, bytes, {}⟩]
    | _, _ => []

/-- The link with some intents queued behind the others. -/
def Link.enqueue (link : Link) (intents : List Outgoing) : Link :=
  { link with outbox := link.outbox ++ intents.toArray }

@[simp] theorem Link.enqueue_nil (link : Link) : link.enqueue [] = link := by
  unfold enqueue
  simp

/-- Intents queued in two portions are queued one portion after the other. -/
theorem Link.enqueue_enqueue (link : Link) (first second : List Outgoing) :
    (link.enqueue first).enqueue second = link.enqueue (first ++ second) := by
  unfold enqueue
  simp

/-- What the host is told when a resource is removed: that its hook ran, if it has one. -/
def Resource.hookNotices (res : Resource) : List Notice :=
  res.hook?.toList.map fun label => .hook label res.id

namespace Registry

/-- The disposals that a removal queues on one link. -/
def disposals (res : Resource) (tick : Tick) (k : Nat) : List Outgoing :=
  (res.bindings.filter (·.link == k)).map fun _ => .dispose res.id tick

variable {r : Registry} {res : Resource}

/-- One binding is retired: its link is told and its buffers are set aside. -/
theorem retireBinding_eq (res : Resource) (r : Registry) (b : Binding) :
    r.retireBinding res b =
      { r with
        links := r.links.modify b.link (·.enqueue [.dispose res.id r.tick])
        disposed := r.disposed ++ (b.finals res.storage).toArray } := by
  unfold retireBinding Binding.finals modifyLink Link.enqueue
  cases b.data? with
  | none => simp
  | some buffer =>
    cases res.storage.bytes? with
    | none => simp
    | some bytes => rfl

/-- All bindings are retired, one after another. -/
theorem foldl_retireBinding (res : Resource) (bindings : List Binding) (r : Registry) :
    bindings.foldl (retireBinding res) r =
      { r with
        links := r.links.mapIdx fun k link =>
          link.enqueue ((bindings.filter (·.link == k)).map fun _ => .dispose res.id r.tick)
        disposed := r.disposed ++ (bindings.flatMap (·.finals res.storage)).toArray } := by
  induction bindings generalizing r with
  | nil =>
    have hlinks : r.links.mapIdx (fun _ link => link) = r.links :=
      List.ext_getElem (by simp) (by simp)
    simp [hlinks]
  | cons b rest ih =>
    rw [List.foldl_cons, retireBinding_eq, ih]
    congr 1
    · apply List.ext_getElem?
      intro k
      simp only [List.getElem?_mapIdx, List.getElem?_modify]
      by_cases hk : b.link = k
      · simp [hk, Function.comp_def, Link.enqueue_enqueue]
      · simp [hk]
    · simp

/-- Ending waits changes the waits only. -/
theorem foldl_resolve (outcome : Outcome) (tickets : List Ticket) (r : Registry) :
    ∃ waits, tickets.foldl (resolve outcome) r = { r with waits } := by
  induction tickets generalizing r with
  | nil => exact ⟨r.waits, rfl⟩
  | cons ticket rest ih =>
    obtain ⟨waits, h⟩ := ih (resolve outcome r ticket)
    exact ⟨waits, h⟩

/-- What a removal leaves of a registry, but for the waits. -/
theorem remove_eq (res : Resource) (r : Registry) :
    ∃ waits,
      r.remove res =
        { r with
          resources := r.resources.erase res.id
          links := r.links.mapIdx fun k link => link.enqueue (disposals res r.tick k)
          disposed := r.disposed ++ (res.bindings.flatMap (·.finals res.storage)).toArray
          byType := (r.unlist res).byType
          cache := (r.uncache res).cache
          waits
          journal := (r.runHook res).journal } := by
  unfold remove
  obtain ⟨waits, hwaits⟩ := foldl_resolve (.failed (.disposed res.id)) res.waiters
    ((({ r with resources := r.resources.erase res.id }).runHook res).uncache res |>.unlist res)
  simp only [hwaits, foldl_retireBinding]
  unfold unlist uncache runHook note disposals
  cases res.hook? <;> cases res.cacheKey? <;> exact ⟨_, rfl⟩

/-- A removed resource is not found any more, and others are found as before. -/
theorem resource?_remove (res : Resource) (r : Registry) (x : ResourceId) :
    (r.remove res).resource? x = if x = res.id then none else r.resource? x := by
  obtain ⟨waits, h⟩ := remove_eq res r
  rw [h]
  exact getElem?_erase r.resources res.id x

/-- What the host is told of a removal. -/
theorem journal_remove (res : Resource) (r : Registry) :
    (r.remove res).journal = r.journal ++ res.hookNotices.toArray := by
  obtain ⟨_, heq⟩ := remove_eq res r
  rw [heq]
  unfold runHook note Resource.hookNotices
  cases res.hook? with
  | none => simp
  | some label => rfl

@[simp] theorem supply_remove (res : Resource) (r : Registry) :
    (r.remove res).supply = r.supply := by
  obtain ⟨waits, h⟩ := remove_eq res r
  rw [h]

@[simp] theorem schemas_remove (res : Resource) (r : Registry) :
    (r.remove res).schemas = r.schemas := by
  obtain ⟨waits, h⟩ := remove_eq res r
  rw [h]

end Registry

end Framecast
