import Framecast.Config
import Framecast.Notice
import Framecast.Wire

/-!
# The registry

The producing thread owns every resource. Its registry hands out numbers, counts
references, deduplicates by cache key, lists resources by type and keeps, for
each link, the intents that have not been sent yet. Consumers learn of anything
only when the registry is flushed or committed.

This module holds the state and its small reads and updates. Operations that can
fail keep whatever they had changed before the failure.
-/

namespace Framecast

/-- What all registries of a station draw from. -/
structure Supply where
  /-- How many resource numbers were given out. -/
  issued : Nat
  /-- The raw buffers. -/
  pool : BufferPool

namespace Supply

/-- The next resource number. Numbers count from one and wrap around with the word. -/
def nextId (s : Supply) : ResourceId := UInt32.ofNat (s.issued + 1)

/-- The supply with one more number given out. -/
def draw (s : Supply) : Supply := { s with issued := s.issued + 1 }

end Supply

/-- An intent that has not been sent yet. -/
inductive Outgoing where
  /-- A resource comes into being. -/
  | create (envelope : Envelope) (tick : Tick)
  /-- A resource goes away. -/
  | dispose (id : ResourceId) (tick : Tick)
  deriving DecidableEq, Repr, Inhabited

namespace Outgoing

/-- The record of an intent. -/
def record : Outgoing → Record
  | .create e tick => ⟨.create, tick, e.id⟩
  | .dispose id tick => ⟨.dispose, tick, id⟩

/-- What is put on the wire for an intent, in order. -/
def deliveries (o : Outgoing) : List Delivery :=
  match o with
  | .create e _ => [.envelope e, .record o.record]
  | .dispose _ _ => [.record o.record]

end Outgoing

/-- The producer's end of a link. -/
structure Link where
  /-- The thread at the far end. -/
  thread : Thread
  /-- The intents that have not been sent yet, oldest first. -/
  outbox : Array Outgoing
  /-- What both ends share. -/
  wire : Wire

namespace Link

/-- The link with its snapshots changed. -/
def mapFrames (link : Link) (f : Snapshot.FrameLink → Snapshot.FrameLink) : Link :=
  { link with wire := { link.wire with frames := f link.wire.frames } }

end Link

/-- Which of the three slots of a buffer hold something. -/
structure SlotSet where
  /-- Slot 0. -/
  first : Bool := false
  /-- Slot 1. -/
  second : Bool := false
  /-- Slot 2. -/
  third : Bool := false
  deriving DecidableEq, Repr, Inhabited

namespace SlotSet

/-- Whether slot `i` is in the set. -/
def contains (s : SlotSet) : Nat → Bool
  | 0 => s.first
  | 1 => s.second
  | 2 => s.third
  | _ => false

/-- The set with slot `i`. -/
def insert (s : SlotSet) (i : Nat) : SlotSet :=
  match i with
  | 0 => { s with first := true }
  | 1 => { s with second := true }
  | 2 => { s with third := true }
  | _ => s

/-- Whether all three slots are in the set. -/
def isFull (s : SlotSet) : Bool := s.first && s.second && s.third

end SlotSet

/-- A buffer of a resource that was disposed of. Its flag byte keeps rotating, so its final bytes
are written again until every slot holds them; a consumer that has not reached the tick of the
disposal never falls back to an older snapshot. -/
structure RetiredBuffer where
  /-- The position of the link. -/
  link : Nat
  /-- The number of the buffer on that link. -/
  buffer : Nat
  /-- The final bytes. -/
  bytes : Bytes
  /-- The slots that hold them. -/
  written : SlotSet
  deriving DecidableEq, Repr, Inhabited

/-- How a wait ended. -/
inductive Outcome where
  /-- The resource is loaded everywhere. -/
  | ready (id : ResourceId)
  /-- It never will be. -/
  | failed (cause : ResourceError)
  deriving DecidableEq, Repr

/-- A wait for a resource to be loaded everywhere. -/
structure Wait where
  /-- The resource. -/
  id : ResourceId
  /-- How the wait ended, once it has. -/
  outcome? : Option Outcome
  deriving DecidableEq, Repr

/-- The place of a resource in the cache: its type and what it is deduplicated by there. -/
structure CacheSlot where
  /-- The type tag. -/
  type : String
  /-- The key among resources of that type. -/
  key : CacheKey
  deriving DecidableEq, Repr, Inhabited

/-- The authoritative registry of one producer. -/
structure Registry where
  /-- How it is set up. -/
  config : Config
  /-- The tick stamped on intents. -/
  tick : Tick
  /-- What it draws numbers and buffers from. -/
  supply : Supply
  /-- The links, in the order of connecting. -/
  links : List Link
  /-- The live resources. -/
  resources : Std.TreeMap ResourceId Resource
  /-- The live resources of each type, newest first. -/
  byType : Std.TreeMap String (List ResourceId)
  /-- The resources that were created under a key. -/
  cache : List (CacheSlot × ResourceId)
  /-- The opaque types that consumers can load. -/
  loaderTypes : List String
  /-- The schema of each type. -/
  schemas : Std.TreeMap String Schema
  /-- Buffers whose resource is gone, waiting for the next flush. -/
  disposed : Array RetiredBuffer
  /-- Buffers that are written again on each commit. -/
  retired : Array RetiredBuffer
  /-- The waits, by ticket. -/
  waits : Array Wait
  /-- What the host is to be told, oldest first. -/
  journal : Array Notice

/-- An operation on a registry. A failure keeps what was changed before it. -/
abbrev RegistryM := EStateM ResourceError Registry

namespace Registry

/-- A registry without links or resources. -/
def create (config : Config) (supply : Supply) : Registry :=
  { config, tick := 0, supply, links := [], resources := ∅, byType := ∅, cache := [],
    loaderTypes := [], schemas := ∅, disposed := #[], retired := #[], waits := #[],
    journal := #[] }

/-- The live resource of a number. -/
def resource? (r : Registry) (id : ResourceId) : Option Resource := r.resources[id]?

/-- Changes a live resource; an unknown number changes nothing. -/
def modifyResource (r : Registry) (id : ResourceId) (f : Resource → Resource) : Registry :=
  match r.resources[id]? with
  | some resource => { r with resources := r.resources.insert id (f resource) }
  | none => r

/-- Changes the link at a position. -/
def modifyLink (r : Registry) (i : Nat) (f : Link → Link) : Registry :=
  { r with links := r.links.modify i f }

/-- Tells the host something. -/
def note (r : Registry) (notice : Notice) : Registry :=
  { r with journal := r.journal.push notice }

/-- The registry with everything told. -/
def clearJournal (r : Registry) : Registry := { r with journal := #[] }

/-- The live resources, by ascending number. -/
def live (r : Registry) : List Resource := r.resources.toList.map Prod.snd

/-- The number of live resources. -/
def size (r : Registry) : Nat := r.resources.size

/-- The live resources of a type, in the order of creation. -/
def idsOfType (r : Registry) (type : String) : List ResourceId :=
  (r.byType[type]?.getD []).reverse

/-- The resource cached under a key of a type. -/
def cached? (r : Registry) (type : String) (key? : Option CacheKey) : Option ResourceId :=
  key?.bind fun key => r.cache.lookup (CacheSlot.mk type key)

/-- The position of the link to a thread. -/
def linkTo? (r : Registry) (thread : Thread) : Option Nat :=
  r.links.findIdx? (·.thread == thread)

/-- The positions of all links. -/
def allLinks (r : Registry) : List Nat := List.range r.links.length

/-- The text of a live resource whose payload is one. -/
def string? (r : Registry) (id : ResourceId) : Option String :=
  (r.resource? id).bind fun res => res.storage.payload?.bind Payload.text?

/-- The raw buffer of a live resource whose payload is one. -/
def buffer? (r : Registry) (id : ResourceId) : Option RawBuffer :=
  (r.resource? id).bind fun res => res.storage.payload?.bind Payload.buffer?

/-- Ends a wait. -/
def resolve (outcome : Outcome) (r : Registry) (ticket : Ticket) : Registry :=
  { r with waits := r.waits.modify ticket fun w => { w with outcome? := some outcome } }

/-- Sets the tick stamped on later intents. -/
def setTick (r : Registry) (tick : Tick) : Registry := { r with tick }

/-- Declares that consumers can load an opaque type. -/
def registerType (r : Registry) (type : String) : Registry :=
  if r.loaderTypes.contains type then r else { r with loaderTypes := type :: r.loaderTypes }

/-- Opens a link to a thread and gives its position. Only resources created from now on are sent
over it. A thread is followed once at most, and never by itself. -/
def connect (thread : Thread) : RegistryM Nat := do
  let r ← get
  if thread = r.config.producer || r.links.any (·.thread == thread) then
    throw (.invalidThread thread)
  match Wire.create r.config.ringCapacity with
  | .error cause => throw (.transport cause)
  | .ok wire =>
    let link : Link := ⟨thread, #[], wire⟩
    set { r with links := r.links ++ [link] }
    return r.links.length

/-- The live resource of a number, or the failure that there is none. -/
def find (id : ResourceId) : RegistryM Resource := do
  match (← get).resource? id with
  | some resource => return resource
  | none => throw (.notFound id)

/-- Takes a reference on a resource and gives the new count. -/
def retain (id : ResourceId) : RegistryM Nat := do
  let resource ← find id
  modify (·.modifyResource id Resource.retained)
  return resource.retained.refCount

/-- Ends every open wait, as when the registry goes away. -/
def closeWaits (r : Registry) : Registry :=
  { r with waits := r.waits.map fun w =>
      match w.outcome? with
      | some _ => w
      | none => { w with outcome? := some (.failed (.disposed w.id)) } }

/-- Appends to the shared buffer that a live resource holds, and gives the new length. -/
def appendBuffer (r : Registry) (id : ResourceId) (more : Bytes) : Option (Nat × Registry) :=
  (r.buffer? id).bind fun buffer =>
    (r.supply.pool.append buffer more).map fun (n, pool) =>
      (n, { r with supply := { r.supply with pool } })

end Registry

end Framecast
