import Framecast.Replica.Basic

/-!
# Updating a replica

An update brings a consumer to a tick in four steps. It picks up the latest frame,
takes the records that are due, receives the envelopes that have arrived, and
applies the records in order. Records are taken before envelopes are received: an
envelope is sent ahead of its record, so every creation that was taken finds its
envelope.

A resource that was disposed of before it could load is kept without loading it.
A resource that nobody can load ends the update, and the records after it are lost.
-/

namespace Framecast

namespace Connection

/-- Picks up the latest frame, if there is a new one. -/
def pickUp (c : Connection) : Connection :=
  { c with wire := { c.wire with frames := c.wire.frames.pickUp.2 } }

/-- Takes the records that are due at a tick. -/
def takeDue (c : Connection) (tick : Tick) : List Record × Connection :=
  let drained := c.replica.gate.drain c.wire.ring tick
  let strays := drained.skipped.map fun w => Notice.warning (.strayRecord c.replica.thread w)
  (drained.due,
    { replica := { c.replica with
        gate := drained.gate, journal := c.replica.journal ++ strays.toArray },
      wire := { c.wire with ring := drained.ring } })

/-- Keeps an envelope until its creation takes effect. -/
def keepEnvelope (pending : Std.TreeMap ResourceId Envelope) (e : Envelope) :
    Std.TreeMap ResourceId Envelope :=
  pending.insert e.id e

/-- Receives every envelope that has arrived. -/
def receiveEnvelopes (c : Connection) : Connection :=
  { replica := { c.replica with
      pending := c.wire.envelopes.toList.foldl keepEnvelope c.replica.pending },
    wire := { c.wire with envelopes := #[] } }

/-- What a loader sees of a resource. -/
def arrival (c : Connection) (resource : LocalResource) : Arrival :=
  ⟨resource.id, resource.type, resource.name, resource.payload?, c.bytesOf? resource⟩

/-- Keeps a resource and answers its producer. -/
def settle (c : Connection) (resource : LocalResource) (failure? : Option String) : Connection :=
  { replica := { c.replica with resources := c.replica.resources.insert resource.id resource },
    wire := { c.wire with
      acks := c.wire.acks.push ⟨c.replica.thread, resource.id, failure?⟩ } }

/-- Keeps what a loader gave for a resource. -/
def settleResult (c : Connection) (resource : LocalResource) :
    Except String Product → Connection
  | .ok made => c.settle { resource with made? := some made } none
  | .error reason =>
    let c := c.mapReplica
      (·.note (.warning (.loadFailed c.replica.thread resource.id reason)))
    c.settle { resource with error? := some reason } (some reason)

/-- Loads a resource whose creation takes effect. -/
def loadResource (resource : LocalResource) : ConnectionM Unit := do
  let c ← get
  if c.wire.readsDisposed resource.status then
    set (c.mapReplica fun r =>
      { r with resources := r.resources.insert resource.id resource })
  else
    match c.replica.loaders[resource.type]? with
    | some loader =>
      let a := c.arrival resource
      let c := c.mapReplica (·.note (.load a.id a.type a.name (a.bytes?.map List.length)))
      set (c.settleResult resource (loader.load a))
    | none =>
      if resource.isBuiltIn then set (c.settleResult resource (.ok .unit))
      else throw (.unregisteredType resource.type)

/-- Applies a creation. -/
def applyCreate (id : ResourceId) : ConnectionM Unit := do
  let c ← get
  match c.replica.pending[id]? with
  | none =>
    set (c.mapReplica fun r => r.note (.warning (.createUnknown r.thread id)))
  | some envelope =>
    set (c.mapReplica fun r => { r with pending := r.pending.erase id })
    loadResource (.ofEnvelope envelope)

/-- Gives what a loader made of a resource back to the loader of its type. -/
def unload (r : Replica) (resource : LocalResource) : Replica :=
  match resource.made?, r.loaders[resource.type]? with
  | some made, some loader => r.note (.unload resource.id made loader.announces)
  | _, _ => r

/-- Applies a disposal. -/
def applyDispose (c : Connection) (id : ResourceId) : Connection :=
  c.mapReplica fun r =>
    let r := { r with pending := r.pending.erase id }
    match r.resource? id with
    | none => r.note (.warning (.disposeUnknown r.thread id))
    | some resource => unload { r with resources := r.resources.erase id } resource

/-- Applies one record. -/
def applyRecord (record : Record) : ConnectionM Unit :=
  match record.command with
  | .create => applyCreate record.id
  | .dispose => modify (·.applyDispose record.id)

/-- Applies records in order, up to the first that fails. -/
def applyAll (records : List Record) : ConnectionM Unit := records.forM applyRecord

/-- Brings the consumer to a tick. -/
def update (tick : Tick) : ConnectionM Unit := do
  modify pickUp
  let (due, c) := (← get).takeDue tick
  set c.receiveEnvelopes
  applyAll due

end Connection

end Framecast
