import Framecast.Registry.Instance

/-!
# Frames: answers, flush and commit

A flush sends the queued intents of every link, all of a link's or none of them:
a link whose ring lacks room for its whole outbox fails before anything is sent
on it. A commit copies the working bytes of every instance into the write slots
and then publishes once per link, so that a consumer sees the whole frame at once.
Both also write the final bytes of buffers whose resource is gone. Answers from
consumers are taken in on the way and end the waits for a resource.
-/

namespace Framecast

namespace Registry

/-- Takes one answer in. Only a resource that is still pending cares. -/
def acknowledge (resource : Resource) (ack : Ack) (r : Registry) : Registry :=
  match resource.load, ack.failure? with
  | .pending remaining, none =>
    if 1 < remaining then
      r.modifyResource resource.id fun res => { res with load := .pending (remaining - 1) }
    else
      let r := r.modifyResource resource.id fun res => { res with load := .loaded, waiters := [] }
      resource.waiters.foldl (resolve (.ready resource.id)) r
  | .pending _, some reason =>
    let r := r.note (.warning (.loadFailed ack.thread resource.id reason))
    let r := r.modifyResource resource.id fun res =>
      { res with load := .failed reason, waiters := [] }
    resource.waiters.foldl (resolve (.failed (.loadFailed resource.id reason))) r
  | _, _ => r

/-- Takes in an answer for a resource that may be gone. -/
def takeAck (r : Registry) (ack : Ack) : Registry :=
  match r.resource? ack.id with
  | some resource => r.acknowledge resource ack
  | none => r

/-- Takes in every answer that consumers have sent so far, link by link. -/
def processAcks (r : Registry) : Registry :=
  let acks := r.links.flatMap fun link => link.wire.acks.toList
  let links := r.links.map fun link => { link with wire := { link.wire with acks := #[] } }
  acks.foldl takeAck { r with links }

/-- The snapshots of the link at a position. -/
def framesAt (r : Registry) (position : Nat) : Snapshot.FrameLink :=
  match r.links[position]? with
  | some link => link.wire.frames
  | none => .initial

/-- Copies a snapshot into a buffer of a link and gives the slot. -/
def copyTo (position buffer : Nat) (bytes : Bytes) : RegistryM Nat := do
  match ((← get).framesAt position).slotFor buffer bytes with
  | .error cause => throw (.transport cause)
  | .ok slot =>
    modify (·.modifyLink position (·.mapFrames (·.put buffer bytes)))
    return slot

/-- Writes the final bytes of a retired buffer once more. -/
def refreshRetired (b : RetiredBuffer) : RegistryM RetiredBuffer := do
  let slot ← copyTo b.link b.buffer b.bytes
  return { b with written := b.written.insert slot }

/-- Retires the buffers that were set aside since the last flush. -/
def retireDisposed : RegistryM Unit := do
  let waiting := (← get).disposed
  modify fun r => { r with disposed := #[] }
  waiting.toList.forM fun b => do
    let b ← refreshRetired b
    modify fun r => { r with retired := r.retired.push b }

/-- Sends the whole outbox of a link, if its ring has room for it. A consumer that is gone ends
the sending, and the rest of the outbox is dropped. -/
def flushLink (link : Link) : Link × Option ResourceError :=
  if link.wire.ring.free < link.outbox.size then
    (link, some (.transport (.ringFull link.wire.ring.capacity.toNat)))
  else
    let (wire, failure?) :=
      link.wire.deliverAll link.thread (link.outbox.toList.flatMap Outgoing.deliveries)
    ({ link with outbox := #[], wire }, failure?)

/-- Sends the outboxes of some links in order, up to the first failure. A link with nothing to
send is passed over. -/
def flushLinks : List Link → List Link × Option ResourceError
  | [] => ([], none)
  | link :: rest =>
    if link.outbox.isEmpty then
      let (rest, failure?) := flushLinks rest
      (link :: rest, failure?)
    else
      match flushLink link with
      | (link, some e) => (link :: rest, some e)
      | (link, none) =>
        let (rest, failure?) := flushLinks rest
        (link :: rest, failure?)

/-- Takes answers in, retires buffers and sends every queued intent. -/
def flush : RegistryM Unit := do
  modify processAcks
  retireDisposed
  let (links, failure?) := flushLinks (← get).links
  modify fun r => { r with links }
  match failure? with
  | some e => throw e
  | none => pure ()

/-- Copies the working bytes of one resource into its buffers on every link. -/
def commitResource (resource : Resource) : RegistryM Unit :=
  match resource.storage with
  | .payload _ => pure ()
  | .fields _ bytes =>
    resource.bindings.forM fun b =>
      match b.data? with
      | some buffer => discard (copyTo b.link buffer bytes)
      | none => pure ()

/-- Writes the retired buffers once more and lets go of those that are done. -/
def commitRetired : RegistryM Unit := do
  let written ← (← get).retired.toList.mapM refreshRetired
  modify fun r => { r with retired := (written.filter fun b => !b.written.isFull).toArray }

/-- Publishes the frame of a link. -/
def publishLink (link : Link) : Link := link.mapFrames Snapshot.FrameLink.publish

/-- Publishes the current bytes of every instance, one frame per link. -/
def commit : RegistryM Unit := do
  (← get).live.forM commitResource
  commitRetired
  modify fun r => { r with links := r.links.map publishLink }

/-- Adds a wait and gives its ticket. -/
def addWait (r : Registry) (wait : Wait) : Ticket × Registry :=
  (r.waits.size, { r with waits := r.waits.push wait })

/-- Waits until every consumer has loaded a resource. A wait for a resource that is settled, or not
there, ends at once. -/
def await (before : Registry) (id : ResourceId) : Ticket × Registry :=
  let r := before.processAcks
  match r.resource? id with
  | none => r.addWait ⟨id, some (.failed (.notFound id))⟩
  | some resource =>
    match resource.load with
    | .loaded => r.addWait ⟨id, some (.ready id)⟩
    | .failed reason => r.addWait ⟨id, some (.failed (.loadFailed id reason))⟩
    | .pending _ =>
      let (ticket, r) := r.addWait ⟨id, none⟩
      (ticket,
        r.modifyResource id fun res => { res with waiters := res.waiters ++ [ticket] })

end Registry

end Framecast
