import Framecast.Replica.Update

/-!
# A broadcast

A producer together with the consumers that follow it. Replica `k` is at the far
end of link `k`, and the wire of that link is all that the two share.
-/

namespace Framecast

/-- A producer and the consumers that follow it. -/
structure Broadcast where
  /-- The producer. -/
  registry : Registry
  /-- The consumers, in the order of the links. -/
  replicas : Array Replica
  /-- Whether the producer is still there. -/
  isOpen : Bool

namespace Broadcast

/-- The broadcast while its producer draws from a supply. -/
def drawing (b : Broadcast) (supply : Supply) : Broadcast :=
  { b with registry := { b.registry with supply } }

/-- Runs an operation of the producer. -/
def operate {α : Type} (b : Broadcast) (operation : RegistryM α) :
    Except ResourceError α × Broadcast :=
  match operation.run b.registry with
  | .ok a registry => (.ok a, { b with registry })
  | .error e registry => (.error e, { b with registry })

/-- Opens a link to a thread and puts a replica at its far end. -/
def connect (b : Broadcast) (thread : Thread) : Except ResourceError Nat × Broadcast :=
  match (Registry.connect thread).run b.registry with
  | .ok position registry =>
    (.ok position, { b with registry, replicas := b.replicas.push (.create thread) })
  | .error e registry => (.error e, { b with registry })

/-- Replica `k` with its wire. -/
def connection? (b : Broadcast) (k : Nat) : Option Connection :=
  match b.replicas[k]?, b.registry.links[k]? with
  | some replica, some link => some ⟨replica, link.wire⟩
  | _, _ => none

/-- The broadcast with replica `k` and its wire replaced. -/
def setConnection (b : Broadcast) (k : Nat) (c : Connection) : Broadcast :=
  { b with
    registry := b.registry.modifyLink k fun link => { link with wire := c.wire }
    replicas := b.replicas.setIfInBounds k c.replica }

/-- Ends the producer: its open waits end, and what is on the wires stays there. -/
def close (b : Broadcast) : Broadcast :=
  { b with registry := b.registry.closeWaits, isOpen := false }

/-- Ends consumer `k`. -/
def hangUp (b : Broadcast) (k : Nat) : Broadcast :=
  { b with
    registry := b.registry.modifyLink k fun link => { link with wire := link.wire.hangUp } }

/-- What the host is to be told, and the broadcast with all of it told. -/
def takeNotices (b : Broadcast) : Array Notice × Broadcast :=
  (b.registry.journal ++ b.replicas.flatMap Replica.journal,
    { b with
      registry := b.registry.clearJournal
      replicas := b.replicas.map fun r => { r with journal := #[] } })

end Broadcast

end Framecast
