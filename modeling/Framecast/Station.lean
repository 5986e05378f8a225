import Framecast.Broadcast
import Framecast.Typed.Scene

/-!
# A station

A station runs any number of producers, each with the consumers that follow it.
All producers draw their numbers and buffers from one supply, so until numbers come
around, a number names at most one resource in the whole station.
-/

namespace Framecast

/-- Producers that share one supply. -/
structure Station where
  /-- What the producers draw from. -/
  supply : Supply
  /-- The producers with their consumers. -/
  broadcasts : Array Broadcast
  /-- The number of the next layout to be published. -/
  nextSchema : Nat

namespace Station

/-- A station without producers. Numbering starts at one. -/
def initial : Station := ⟨⟨0, .initial⟩, #[], Scene.classes.length⟩

/-- Adds a producer and gives its position. -/
def host (s : Station) (config : Config) : Nat × Station :=
  (s.broadcasts.size,
    { s with broadcasts := s.broadcasts.push ⟨.create config s.supply, #[], true⟩ })

/-- The producer at a position. -/
def registry? (s : Station) (m : Nat) : Option Registry :=
  s.broadcasts[m]?.map fun b => (b.drawing s.supply).registry

/-- The station with the broadcast at a position changed. -/
def modifyBroadcast (s : Station) (m : Nat) (f : Broadcast → Broadcast) : Station :=
  { s with broadcasts := s.broadcasts.modify m f }

/-- The station with the producer at a position replaced. What it left of the supply is there for
all. -/
def setRegistry (s : Station) (m : Nat) (r : Registry) : Station :=
  { s.modifyBroadcast m fun b => { b with registry := r } with supply := r.supply }

/-- Does something with the producer at a position and its consumers. The producer draws from the
supply of the station, and what it leaves of it is there for all. -/
def onBroadcast {α : Type} (s : Station) (m : Nat) (f : Broadcast → α × Broadcast) :
    Option (α × Station) :=
  s.broadcasts[m]?.map fun b =>
    let (answer, after) := f (b.drawing s.supply)
    (answer, { s.modifyBroadcast m fun _ => after with supply := after.registry.supply })

/-- Runs an operation of the producer at a position. -/
def onRegistry {α : Type} (s : Station) (m : Nat) (operation : RegistryM α) :
    Option (Except ResourceError α × Station) :=
  s.onBroadcast m (·.operate operation)

/-- Opens a link from the producer at a position to a thread. -/
def connect (s : Station) (m : Nat) (thread : Thread) :
    Option (Except ResourceError Nat × Station) :=
  s.onBroadcast m (·.connect thread)

/-- Consumer `k` of the producer at a position, with its wire. -/
def connection? (s : Station) (m k : Nat) : Option Connection :=
  s.broadcasts[m]?.bind (·.connection? k)

/-- The station with a consumer and its wire replaced. -/
def setConnection (s : Station) (m k : Nat) (c : Connection) : Station :=
  s.modifyBroadcast m (·.setConnection k c)

/-- Runs an operation of a consumer. -/
def onConnection {α : Type} (s : Station) (m k : Nat) (operation : ConnectionM α) :
    Option (Except ResourceError α × Station) :=
  (s.connection? m k).map fun c =>
    match operation.run c with
    | .ok a after => (.ok a, s.setConnection m k after)
    | .error e after => (.error e, s.setConnection m k after)

/-- Publishes a layout under a number of its own. -/
def publish (s : Station) (layout : Layout) : Schema × Station :=
  (⟨s.nextSchema, layout⟩, { s with nextSchema := s.nextSchema + 1 })

/-- Issues a raw buffer. -/
def issueBuffer (s : Station) (bytes : Bytes) (isShared : Bool) : RawBuffer × Station :=
  let (buffer, pool) := s.supply.pool.issue bytes isShared
  (buffer, { s with supply := { s.supply with pool } })

/-- What the host is to be told, and the station with all of it told. -/
def takeNotices (s : Station) : Array Notice × Station :=
  let told := s.broadcasts.map Broadcast.takeNotices
  (told.flatMap Prod.fst, { s with broadcasts := told.map Prod.snd })

end Station

end Framecast
