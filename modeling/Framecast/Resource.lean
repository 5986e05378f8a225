import Framecast.ResourceError
import Framecast.Schema.Layout

/-!
# Resources

A resource is either a payload that its consumers load, or an instance of a
schema whose bytes they read. The producer counts the references on it, knows
the link buffers through which each consumer sees it, and follows how far its
loading has come.
-/

namespace Framecast

/-- The type tag of interned texts. -/
def stringType : String := "string"

/-- The type tag of raw buffers. -/
def arrayBufferType : String := "arrayBuffer"

/-- What consumers are handed to load. -/
inductive Payload where
  /-- A text. -/
  | text (s : String)
  /-- A word. -/
  | number (n : UInt32)
  /-- Nothing but the fact that the resource exists. -/
  | unit
  /-- A raw buffer. -/
  | buffer (b : RawBuffer)
  deriving DecidableEq, Repr, Inhabited

namespace Payload

/-- The text, if the payload is one. -/
def text? : Payload → Option String
  | .text s => some s
  | _ => none

/-- The raw buffer, if the payload is one. -/
def buffer? : Payload → Option RawBuffer
  | .buffer b => some b
  | _ => none

end Payload

/-- What a resource is deduplicated by, among those of its type. -/
inductive CacheKey where
  /-- A text. -/
  | text (s : String)
  /-- A number. -/
  | number (n : Nat)
  deriving DecidableEq, Repr, Inhabited

/-- What may be said about a new resource. -/
structure Options where
  /-- Its name, if not the one made from its type and number. -/
  name? : Option String := none
  /-- What it is deduplicated by. -/
  cacheKey? : Option CacheKey := none
  /-- The label of the hook that runs when it is disposed of. -/
  hook? : Option String := none
  deriving DecidableEq, Repr, Inhabited

/-- What a resource consists of. -/
inductive Storage where
  /-- A payload. -/
  | payload (p : Payload)
  /-- The working bytes of an instance. -/
  | fields (schema : Schema) (bytes : Bytes)
  deriving DecidableEq, Repr, Inhabited

namespace Storage

/-- The payload, if there is one. -/
def payload? : Storage → Option Payload
  | .payload p => some p
  | .fields _ _ => none

/-- The schema of an instance. -/
def schema? : Storage → Option Schema
  | .payload _ => none
  | .fields schema _ => some schema

/-- The working bytes of an instance. -/
def bytes? : Storage → Option Bytes
  | .payload _ => none
  | .fields _ bytes => some bytes

/-- The references that the bytes of an instance hold. -/
def heldRefs : Storage → List HeldRef
  | .payload _ => []
  | .fields schema bytes => schema.layout.heldRefs bytes

end Storage

/-- How far the consumers have come with a resource. -/
inductive LoadState where
  /-- So many consumers have not answered yet. -/
  | pending (remaining : Nat)
  /-- Every consumer has loaded it. -/
  | loaded
  /-- Some consumer could not load it. -/
  | failed (reason : String)
  deriving DecidableEq, Repr, Inhabited

/-- The number of a wait for a resource, in the order of asking. -/
abbrev Ticket := Nat

/-- The buffers that a resource shares with one link. -/
structure Binding where
  /-- The position of the link. -/
  link : Nat
  /-- The thread at the far end. -/
  thread : Thread
  /-- The number of the one-byte status buffer on that link. -/
  status : Nat
  /-- The number of the buffer of an instance's bytes on that link. -/
  data? : Option Nat
  deriving DecidableEq, Repr, Inhabited

/-- A live resource, as the producer knows it. -/
structure Resource where
  /-- Its number. -/
  id : ResourceId
  /-- Its type tag. -/
  type : String
  /-- Its name. -/
  name : String
  /-- The references on it. -/
  refCount : Nat
  /-- What it consists of. -/
  storage : Storage
  /-- What it is deduplicated by. -/
  cacheKey? : Option CacheKey
  /-- The label of the hook that runs when it is disposed of. -/
  hook? : Option String
  /-- The links it was sent to. -/
  bindings : List Binding
  /-- How far its loading has come. -/
  load : LoadState
  /-- The waits that end with its loading. -/
  waiters : List Ticket
  deriving DecidableEq, Repr, Inhabited

namespace Resource

/-- The largest count; further references leave it there. -/
def maxRefCount : Nat := 0xFFFFFFFF

/-- The resource with one more reference on it. -/
def retained (r : Resource) : Resource := { r with refCount := min (r.refCount + 1) maxRefCount }

/-- The resource with one reference less on it; an unreferenced one stays so. -/
def released (r : Resource) : Resource := { r with refCount := r.refCount - 1 }

/-- Why it could not be loaded. -/
def loadError? (r : Resource) : Option String :=
  match r.load with
  | .failed reason => some reason
  | _ => none

/-- The threads it was sent to. -/
def targets (r : Resource) : List Thread := r.bindings.map Binding.thread

end Resource

end Framecast
