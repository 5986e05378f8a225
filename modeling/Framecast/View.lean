import Framecast.Registry.Basic

/-!
# Views

Whoever can look resources up by number offers a view. The producer answers from
its working bytes. A consumer answers from the frame it picked up last.
-/

namespace Framecast

/-- Read access to resources by number. -/
structure View where
  /-- The type tag of a resource. -/
  type? : ResourceId → Option String
  /-- The bytes of an instance. -/
  bytes? : ResourceId → Option Bytes
  /-- The payload of any other resource. -/
  payload? : ResourceId → Option Payload

namespace View

/-- The text of a resource whose payload is one. -/
def string? (view : View) (id : ResourceId) : Option String :=
  (view.payload? id).bind Payload.text?

/-- The raw buffer of a resource whose payload is one. -/
def buffer? (view : View) (id : ResourceId) : Option RawBuffer :=
  (view.payload? id).bind Payload.buffer?

/-- The number itself, if it names a resource of the expected type. -/
def resolve? (view : View) (expected : String) (id : ResourceId) : Option ResourceId :=
  if id = 0 then none
  else if view.type? id = some expected then some id
  else none

/-- Only a resource of the expected type is resolved. -/
theorem type?_of_resolve? {view : View} {expected : String} {id found : ResourceId}
    (h : view.resolve? expected id = some found) :
    found = id ∧ id ≠ 0 ∧ view.type? id = some expected := by
  unfold resolve? at h
  split at h
  · exact absurd h (by simp)
  · rename_i hid
    split at h
    · rename_i htype
      exact ⟨(Option.some.inj h).symm, hid, htype⟩
    · exact absurd h (by simp)

end View

/-- What the producer sees. -/
def Registry.view (r : Registry) : View where
  type? id := (r.resource? id).map Resource.type
  bytes? id := (r.resource? id).bind fun res => res.storage.bytes?
  payload? id := (r.resource? id).bind fun res => res.storage.payload?

end Framecast
