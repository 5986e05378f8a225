import Framecast.Ring.Record
import Framecast.Thread
import Framecast.Word

/-!
# Notices

What the library tells its host on the way, in the order in which it happens:
which callbacks ran and what was worth a warning.
-/

namespace Framecast

/-- What a loader makes of a resource. -/
inductive Product where
  /-- A text. -/
  | text (s : String)
  /-- A number. -/
  | number (n : Nat)
  /-- A copy of bytes. -/
  | bytes (bytes : Bytes)
  /-- Nothing to hold on to. -/
  | unit
  deriving DecidableEq, Repr, Inhabited

namespace Product

/-- The number, if that is what was made. -/
def number? : Product → Option Nat
  | .number n => some n
  | _ => none

end Product

/-- Something that is passed over, but should not go unseen. -/
inductive Warning where
  /-- A resource could not be loaded on a thread. -/
  | loadFailed (thread : Thread) (id : ResourceId) (reason : String)
  /-- A creation record came without its envelope. -/
  | createUnknown (thread : Thread) (id : ResourceId)
  /-- A disposal record came for a resource that is not there. -/
  | disposeUnknown (thread : Thread) (id : ResourceId)
  /-- A ring cell held no record. -/
  | strayRecord (thread : Thread) (word : UInt32)
  deriving DecidableEq, Repr

/-- One thing the host is told. -/
inductive Notice where
  /-- A disposal hook ran. -/
  | hook (label : String) (id : ResourceId)
  /-- A loader was asked to load a resource; the last field is the length of its bytes. -/
  | load (id : ResourceId) (type name : String) (length : Option Nat)
  /-- A loader was given back what it made. Some loaders announce this to the outside. -/
  | unload (id : ResourceId) (made : Product) (announced : Bool)
  /-- A warning. -/
  | warning (cause : Warning)
  deriving DecidableEq, Repr

namespace Notice

/-- Whether the notice is a warning. -/
def isWarning : Notice → Bool
  | .warning _ => true
  | _ => false

end Notice

end Framecast
