import Framecast.Notice
import Framecast.Resource

/-!
# Loaders

A consumer makes something of an arriving resource with the loader registered for
its type. This module says what a loader sees and gives, and holds four loaders
that are ready for use.
-/

namespace Framecast

/-- What a loader sees of an arriving resource. -/
structure Arrival where
  /-- Its number. -/
  id : ResourceId
  /-- Its type tag. -/
  type : String
  /-- Its name. -/
  name : String
  /-- Its payload; instances have none. -/
  payload? : Option Payload
  /-- The current bytes of an instance; nothing else has any. -/
  bytes? : Option Bytes
  deriving DecidableEq, Repr

/-- Makes something of the resources of one type. -/
structure Loader where
  /-- What is made of a resource, or why nothing can be. -/
  load : Arrival → Except String Product
  /-- Whether the loader tells the outside when it is given something back. -/
  announces : Bool := false

namespace Loader

/-- Measures texts: the number of their bytes. An empty text cannot be loaded. -/
def text : Loader where
  announces := true
  load a :=
    match a.payload? with
    | some (.text s) =>
      if s.isEmpty then .error (a.type ++ " " ++ a.name ++ " is empty")
      else .ok (.number s.utf8ByteSize)
    | _ => .error "text payload"

/-- Keeps the name of the resource, whatever it is. -/
def echo : Loader where
  load a := .ok (.text a.name)

/-- Halves even words. -/
def number : Loader where
  load a :=
    match a.payload? with
    | some (.number n) =>
      if n.toNat % 2 = 0 then .ok (.number (n.toNat / 2))
      else .error ("number " ++ toString n ++ ": bad parity: odd")
    | _ => .error "not a number"

/-- Copies the bytes of an instance. -/
def snapshot : Loader where
  load a :=
    match a.bytes? with
    | some bytes => .ok (.bytes bytes)
    | none => .error "no bytes"

/-- The loader of a name. -/
def ofName? (name : String) : Option Loader :=
  match name with
  | "text" => some text
  | "echo" => some echo
  | "number" => some number
  | "snapshot" => some snapshot
  | _ => none

end Loader

end Framecast
