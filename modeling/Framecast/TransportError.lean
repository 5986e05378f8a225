/-!
# What can go wrong in transport

Snapshots, rings and memory regions share one small list of failures. Each is
named for its cause, and `message` gives its wording.
-/

namespace Framecast

/-- A failure of a region, a snapshot buffer or a record ring. -/
inductive TransportError where
  /-- A capacity or length lies outside what can be served. -/
  | invalidCapacity (requested minimum : Nat)
  /-- No memory of this size and alignment can be had. -/
  | allocationFailed (size alignment : Nat)
  /-- A ring holds as many records as it can. -/
  | ringFull (capacity : Nat)
  /-- A snapshot does not have the length of the slots it is meant for. -/
  | lengthMismatch (expected actual : Nat)
  deriving DecidableEq, Repr

/-- The wording of a transport failure. -/
def TransportError.message : TransportError → String
  | invalidCapacity requested minimum =>
    "capacity " ++ toString requested ++ " must be at least " ++ toString minimum
  | allocationFailed size alignment =>
    "failed to allocate shared region of " ++ toString size ++ " bytes aligned to "
      ++ toString alignment
  | ringFull capacity =>
    "record ring overflowed its capacity of " ++ toString capacity ++ " records"
  | lengthMismatch expected actual =>
    "snapshot of " ++ toString actual ++ " bytes does not fit slots of " ++ toString expected
      ++ " bytes"

end Framecast
