import Framecast.TransportError

/-!
# Memory regions

Buffers and rings live in zeroed regions of a given length and alignment. This
module holds the rules by which a region is granted or refused, in the order in
which they are checked.
-/

namespace Framecast

/-- A granted region of zeroed memory. -/
structure Region where
  /-- The number of bytes. -/
  length : Nat
  /-- The address is a multiple of this power of two. -/
  alignment : Nat
  deriving DecidableEq, Repr

namespace Region

/-- Regions of at least this many bytes are mapped in whole pages; smaller ones come from the
heap. -/
def mappedFrom : Nat := 64 * 1024

/-- Neither a length nor an alignment of this size fits an address space. -/
def limit : Nat := 1 <<< 62

/-- Whether `n` is a power of two. -/
def isPowerOfTwo (n : Nat) : Bool := n != 0 && 1 <<< n.log2 == n

/-- Grants a region. The alignment must be a power of two, then the length must not be zero, and
then both must fit an address space. -/
def allocate (length alignment : Nat) : Except TransportError Region :=
  if !isPowerOfTwo alignment then .error (.allocationFailed length alignment)
  else if length = 0 then .error (.invalidCapacity 0 1)
  else if limit ≤ length || limit ≤ alignment then .error (.allocationFailed length alignment)
  else .ok ⟨length, alignment⟩

/-- A granted region has the asked length and alignment. -/
theorem eq_of_allocate {length alignment : Nat} {region : Region}
    (h : allocate length alignment = .ok region) : region = ⟨length, alignment⟩ := by
  unfold allocate at h
  split at h
  · exact absurd h (by simp)
  · split at h
    · exact absurd h (by simp)
    · split at h
      · exact absurd h (by simp)
      · exact (Except.ok.inj h).symm

end Region

end Framecast
