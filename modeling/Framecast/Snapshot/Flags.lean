/-!
# The flag byte of a triple-buffered link

Three slots rotate between three roles. The reader owns the read slot, the
writer owns the write slot, and the temp slot is parked between them. One byte
keeps who has which: bits 0 and 1 number the read slot, bits 2 and 3 the temp
slot, bits 4 and 5 the write slot, and bit 6 says that something was published
since the reader last looked. Publishing exchanges write and temp; picking up
exchanges read and temp.
-/

namespace Framecast.Snapshot

/-- The flag byte of a link. -/
structure Flags where
  /-- The packed roles and the changed bit. -/
  byte : UInt8
  deriving DecidableEq, Repr, Inhabited

namespace Flags

/-- The byte every link starts from: read 2, temp 1, write 0, nothing published. -/
def initial : Flags := ⟨0x06⟩

/-- The bit raised by a publication and cleared by a pickup. -/
def changedBit : UInt8 := 0x40

/-- The bits that number the read slot. -/
def readMask : UInt8 := 0x03

/-- The bits that number the temp slot. -/
def tempMask : UInt8 := 0x0c

/-- The bits that number the write slot. -/
def writeMask : UInt8 := 0x30

/-- The slot the reader owns. -/
def readSlot (f : Flags) : Nat := (f.byte &&& readMask).toNat

/-- The slot parked between the roles. -/
def tempSlot (f : Flags) : Nat := ((f.byte &&& tempMask) >>> 2).toNat

/-- The slot the writer owns. -/
def writeSlot (f : Flags) : Nat := ((f.byte &&& writeMask) >>> 4).toNat

/-- Whether something was published since the last pickup. -/
def changed (f : Flags) : Bool := (f.byte &&& changedBit) != 0

/-- Exchanges read and temp and clears the changed bit. The write slot stays. -/
def swapReadTemp (f : Flags) : Flags :=
  ⟨f.byte &&& writeMask ||| (f.byte &&& readMask) <<< 2 ||| (f.byte &&& tempMask) >>> 2⟩

/-- Exchanges write and temp and raises the changed bit. The read slot stays. -/
def swapWriteTemp (f : Flags) : Flags :=
  ⟨changedBit ||| (f.byte &&& tempMask) <<< 2 ||| (f.byte &&& writeMask) >>> 2
    ||| f.byte &&& readMask⟩

/-- The writer makes its slot the one to pick up next. -/
def publish (f : Flags) : Flags := f.swapWriteTemp

/-- The reader takes over what was published last; without a publication nothing moves. The
first component says whether anything moved. -/
def pickUp (f : Flags) : Bool × Flags :=
  if f.changed then (true, f.swapReadTemp) else (false, f)

end Flags

end Framecast.Snapshot
