import Std.Data.TreeMap
import Framecast.Word

/-!
# Raw buffers and the pool of shared contents

A raw buffer is a handle on a payload of bytes. A frozen payload never changes,
so its bytes travel with the handle. A shared payload may grow in place, and
every copy of its handle sees the change: its bytes are kept in a pool, under the
serial number of the handle. Two handles are the same buffer when they were
issued together, whatever bytes they hold.
-/

namespace Framecast

/-- A handle on a payload of bytes. -/
inductive RawBuffer where
  /-- A payload that never changes. -/
  | frozen (serial : Nat) (bytes : Bytes)
  /-- A payload whose bytes are in the pool. -/
  | shared (serial : Nat)
  deriving DecidableEq, Repr, Inhabited

/-- The bytes of the shared payloads, and the next serial number. -/
structure BufferPool where
  /-- The serial number of the next handle. -/
  next : Nat
  /-- The bytes of each shared payload. -/
  contents : Std.TreeMap Nat Bytes

namespace RawBuffer

/-- The empty buffer that stands for an unset slot. It shares storage with nothing. -/
def placeholder : RawBuffer := .frozen 0 []

/-- The number under which the handle was issued. -/
def serial : RawBuffer → Nat
  | .frozen serial _ => serial
  | .shared serial => serial

/-- Whether the payload can change. -/
def isShared : RawBuffer → Bool
  | .frozen _ _ => false
  | .shared _ => true

/-- Whether two handles are on one payload. -/
def sameStorage (a b : RawBuffer) : Bool :=
  a.isShared == b.isShared && a.serial == b.serial && a.serial != 0

end RawBuffer

namespace BufferPool

/-- A pool without payloads. Serial number 0 is kept for the placeholder. -/
def initial : BufferPool := ⟨1, ∅⟩

/-- Issues a handle on a new payload. -/
def issue (pool : BufferPool) (bytes : Bytes) (isShared : Bool) : RawBuffer × BufferPool :=
  if isShared then (.shared pool.next, ⟨pool.next + 1, pool.contents.insert pool.next bytes⟩)
  else (.frozen pool.next bytes, ⟨pool.next + 1, pool.contents⟩)

/-- The current bytes of a payload. -/
def bytes (pool : BufferPool) : RawBuffer → Bytes
  | .frozen _ bytes => bytes
  | .shared serial => pool.contents[serial]?.getD []

/-- The current length of a payload. -/
def length (pool : BufferPool) (buffer : RawBuffer) : Nat := (pool.bytes buffer).length

/-- Appends to a shared payload and gives its new length; a frozen one refuses. -/
def append (pool : BufferPool) (buffer : RawBuffer) (more : Bytes) : Option (Nat × BufferPool) :=
  match buffer with
  | .frozen _ _ => none
  | .shared serial =>
    let grown := pool.bytes buffer ++ more
    some (grown.length, { pool with contents := pool.contents.insert serial grown })

/-- A buffer in one line: its length and whether it can change. -/
def summary (pool : BufferPool) (buffer : RawBuffer) : String :=
  "RawBuffer \x7b len: " ++ toString (pool.length buffer) ++ ", mutable: "
    ++ toString buffer.isShared ++ " \x7d"

theorem bytes_issue (pool : BufferPool) (content : Bytes) (isShared : Bool) :
    (pool.issue content isShared).2.bytes (pool.issue content isShared).1 = content := by
  cases isShared <;> simp [issue, bytes]

/-- Appending gives the old bytes followed by the new ones. -/
theorem bytes_append {pool after : BufferPool} {buffer : RawBuffer} {more : Bytes} {n : Nat}
    (h : pool.append buffer more = some (n, after)) :
    after.bytes buffer = pool.bytes buffer ++ more := by
  unfold append at h
  split at h
  · exact absurd h (by simp)
  · simp only [Option.some.injEq, Prod.mk.injEq] at h
    obtain ⟨_, rfl⟩ := h
    simp [bytes]

end BufferPool

end Framecast
