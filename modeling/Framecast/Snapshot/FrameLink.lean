import Framecast.TransportError
import Framecast.Snapshot.TripleBuffer

/-!
# A link's snapshots

All buffers of a link rotate together, under one flag byte: the writer fills the
write slot of as many buffers as it likes and publishes once, and the reader
sees the whole frame at once. Buffers are numbered in the order in which they
were allocated, and a buffer belongs to one link for good.

A `Board` keeps several links side by side and numbers the buffers of all of
them together. It refuses to touch a buffer through a link that does not own it.
-/

namespace Framecast.Snapshot

/-- The flag byte of a link and the buffers that rotate under it. -/
structure FrameLink where
  /-- Who owns which slot. -/
  flags : Flags
  /-- The buffers, in the order of their allocation. -/
  buffers : Array TripleBuffer
  deriving Repr, Inhabited

namespace FrameLink

/-- A link without buffers. -/
def initial : FrameLink := ⟨.initial, #[]⟩

/-- Allocates a buffer with `bytes` in all its slots. The result is its number and the link. -/
def allocate (link : FrameLink) (bytes : Bytes) : Nat × FrameLink :=
  (link.buffers.size, { link with buffers := link.buffers.push (.ofContents bytes) })

/-- Copies a snapshot into the write slot of buffer `i`. -/
def put (link : FrameLink) (i : Nat) (bytes : Bytes) : FrameLink :=
  { link with buffers := link.buffers.modify i (·.setSlot link.flags.writeSlot bytes) }

/-- The slot that takes the next snapshot of buffer `i`, if the snapshot has the right length. -/
def slotFor (link : FrameLink) (i : Nat) (bytes : Bytes) : Except TransportError Nat :=
  let expected := (link.buffers[i]?.map TripleBuffer.length).getD 0
  if bytes.length = expected then .ok link.flags.writeSlot
  else .error (.lengthMismatch expected bytes.length)

/-- Copies a snapshot of the right length into the write slot of buffer `i` and says which slot
that is. -/
def copy (link : FrameLink) (i : Nat) (bytes : Bytes) : Except TransportError (Nat × FrameLink) :=
  (link.slotFor i bytes).map fun slot => (slot, link.put i bytes)

/-- Publishes everything copied since the last publication. -/
def publish (link : FrameLink) : FrameLink := { link with flags := link.flags.publish }

/-- Picks up the latest published frame, and says whether there was one. -/
def pickUp (link : FrameLink) : Bool × FrameLink :=
  (link.flags.pickUp.1, { link with flags := link.flags.pickUp.2 })

/-- What the reader sees of buffer `i`. -/
def read (link : FrameLink) (i : Nat) : Bytes :=
  (link.buffers[i]?.map (·.slot link.flags.readSlot)).getD []

/-- A new buffer reads as its contents in whichever slot the reader holds. -/
theorem read_allocate (link : FrameLink) (bytes : Bytes) (h : link.flags.readSlot < 3) :
    (link.allocate bytes).2.read link.buffers.size = bytes := by
  simp [allocate, read, TripleBuffer.slot_ofContents bytes h]

/-- Copying is invisible to the reader as long as the read and the write slot differ. -/
theorem read_put (link : FrameLink) (i j : Nat) (bytes : Bytes)
    (h : link.flags.writeSlot ≠ link.flags.readSlot) : (link.put i bytes).read j = link.read j := by
  simp only [put, read, Array.getElem?_modify]
  split
  · rename_i heq
    subst heq
    cases link.buffers[i]? with
    | none => rfl
    | some b => simp [TripleBuffer.slot_setSlot_of_ne b bytes h]
  · rfl

end FrameLink

/-- Several links, with the buffers of all of them numbered together. -/
structure Board where
  /-- The links, in the order of their creation. -/
  links : Array FrameLink
  /-- For each buffer, the link that owns it and its number there. -/
  owners : Array (Nat × Nat)
  deriving Repr, Inhabited

namespace Board

/-- A board without links. -/
def empty : Board := ⟨#[], #[]⟩

/-- Adds a link and gives its number. -/
def connect (board : Board) : Nat × Board :=
  (board.links.size, { board with links := board.links.push .initial })

/-- Link `l`. -/
def link (board : Board) (l : Nat) : FrameLink := board.links[l]?.getD .initial

/-- The board with link `l` replaced. -/
def setLink (board : Board) (l : Nat) (link : FrameLink) : Board :=
  { board with links := board.links.setIfInBounds l link }

/-- Allocates a buffer on link `l` and gives its number. -/
def allocate (board : Board) (l : Nat) (bytes : Bytes) : Nat × Board :=
  let (i, link) := (board.link l).allocate bytes
  (board.owners.size, { board.setLink l link with owners := board.owners.push (l, i) })

/-- The number that buffer `b` has on link `l`, if that link owns it. -/
def numberOn? (board : Board) (b l : Nat) : Option Nat :=
  match board.owners[b]? with
  | some (owner, i) => if owner = l then some i else none
  | none => none

/-- Copies a snapshot into buffer `b` through link `l`. The answer is missing when the link does
not own the buffer, whatever the length of the snapshot. -/
def copy (board : Board) (b l : Nat) (bytes : Bytes) :
    Option (Except TransportError (Nat × Board)) :=
  (board.numberOn? b l).map fun i =>
    ((board.link l).copy i bytes).map fun (slot, link) => (slot, board.setLink l link)

/-- Reads buffer `b` through link `l`, which must own it. -/
def read? (board : Board) (b l : Nat) : Option Bytes :=
  (board.numberOn? b l).map (board.link l).read

/-- Publishes on link `l`. -/
def publish (board : Board) (l : Nat) : Board := board.setLink l (board.link l).publish

/-- Picks up on link `l`, and says whether there was anything to pick up. -/
def pickUp (board : Board) (l : Nat) : Bool × Board :=
  let (swapped, link) := (board.link l).pickUp
  (swapped, board.setLink l link)

/-- The slot length of buffer `b`. -/
def length (board : Board) (b : Nat) : Nat :=
  match board.owners[b]? with
  | some (l, i) => ((board.link l).buffers[i]?.map TripleBuffer.length).getD 0
  | none => 0

/-- The flags under which buffer `b` rotates. -/
def flagsOf (board : Board) (b : Nat) : Flags :=
  match board.owners[b]? with
  | some (l, _) => (board.link l).flags
  | none => .initial

/-- A buffer in one line: its slot length and the flag byte of its link. -/
def summary (board : Board) (b : Nat) : String :=
  "TripleBuffer \x7b len: " ++ toString (board.length b) ++ ", flags: "
    ++ toString (board.flagsOf b).byte.toNat ++ " \x7d"

end Board

end Framecast.Snapshot
