import Framecast.Proofs.Frames.Rotation

/-!
# The latest frame wins

One link is used in any order: buffers are allocated, snapshots are copied into the
write slots, frames are published and picked up. Until a pickup finds something, every
buffer goes on reading as it does. A pickup finds something exactly if something was
published since the last one that did, and then all buffers read at once what their
write slots held when that was published last. A buffer that had not been allocated
by then reads as its initial contents.

A run keeps the link before each action, newest first, so that what is picked up can
be said in terms of what was done.
-/

namespace Framecast.Snapshot

/-- What can be done with a link. -/
inductive LinkAction where
  /-- A buffer is allocated. -/
  | allocate (bytes : Bytes)
  /-- A snapshot is copied into the write slot of buffer `i`, if it has the right length. -/
  | copy (i : Nat) (bytes : Bytes)
  /-- The writer publishes. -/
  | publish
  /-- The reader picks up. -/
  | pickUp
  deriving DecidableEq, Repr

theorem Flags.fst_pickUp (f : Flags) : f.pickUp.1 = f.changed := by
  unfold pickUp
  cases f.changed <;> rfl

namespace FrameLink

/-- Does one action. A copy of the wrong length is refused and changes nothing. -/
def step (link : FrameLink) : LinkAction → FrameLink
  | .allocate bytes => (link.allocate bytes).2
  | .copy i bytes =>
    match link.copy i bytes with
    | .ok (_, after) => after
    | .error _ => link
  | .publish => link.publish
  | .pickUp => link.pickUp.2

/-- Whether buffer `i` is there and has slots of the length of a snapshot. -/
def Takes (link : FrameLink) (i : Nat) (bytes : Bytes) : Prop :=
  i < link.buffers.size ∧ bytes.length = link.length i

instance (link : FrameLink) (i : Nat) (bytes : Bytes) : Decidable (link.Takes i bytes) :=
  inferInstanceAs (Decidable (_ ∧ _))

/-- A copy writes the write slot of its buffer if its length is right, and nothing else. -/
theorem step_copy (link : FrameLink) (i : Nat) (bytes : Bytes) :
    link.step (.copy i bytes) = if bytes.length = link.length i then link.put i bytes else link := by
  unfold step copy slotFor
  by_cases h : bytes.length = link.length i
  · rw [if_pos h]
    unfold length at h
    simp only [h, if_true]
    rfl
  · rw [if_neg h]
    unfold length at h
    simp only [h, if_false]
    rfl

end FrameLink

/-- One action on a link and the link before it. -/
structure LinkMoment where
  /-- The link before the action. -/
  before : FrameLink
  /-- The action. -/
  action : LinkAction

namespace LinkMoment

/-- Whether the action is a pickup that finds something. -/
def takesOver (m : LinkMoment) : Bool := m.action = .pickUp && m.before.pickUp.1

/-- Whether the action is a publication. -/
def publishes (m : LinkMoment) : Bool := m.action = .publish

/-- The contents with which the action allocates a buffer. -/
def allocated? (m : LinkMoment) : Option Bytes :=
  match m.action with
  | .allocate bytes => some bytes
  | _ => none

/-- The snapshot that the action copies into buffer `i`. -/
def copied? (m : LinkMoment) (i : Nat) : Option Bytes :=
  match m.action with
  | .copy j bytes => if j = i ∧ m.before.Takes i bytes then some bytes else none
  | _ => none

end LinkMoment

/-- From a link, some actions lead to another. The moments on the way are listed newest first. -/
inductive LinkRun (start : FrameLink) : List LinkMoment → FrameLink → Prop
  /-- Nothing is done. -/
  | nil : LinkRun start [] start
  /-- One more action is done. -/
  | snoc {past : List LinkMoment} {link : FrameLink} (h : LinkRun start past link)
    (action : LinkAction) : LinkRun start (⟨link, action⟩ :: past) (link.step action)

/-- The moments of a run, newest first, and the link in which it ends. -/
def FrameLink.play (start : FrameLink) (actions : List LinkAction) : List LinkMoment × FrameLink :=
  actions.foldl (fun played action =>
    (⟨played.2, action⟩ :: played.1, played.2.step action)) ([], start)

/-- Actions that are done one after another are a run. -/
theorem LinkRun.play (start : FrameLink) (actions : List LinkAction) :
    LinkRun start (start.play actions).1 (start.play actions).2 := by
  have hfold : ∀ (actions : List LinkAction) (played : List LinkMoment × FrameLink),
      LinkRun start played.1 played.2 →
        LinkRun start
          (actions.foldl (fun played action =>
            (⟨played.2, action⟩ :: played.1, played.2.step action)) played).1
          (actions.foldl (fun played action =>
            (⟨played.2, action⟩ :: played.1, played.2.step action)) played).2 := by
    intro actions
    induction actions with
    | nil => exact fun _ h => h
    | cons action rest ih => exact fun _ h => ih _ (h.snoc action)
  exact hfold actions ([], start) .nil

/-- The contents with which buffers were allocated, in the order of their numbers. -/
def initials (past : List LinkMoment) : List Bytes :=
  past.reverse.filterMap LinkMoment.allocated?

/-- The snapshot that was copied last into buffer `i` since the last publication. -/
def lastCopied? (past : List LinkMoment) (i : Nat) : Option Bytes :=
  (past.takeWhile (!·.publishes)).findSome? (·.copied? i)

/-- Whether anything was published since the last pickup that found something. -/
def awaitsPickUp (past : List LinkMoment) : Bool :=
  (past.takeWhile (!·.takesOver)).any (·.publishes)

/-- What buffer `i` held in its write slot at a publication, or, if it was allocated later, its
initial contents. -/
def frameAt (m : LinkMoment) (past : List LinkMoment) (i : Nat) : Bytes :=
  if i < m.before.buffers.size then m.before.slot i m.before.flags.writeSlot
  else (initials past)[i]?.getD []

/-- An allocation is the last of the allocations made so far. -/
theorem initials_cons (m : LinkMoment) (past : List LinkMoment) :
    initials (m :: past) = initials past ++ m.allocated?.toList := by
  unfold initials
  rw [List.reverse_cons, List.filterMap_append]
  cases hnew : m.allocated? with
  | none => rw [List.filterMap_cons_none hnew]; rfl
  | some bytes => rw [List.filterMap_cons_some hnew]; rfl

namespace FrameLink

variable {link : FrameLink} {i j s : Nat} {bytes : Bytes}

/-- No action takes the roles of the slots together. -/
theorem IsRotation.step (h : link.IsRotation) (action : LinkAction) :
    (link.step action).IsRotation := by
  cases action with
  | allocate bytes => exact h
  | copy i bytes =>
    rw [step_copy]
    split <;> exact h
  | publish => exact Flags.IsRotation.publish h
  | pickUp => exact Flags.IsRotation.pickUp h

/-- No action takes a buffer away, and an allocation adds one. -/
theorem size_step (link : FrameLink) (action : LinkAction) :
    (link.step action).buffers.size =
      link.buffers.size + (LinkMoment.allocated? ⟨link, action⟩).toList.length := by
  cases action with
  | allocate bytes => exact Array.size_push _
  | copy i bytes =>
    rw [step_copy]
    split
    · exact Array.size_modify
    · rfl
  | publish => rfl
  | pickUp => rfl

/-- What a slot that the writer does not own holds is left alone by every action, if its buffer is
there. -/
theorem slot_step_of_ne (h : link.IsRotation) (action : LinkAction) (hi : i < link.buffers.size)
    (hs : s < 3) (hne : s ≠ link.flags.writeSlot) : (link.step action).slot i s = link.slot i s := by
  cases action with
  | allocate bytes => exact (slot_allocate link bytes i hs).trans (if_neg (Nat.ne_of_lt hi))
  | copy j bytes =>
    rw [step_copy]
    split
    · exact (slot_put link j bytes i s h.write).trans (if_neg fun hall => hne hall.2.1)
    · rfl
  | publish => rfl
  | pickUp => rfl

/-- Until a pickup finds something, an action leaves the reader its slot. -/
theorem readSlot_step {action : LinkAction}
    (h : LinkMoment.takesOver ⟨link, action⟩ = false) :
    (link.step action).flags.readSlot = link.flags.readSlot := by
  cases action with
  | allocate bytes => rfl
  | copy i bytes =>
    rw [step_copy]
    split <;> rfl
  | publish => exact link.flags.readSlot_publish
  | pickUp =>
    have hchanged : link.flags.changed = false := by
      simpa [LinkMoment.takesOver, FrameLink.pickUp, Flags.fst_pickUp] using h
    exact (Flags.readSlot_pickUp link.flags).trans (if_neg (by simp [hchanged]))

/-- Until a pickup finds something, every buffer goes on reading as it does. -/
theorem read_step (h : link.IsRotation) {action : LinkAction}
    (htakes : LinkMoment.takesOver ⟨link, action⟩ = false) (hi : i < link.buffers.size) :
    (link.step action).read i = link.read i := by
  rw [read_eq_slot, read_eq_slot, readSlot_step htakes]
  exact slot_step_of_ne h action hi h.read h.write_ne_read.symm

end FrameLink

namespace LinkRun

variable {start link link' : FrameLink} {past later : List LinkMoment} {i : Nat} {bytes : Bytes}

theorem isRotation (h : LinkRun .initial past link) : link.IsRotation := by
  induction h with
  | nil => exact Flags.isRotation_initial
  | snoc h action ih => exact ih.step action

/-- Buffers are numbered as they were allocated. -/
theorem length_initials (h : LinkRun .initial past link) :
    (initials past).length = link.buffers.size := by
  induction h with
  | nil => rfl
  | @snoc past link h action ih =>
    rw [FrameLink.size_step, ← ih, initials_cons, List.length_append]

/-- Until a pickup finds something, every buffer that is there goes on reading as it does. -/
theorem read_eq (h : LinkRun start later link) (hstart : start.IsRotation)
    (htakes : ∀ m ∈ later, m.takesOver = false) :
    link.IsRotation ∧ start.buffers.size ≤ link.buffers.size ∧
      ∀ i < start.buffers.size, link.read i = start.read i := by
  induction h with
  | nil => exact ⟨hstart, Nat.le_refl _, fun _ _ => rfl⟩
  | @snoc later link h action ih =>
    obtain ⟨hrotation, hsize, hread⟩ := ih fun m hm => htakes m (List.mem_cons_of_mem _ hm)
    refine ⟨hrotation.step action, ?_, fun i hi => ?_⟩
    · rw [FrameLink.size_step]
      exact Nat.le_add_right_of_le hsize
    · rw [← hread i hi]
      exact FrameLink.read_step hrotation (htakes _ List.mem_cons_self) (Nat.lt_of_lt_of_le hi hsize)

/-- The changed bit says that something was published since the last pickup that found something. -/
theorem changed_eq (h : LinkRun .initial past link) : link.flags.changed = awaitsPickUp past := by
  induction h with
  | nil => decide
  | @snoc past link h action ih =>
    unfold awaitsPickUp at *
    cases action with
    | allocate bytes =>
      have hflags : (link.step (.allocate bytes)).flags = link.flags := rfl
      simpa [LinkMoment.takesOver, LinkMoment.publishes, hflags] using ih
    | copy i bytes =>
      have hflags : (link.step (.copy i bytes)).flags = link.flags := by
        rw [FrameLink.step_copy]
        split <;> rfl
      simpa [LinkMoment.takesOver, LinkMoment.publishes, hflags] using ih
    | publish =>
      simp [LinkMoment.takesOver, LinkMoment.publishes, FrameLink.step, FrameLink.publish]
    | pickUp =>
      have hafter : (link.step .pickUp).flags.changed = false := Flags.changed_pickUp link.flags
      rw [hafter]
      cases hchanged : link.flags.changed with
      | true => simp [LinkMoment.takesOver, FrameLink.pickUp, Flags.fst_pickUp, hchanged]
      | false =>
        rw [hchanged] at ih
        simpa [LinkMoment.takesOver, LinkMoment.publishes, FrameLink.pickUp, Flags.fst_pickUp,
          hchanged] using ih

/-- What was copied last since the last publication stands in the write slot. -/
theorem slot_of_lastCopied? (h : LinkRun .initial past link)
    (hcopied : lastCopied? past i = some bytes) :
    i < link.buffers.size ∧ link.slot i link.flags.writeSlot = bytes := by
  induction h with
  | nil => cases hcopied
  | @snoc past link h action ih =>
    unfold lastCopied? at *
    cases action with
    | publish => simp [LinkMoment.publishes] at hcopied
    | allocate bytes' =>
      obtain ⟨hi, hslot⟩ := ih (by simpa [LinkMoment.publishes, LinkMoment.copied?] using hcopied)
      have hsize := link.size_step (.allocate bytes')
      refine ⟨by omega, ?_⟩
      rw [← hslot]
      exact (FrameLink.slot_allocate link bytes' i h.isRotation.write).trans
        (if_neg (Nat.ne_of_lt hi))
    | pickUp =>
      obtain ⟨hi, hslot⟩ := ih (by simpa [LinkMoment.publishes, LinkMoment.copied?] using hcopied)
      refine ⟨hi, ?_⟩
      rw [← hslot]
      exact congrArg (link.slot i) (Flags.writeSlot_pickUp link.flags)
    | copy j bytes' =>
      have hsize : (link.step (.copy j bytes')).buffers.size = link.buffers.size :=
        link.size_step _
      have hwrite : (link.step (.copy j bytes')).flags.writeSlot = link.flags.writeSlot := by
        rw [FrameLink.step_copy]
        split <;> rfl
      rw [hsize, hwrite]
      by_cases hnew : j = i ∧ link.Takes i bytes'
      · obtain ⟨rfl, hi, hlength⟩ := hnew
        obtain rfl : bytes' = bytes := by
          simpa [LinkMoment.publishes, LinkMoment.copied?, FrameLink.Takes, hi, hlength]
            using hcopied
        refine ⟨hi, ?_⟩
        rw [FrameLink.step_copy, if_pos hlength, FrameLink.slot_put link j _ j _ h.isRotation.write,
          if_pos ⟨rfl, rfl, hi⟩]
      · obtain ⟨hi, hslot⟩ := ih (by
          simpa [LinkMoment.publishes, LinkMoment.copied?, hnew] using hcopied)
        refine ⟨hi, ?_⟩
        rw [← hslot, FrameLink.step_copy]
        split
        · rename_i hlength
          rw [FrameLink.slot_put link j _ i _ h.isRotation.write, if_neg]
          rintro ⟨rfl, -, -⟩
          exact hnew ⟨rfl, hi, hlength⟩
        · rfl

/-- A run passes through the link before each of its moments, which has no more buffers. -/
theorem reaches {m : LinkMoment} {earlier : List LinkMoment}
    (h : LinkRun start (later ++ m :: earlier) link) :
    LinkRun start earlier m.before ∧ m.before.buffers.size ≤ link.buffers.size := by
  induction later generalizing link with
  | nil =>
    cases h with
    | snoc h action =>
      refine ⟨h, ?_⟩
      rw [FrameLink.size_step]
      exact Nat.le_add_right _ _
  | cons m' later ih =>
    cases h with
    | snoc h action =>
      obtain ⟨hrun, hsize⟩ := ih h
      refine ⟨hrun, ?_⟩
      rw [FrameLink.size_step]
      exact Nat.le_add_right_of_le hsize

/-- What is there to be picked up is the frame of the last publication, and the initial contents of
the buffers allocated since. -/
theorem slot_tempSlot (h : LinkRun .initial past link) (hchanged : link.flags.changed = true) :
    ∃ later m earlier, past = later ++ m :: earlier ∧ m.action = .publish ∧
      (∀ m' ∈ later, m'.action ≠ .publish) ∧
      ∀ i < link.buffers.size, link.slot i link.flags.tempSlot = frameAt m past i := by
  induction h with
  | nil =>
    have hinitial : FrameLink.initial.flags.changed = false := by decide
    rw [hinitial] at hchanged
    cases hchanged
  | @snoc past link h action ih =>
    cases action with
    | publish =>
      refine ⟨[], ⟨link, .publish⟩, past, rfl, rfl, fun m' hm' => ?_, fun i hi => ?_⟩
      · cases hm'
      have hi : i < link.buffers.size := hi
      unfold frameAt
      rw [if_pos hi]
      exact congrArg (link.slot i) (Flags.tempSlot_publish link.flags)
    | pickUp =>
      have hafter : (link.step .pickUp).flags.changed = false := Flags.changed_pickUp link.flags
      rw [hafter] at hchanged
      cases hchanged
    | copy j bytes =>
      have hflags : (link.step (.copy j bytes)).flags = link.flags := by
        rw [FrameLink.step_copy]
        split <;> rfl
      rw [hflags] at hchanged ⊢
      obtain ⟨later, m, earlier, rfl, hpublish, hlater, hframe⟩ := ih hchanged
      refine ⟨⟨link, .copy j bytes⟩ :: later, m, earlier, rfl, hpublish, ?_, fun i hi => ?_⟩
      · intro m' hm'
        rcases List.mem_cons.mp hm' with rfl | hm'
        · exact fun heq => by cases heq
        · exact hlater m' hm'
      · have hsize : (link.step (.copy j bytes)).buffers.size = link.buffers.size :=
          link.size_step _
        rw [hsize] at hi
        rw [FrameLink.slot_step_of_ne h.isRotation _ hi h.isRotation.temp
          h.isRotation.write_ne_temp.symm, hframe i hi]
        have hinitials : initials (⟨link, .copy j bytes⟩ :: (later ++ m :: earlier)) =
            initials (later ++ m :: earlier) := (initials_cons _ _).trans (List.append_nil _)
        unfold frameAt
        rw [← hinitials]
    | allocate bytes =>
      obtain ⟨later, m, earlier, rfl, hpublish, hlater, hframe⟩ := ih hchanged
      refine ⟨⟨link, .allocate bytes⟩ :: later, m, earlier, rfl, hpublish, ?_, fun i hi => ?_⟩
      · intro m' hm'
        rcases List.mem_cons.mp hm' with rfl | hm'
        · exact fun heq => by cases heq
        · exact hlater m' hm'
      · have hsize : (link.step (.allocate bytes)).buffers.size = link.buffers.size + 1 :=
          link.size_step _
        have hinitials : initials (⟨link, .allocate bytes⟩ :: (later ++ m :: earlier)) =
            initials (later ++ m :: earlier) ++ [bytes] := initials_cons _ _
        have hbefore : m.before.buffers.size ≤ link.buffers.size := h.reaches.2
        have hlength := h.length_initials
        have hslot := FrameLink.slot_allocate link bytes i h.isRotation.temp
        refine hslot.trans ?_
        unfold frameAt
        rw [hinitials]
        by_cases hnew : i = link.buffers.size
        · rw [if_pos hnew, if_neg (by omega), List.getElem?_append_right (by omega), hlength, hnew,
            Nat.sub_self]
          rfl
        · have hold : i < link.buffers.size := by omega
          rw [if_neg hnew, hframe i hold, List.getElem?_append_left (by omega)]
          rfl

/-- A link hands on whole frames, the latest first. The roles of the slots stay apart; reads stay as
they are until a pickup finds something; a pickup finds something exactly if something was published
since the last one that did; and then every buffer reads what its write slot held at the last
publication, which is what was copied last before it, or its initial contents if it is newer. -/
theorem picks_up_latest (h : LinkRun .initial past link) :
    link.IsRotation ∧
    (∀ later after, LinkRun link later after → (∀ m ∈ later, m.takesOver = false) →
      ∀ i < link.buffers.size, after.read i = link.read i) ∧
    (link.pickUp.1 = true ↔ ∃ m ∈ past.takeWhile (!·.takesOver), m.action = .publish) ∧
    (link.pickUp.1 = true → ∃ later m earlier, past = later ++ m :: earlier ∧
      m.action = .publish ∧ (∀ m' ∈ later, m'.action ≠ .publish) ∧
      (∀ i < link.buffers.size, link.pickUp.2.read i = frameAt m past i) ∧
      ∀ i bytes, lastCopied? earlier i = some bytes → link.pickUp.2.read i = bytes) := by
  have hchanged : link.pickUp.1 = link.flags.changed := Flags.fst_pickUp link.flags
  refine ⟨h.isRotation, fun later after hlater htakes => ?_, ?_, fun hpicks => ?_⟩
  · exact (hlater.read_eq h.isRotation htakes).2.2
  · rw [hchanged, h.changed_eq]
    unfold awaitsPickUp LinkMoment.publishes
    simp only [List.any_eq_true, decide_eq_true_eq]
  · rw [hchanged] at hpicks
    obtain ⟨later, m, earlier, rfl, hpublish, hlater, hframe⟩ := h.slot_tempSlot hpicks
    have hread (i : Nat) : link.pickUp.2.read i = link.slot i link.flags.tempSlot := by
      have hslot := Flags.readSlot_pickUp link.flags
      rw [if_pos hpicks] at hslot
      exact congrArg (link.slot i) hslot
    refine ⟨later, m, earlier, rfl, hpublish, hlater, fun i hi => ?_, fun i bytes hcopied => ?_⟩
    · rw [hread, hframe i hi]
    · obtain ⟨hbefore, hsize⟩ := h.reaches
      obtain ⟨hi, hslot⟩ := hbefore.slot_of_lastCopied? hcopied
      rw [hread, hframe i (Nat.lt_of_lt_of_le hi hsize), frameAt, if_pos hi, hslot]

end LinkRun

end Framecast.Snapshot

namespace Framecast.Samples

open Snapshot

/-- Two frames are published before the reader looks, and a third is being written when one more
buffer is allocated. -/
def overtaken : List LinkMoment × FrameLink :=
  FrameLink.initial.play
    [.allocate [0, 0],
      .allocate [5],
      .copy 0 [1, 1],
      .publish,
      .copy 0 [2, 2],
      .copy 0 [3, 3],
      .copy 1 [6],
      .copy 1 [6, 6],
      .publish,
      .copy 0 [4, 4],
      .allocate [8]]

/-- The reader skips the first frame and sees the second in all buffers, with the last of what was
copied for it, and the new buffer as it was allocated. -/
theorem picks_up_overtaken :
    LinkRun .initial overtaken.1 overtaken.2 ∧ overtaken.2.pickUp.1 = true ∧
    overtaken.2.read 0 = [0, 0] ∧
    overtaken.2.pickUp.2.read 0 = [3, 3] ∧ overtaken.2.pickUp.2.read 1 = [6] ∧
    overtaken.2.pickUp.2.read 2 = [8] ∧
    ∃ later m earlier, overtaken.1 = later ++ m :: earlier ∧ m.action = .publish ∧
      (∀ m' ∈ later, m'.action ≠ .publish) ∧
      (∀ i < 3, overtaken.2.pickUp.2.read i = frameAt m overtaken.1 i) ∧
      ∀ i bytes, lastCopied? earlier i = some bytes → overtaken.2.pickUp.2.read i = bytes := by
  have hpicks : overtaken.2.pickUp.1 = true := by decide +kernel
  exact ⟨.play _ _, hpicks, by decide +kernel, by decide +kernel, by decide +kernel,
    by decide +kernel, (LinkRun.picks_up_latest (.play _ _)).2.2.2 hpicks⟩

end Framecast.Samples
