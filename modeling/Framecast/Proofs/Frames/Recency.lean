import Framecast.Proofs.Frames.Coherence
import Framecast.Proofs.Frames.Settling

/-!
# No reader goes back

What a consumer has read of an instance as of some commit, it never reads as of an
earlier one again, as long as no commit is made while the buffer of the instance is
set aside. A flush retires such a buffer, and from then on every commit writes the
final bytes until they are in all three slots. A commit before that flush publishes a
slot that nobody has written for a while, and the consumer goes back.
-/

namespace Framecast

namespace Run

variable {config : Config} {supply : Supply} {past later earlier : List Moment} {b b₁ : Broadcast}
  {k i n : Nat} {c c₁ : Connection} {id : ResourceId} {schema : Schema} {x y : Bytes}

/-- A buffer that was never set aside during a commit is settled. -/
theorem settles (h : Run (.opened config supply) past b) (hc : ∀ m ∈ past, m.action.IsCompiled)
    (hl : b.registry.supply.Lasts)
    (hnot : ∀ m ∈ past, m.action = .commit → ¬m.before.registry.SetsAside k i) :
    b.Settles k i past := by
  refine h.keeps (P := fun past b => (∀ m ∈ past, m.action = .commit →
    ¬m.before.registry.SetsAside k i) → b.Settles k i past) hc hl ?_ ?_ hnot
  · intro _
    have hdue : (Broadcast.opened config supply).registry.due? k i = none := rfl
    have hcontents : contents k i [] = none := rfl
    refine ⟨fun hsome => ?_, fun x hx => ?_, fun _ x hx => ?_, fun _ x hx => ?_⟩
    · rw [hcontents] at hsome
      cases hsome
    · rw [hdue] at hx
      cases hx
    · cases hx
    · cases hx
  · intro past b action h hc hone hlasts hl hsettles hnot
    refine (hsettles fun m hm => hnot m (List.mem_cons_of_mem _ hm)).step h.isWired hone
      (h.wellFormed hc hlasts) hl h.tallies fun heq => hnot ⟨b, action⟩ List.mem_cons_self heq

/-- In the rest of a run a consumer goes on reading a buffer as it does, or it reads it as of a
commit that is no earlier than one that was made already. -/
theorem read_recent (h : Run (.opened config supply) (later ++ earlier) b)
    (hc : ∀ m ∈ later ++ earlier, m.action.IsCompiled) (hl : b.registry.supply.Lasts)
    (h₁ : Run (.opened config supply) earlier b₁)
    (hnot : ∀ m ∈ later ++ earlier, m.action = .commit → ¬m.before.registry.SetsAside k i)
    (hn : contentsAt k i n earlier = some x) :
    (b.registry.framesAt k).read i = (b₁.registry.framesAt k).read i ∨
      ∃ n' ≥ n, contentsAt k i n' (later ++ earlier) =
        some ((b.registry.framesAt k).read i) := by
  induction later generalizing b with
  | nil =>
    obtain rfl := h.end_unique h₁
    exact .inl rfl
  | cons m later ih =>
    obtain ⟨hcbefore, hlbefore⟩ := h.init_lasts hc hl
    have hnotbefore : ∀ m' ∈ later ++ earlier, m'.action = .commit →
        ¬m'.before.registry.SetsAside k i := fun m' hm' => hnot m' (List.mem_cons_of_mem _ hm')
    have hbefore : Run (.opened config supply) (later ++ earlier) m.before := h.init
    have hold := contentsAt_append hn later
    have hle := le_commits_of_contentsAt hold
    obtain ⟨z, hz⟩ := Option.isSome_iff_exists.mp (contentsAt_of_le hold hle (Nat.le_refl _))
    obtain rfl : b = (m.before.step m.action).2 := h.end_eq
    rcases (hbefore.settles hcbefore hlbefore hnotbefore).read_step
      hbefore.isWired hbefore.sizes
      (hc m List.mem_cons_self) (hbefore.wellFormed hcbefore hlbefore) hl hz with hsame | hnew
    · rw [hsame]
      rcases ih hbefore hcbefore hlbefore hnotbefore with hleft | ⟨n', hn', hread⟩
      · exact .inl hleft
      · exact .inr ⟨n', hn', contentsAt_append hread [m]⟩
    · rw [hnew]
      exact .inr ⟨_, hle, contentsAt_append hz [m]⟩

/-- A consumer that has read an instance as of some commit reads it as of that or a later commit as
long as it has it, if no commit is made while the buffer of the instance is set aside. -/
theorem reads_no_older (h : Run (.opened config supply) (later ++ earlier) b)
    (hc : ∀ m ∈ later ++ earlier, m.action.IsCompiled) (hl : b.registry.supply.Lasts)
    (h₁ : Run (.opened config supply) earlier b₁)
    (hconn₁ : b₁.connection? k = some c₁) (hconn : b.connection? k = some c)
    {found : LocalResource} (hfound : c₁.replica.resource? id = some found)
    (hcargo : found.cargo = .fields schema i)
    (hnot : ∀ m ∈ later ++ earlier, m.action = .commit → ¬m.before.registry.SetsAside k i)
    (hread₁ : c₁.view.bytes? id = some x) (hn : contentsAt k i n earlier = some x)
    (hread : c.view.bytes? id = some y) :
    ∃ n' ≥ n, contentsAt k i n' (later ++ earlier) = some y := by
  have hc₁ : ∀ m ∈ earlier, m.action.IsCompiled := fun m hm => hc m (List.mem_append_right _ hm)
  have hl₁ : b₁.registry.supply.Lasts := by
    obtain ⟨b₂, h₂, hissued⟩ := h.beginning hc
    obtain rfl := h₂.end_unique h₁
    exact hl.mono hissued
  obtain ⟨e, tick, he, rfl, hshows⟩ := ((h₁.heralds hc₁ hl₁ k).trusts c₁ hconn₁).had id found hfound
  have hcargo' : e.cargo = .fields schema i := hshows.cargo.symm.trans hcargo
  have hvalue : c.wire.frames.read i = y := by
    obtain ⟨found', hfound', hbytes⟩ := Option.bind_eq_some_iff.mp hread
    unfold Connection.bytesOf? at hbytes
    rw [h.cargo_of_queued hc hl hconn (queued_subset_append k later earlier he) hfound',
      hcargo'] at hbytes
    exact Option.some.inj hbytes
  have hvalue₁ : c₁.wire.frames.read i = x := by
    obtain ⟨found', hfound', hbytes⟩ := Option.bind_eq_some_iff.mp hread₁
    obtain rfl : found' = found := Option.some.inj (hfound'.symm.trans hfound)
    unfold Connection.bytesOf? at hbytes
    rw [hcargo] at hbytes
    exact Option.some.inj hbytes
  have hframes := (Broadcast.framesAt_of_connection? hconn).2
  have hframes₁ := (Broadcast.framesAt_of_connection? hconn₁).2
  rw [← hvalue, ← hframes]
  rcases h.read_recent hc hl h₁ hnot hn with hsame | hlater
  · rw [hsame, hframes₁, hvalue₁]
    exact ⟨n, Nat.le_refl n, contentsAt_append hn later⟩
  · exact hlater

end Run

namespace Samples

/-- A lamp that is turned up and sent to a consumer, which reads it. -/
def litLamp : List Moment × Broadcast :=
  (Broadcast.opened ⟨.game, 4⟩ ⟨0, .initial⟩).play
    [.connect .render,
      .setTick 1,
      .createInstance ⟨0, lamp⟩ [] {},
      .flush,
      .update 0 1,
      .setProp 1 "level" (.word 7),
      .commit,
      .update 0 1]

/-- The lamp is turned up again and disposed of at a tick that the consumer does not reach. The
disposal is flushed, and commits follow. -/
def removedLamp : List Moment × Broadcast :=
  litLamp.2.play
    [.setProp 1 "level" (.word 9),
      .setTick 10,
      .dispose 1,
      .flush,
      .commit,
      .update 0 1,
      .commit,
      .update 0 9]

/-- The lamp is disposed of at a tick that the consumer does not reach, and a commit is made before
the disposal is flushed. -/
def droppedLamp : List Moment × Broadcast :=
  litLamp.2.play [.setTick 10, .dispose 1, .commit, .update 0 1]

theorem isCompiled_litLamp : ∀ m ∈ litLamp.1, m.action.IsCompiled :=
  Broadcast.isCompiled_play _ (by simp [Action.IsCompiled, isCompiled_lamp])

theorem isCompiled_removedLamp : ∀ m ∈ removedLamp.1 ++ litLamp.1, m.action.IsCompiled := by
  intro m hm
  rcases List.mem_append.mp hm with hm | hm
  · exact Broadcast.isCompiled_play litLamp.2 (by simp [Action.IsCompiled]) m hm
  · exact isCompiled_litLamp m hm

theorem isCompiled_droppedLamp : ∀ m ∈ droppedLamp.1 ++ litLamp.1, m.action.IsCompiled := by
  intro m hm
  rcases List.mem_append.mp hm with hm | hm
  · exact Broadcast.isCompiled_play litLamp.2 (by simp [Action.IsCompiled]) m hm
  · exact isCompiled_litLamp m hm

/-- A consumer that has read the lamp as of the first commit reads its final bytes until the tick of
the disposal. -/
theorem reads_no_older_removedLamp :
    removedLamp.2.registry.supply.Lasts ∧
    (∀ m ∈ removedLamp.1 ++ litLamp.1, m.action = .commit → ¬m.before.registry.SetsAside 0 1) ∧
    ∃ c₁ c, litLamp.2.connection? 0 = some c₁ ∧ removedLamp.2.connection? 0 = some c ∧
      c₁.view.bytes? 1 = some [7, 0, 0, 0] ∧
      contentsAt 0 1 1 litLamp.1 = some [7, 0, 0, 0] ∧ c.view.bytes? 1 = some [9, 0, 0, 0] ∧
      ∃ n ≥ 1, contentsAt 0 1 n (removedLamp.1 ++ litLamp.1) = some [9, 0, 0, 0] := by
  have hlasts : removedLamp.2.registry.supply.Lasts := by decide +kernel
  have hnot : ∀ m ∈ removedLamp.1 ++ litLamp.1, m.action = .commit →
      ¬m.before.registry.SetsAside 0 1 := by decide +kernel
  have hread₁ : (litLamp.2.connection? 0).map (fun c => (c.view.bytes? 1,
      (c.replica.resource? 1).map LocalResource.cargo)) =
        some (some [7, 0, 0, 0], some (.fields ⟨0, lamp⟩ 1)) := by decide +kernel
  have hread : (removedLamp.2.connection? 0).map (fun c => c.view.bytes? 1) =
      some (some [9, 0, 0, 0]) := by decide +kernel
  have hn : contentsAt 0 1 1 litLamp.1 = some [7, 0, 0, 0] := by decide +kernel
  obtain ⟨c₁, hconn₁, hboth⟩ := Option.map_eq_some_iff.mp hread₁
  obtain ⟨hbytes₁, hcargo⟩ := Prod.mk.inj hboth
  obtain ⟨found, hfound, hcargo⟩ := Option.map_eq_some_iff.mp hcargo
  obtain ⟨c, hconn, hbytes⟩ := Option.map_eq_some_iff.mp hread
  have hrun₁ : Run (.opened ⟨.game, 4⟩ ⟨0, .initial⟩) litLamp.1 litLamp.2 := .play _ _
  have hmore : Run litLamp.2 removedLamp.1 removedLamp.2 := .play _ _
  exact ⟨hlasts, hnot, c₁, c, hconn₁, hconn, hbytes₁, hn, hbytes,
    Run.reads_no_older (hrun₁.append hmore) isCompiled_removedLamp hlasts hrun₁ hconn₁ hconn hfound hcargo hnot
      hbytes₁ hn hbytes⟩

/-- A commit between the removal of the lamp and the next flush takes the consumer back to what was
there before the first commit, although it has not reached the tick of the disposal. -/
theorem reads_older_droppedLamp :
    Run (.opened ⟨.game, 4⟩ ⟨0, .initial⟩) litLamp.1 litLamp.2 ∧
    Run litLamp.2 droppedLamp.1 droppedLamp.2 ∧
    (∀ m ∈ droppedLamp.1 ++ litLamp.1, m.action.IsCompiled) ∧
    droppedLamp.2.registry.supply.Lasts ∧
    (litLamp.2.connection? 0).map (fun c => c.view.bytes? 1) = some (some [7, 0, 0, 0]) ∧
    contentsAt 0 1 1 litLamp.1 = some [7, 0, 0, 0] ∧
    (droppedLamp.2.connection? 0).map (fun c => c.view.bytes? 1) = some (some [0, 0, 0, 0]) ∧
    ∀ n, contentsAt 0 1 n (droppedLamp.1 ++ litLamp.1) ≠ some [0, 0, 0, 0] := by
  refine ⟨.play _ _, .play _ _, isCompiled_droppedLamp, by decide +kernel, by decide +kernel,
    by decide +kernel, by decide +kernel, fun n hn => ?_⟩
  have hcommits : commits (droppedLamp.1 ++ litLamp.1) = 2 := by decide +kernel
  have hle := le_commits_of_contentsAt hn
  rw [hcommits] at hle
  have hall : ∀ n ≤ 2, contentsAt 0 1 n (droppedLamp.1 ++ litLamp.1) ≠ some [0, 0, 0, 0] := by
    decide +kernel
  exact hall n hle hn

end Samples

end Framecast
