import Mathlib.Logic.Function.Basic
import Framecast.Proofs.Ends
import Framecast.Proofs.Feed.Relay

/-!
# Flushes and updates in steps

The producer and its consumers run beside one another. While the producer puts its
outboxes on the wires, one thing after the other, a consumer may be anywhere in an
update: it swaps its reader, takes the records that are due, receives the envelopes,
and applies the records one by one. A weave is a broadcast of which the parts may be
in the middle of such a flush or update, and a move is one of these steps. Moves can
be made in any order; one that is not possible at the moment changes nothing.

A flush or an update that nobody interrupts is the one that is done in one go.
-/

namespace Framecast

/-- Where a consumer is in an update. -/
inductive Stage where
  /-- No update is under way. -/
  | idle
  /-- The latest frame was picked up. -/
  | swapped (tick : Tick)
  /-- The records that are due were taken. -/
  | taken (due : List Record)
  /-- The envelopes were received, and some records are left to apply. -/
  | applying (due : List Record)
  /-- Applying a record failed, and the consumer does not go on. -/
  | failed
  deriving DecidableEq, Repr

/-- How far a flush is. The links before the one at the position are done. -/
structure Flushing where
  /-- The position of the link that the flush is at. -/
  position : Nat
  /-- What was taken from the outbox of that link and is still to be put on its wire. -/
  left : List Delivery

/-- A broadcast in the middle of things. -/
structure Weave where
  /-- What has been done so far. -/
  broadcast : Broadcast
  /-- The flush that is under way. -/
  flushing? : Option Flushing
  /-- Where each consumer is in its update. -/
  stages : Nat → Stage

/-- One step of a consumer. -/
inductive Turn where
  /-- An update begins: the latest frame is picked up. -/
  | swap (tick : Tick)
  /-- The records that are due are taken. -/
  | take
  /-- The envelopes are received. -/
  | receive
  /-- The next record is applied, or the update ends. -/
  | apply
  /-- A loader is installed. -/
  | register (type : String) (loader : Loader)

/-- One step of the producer or of a consumer. -/
inductive Move where
  /-- The producer does something else than flushing. -/
  | act (action : Action)
  /-- A flush begins: answers are taken in and buffers retired. -/
  | flush
  /-- The flush goes on to the next link or puts the next thing on a wire. -/
  | send
  /-- A consumer does its next step. -/
  | turn (k : Nat) (turn : Turn)
  /-- A consumer goes away. -/
  | hangUp (k : Nat)

/-- Whether an action is one of the producer that it does in one go. -/
def Action.isWhole : Action → Bool
  | .flush | .registerLoader _ _ _ | .update _ _ | .hangUp _ => false
  | _ => true

/-- Whether a move only creates instances of compiled schemas. -/
def Move.IsCompiled : Move → Prop
  | .act action => action.IsCompiled
  | _ => True

/-- Whether consumer `k` does not go away in a move. -/
def Move.Stays (k : Nat) : Move → Prop
  | .hangUp j => j ≠ k
  | _ => True

instance Move.decidableStays (k : Nat) (move : Move) : Decidable (move.Stays k) := by
  unfold Move.Stays
  split <;> infer_instance

/-- What a turn makes of a consumer that is at some stage, if it is possible there. -/
def Turn.next? : Turn → Stage → Connection → Option (Stage × Connection)
  | .swap tick, .idle, c => some (.swapped tick, c.pickUp)
  | .take, .swapped tick, c => some (.taken (c.takeDue tick).1, (c.takeDue tick).2)
  | .receive, .taken due, c => some (.applying due, c.receiveEnvelopes)
  | .apply, .applying [], c => some (.idle, c)
  | .apply, .applying (record :: rest), c =>
    match (Connection.applyRecord record).run c with
    | .ok _ after => some (.applying rest, after)
    | .error _ after => some (.failed, after)
  | .register type loader, .idle, c => some (.idle, c.mapReplica (·.registerLoader type loader))
  | _, _, _ => none

/-- A flush sends after the acknowledgements and the set-aside buffers are dealt with. -/
theorem Registry.run_flush (r : Registry) :
    flush.run r =
      match retireDisposed.run r.processAcks with
      | .ok _ retired =>
        match (flushLinks retired.links).2 with
        | some e => .error e { retired with links := (flushLinks retired.links).1 }
        | none => .ok ⟨⟩ { retired with links := (flushLinks retired.links).1 }
      | .error e retired => .error e retired := by
  unfold flush
  rw [EStateM.run_bind]
  show (retireDisposed >>= _).run r.processAcks = _
  rw [EStateM.run_bind]
  cases retireDisposed.run r.processAcks with
  | error e retired => rfl
  | ok _ retired =>
    dsimp only
    rw [EStateM.run_bind, EStateM.run_get]
    dsimp only
    generalize flushLinks retired.links = sent
    obtain ⟨links, failure?⟩ := sent
    cases failure? <;> rfl

namespace Weave

/-- A producer without resources and consumers. -/
def opened (config : Config) (supply : Supply) : Weave := ⟨.opened config supply, none, fun _ => .idle⟩

/-- The weave with the links of the producer and the progress of its flush replaced. -/
def withLinks (w : Weave) (links : List Link) (flushing? : Option Flushing) : Weave :=
  { w with
    broadcast := { w.broadcast with registry := { w.broadcast.registry with links } }
    flushing? }

/-- The weave with a consumer, its wire and its stage replaced. -/
def withStage (w : Weave) (k : Nat) (stage : Stage) (c : Connection) : Weave :=
  { w with
    broadcast := w.broadcast.setConnection k c
    stages := Function.update w.stages k stage }

/-- A flush begins. If retiring the buffers fails, it ends at once. -/
def beginFlush (w : Weave) : Weave :=
  match Registry.retireDisposed.run w.broadcast.registry.processAcks with
  | .ok _ registry =>
    { w with broadcast := { w.broadcast with registry }, flushing? := some ⟨0, []⟩ }
  | .error _ registry => { w with broadcast := { w.broadcast with registry } }

/-- The flush goes on at a link: it puts the next thing on the wire, or takes the outbox if the ring
has room for it, or goes on to the next link. It ends where something fails. -/
def sendAt (w : Weave) (link : Link) (f : Flushing) : Weave :=
  match f.left with
  | d :: rest =>
    match link.wire.deliver link.thread d with
    | .ok wire =>
      w.withLinks (w.broadcast.registry.links.set f.position { link with wire })
        (some ⟨f.position, rest⟩)
    | .error _ => w.withLinks w.broadcast.registry.links none
  | [] =>
    if link.outbox.isEmpty then
      w.withLinks w.broadcast.registry.links (some ⟨f.position + 1, []⟩)
    else if link.wire.ring.free < link.outbox.size then
      w.withLinks w.broadcast.registry.links none
    else
      w.withLinks (w.broadcast.registry.links.set f.position { link with outbox := #[] })
        (some ⟨f.position, link.outbox.toList.flatMap Outgoing.deliveries⟩)

/-- The flush goes on, and ends behind the last link. -/
def sendNext (w : Weave) (f : Flushing) : Weave :=
  match w.broadcast.registry.links[f.position]? with
  | some link => w.sendAt link f
  | none => w.withLinks w.broadcast.registry.links none

/-- A consumer does its next step, if it is there and the step is possible. -/
def takeTurn (w : Weave) (k : Nat) (turn : Turn) : Weave :=
  match w.broadcast.connection? k with
  | some c =>
    match turn.next? (w.stages k) c with
    | some (stage, after) => w.withStage k stage after
    | none => w
  | none => w

/-- One move. -/
def step (w : Weave) : Move → Weave
  | .act action =>
    if w.flushing?.isNone && action.isWhole then
      { w with broadcast := (w.broadcast.step action).2 }
    else w
  | .flush => if w.flushing?.isNone then w.beginFlush else w
  | .send =>
    match w.flushing? with
    | some f => w.sendNext f
    | none => w
  | .turn k turn => w.takeTurn k turn
  | .hangUp k => { w with broadcast := w.broadcast.hangUp k }

/-- Several moves, one after another. -/
def play (w : Weave) (moves : List Move) : Weave := moves.foldl step w

theorem play_append (w : Weave) (first second : List Move) :
    w.play (first ++ second) = (w.play first).play second := List.foldl_append

section Uninterrupted

variable {w : Weave} {k : Nat} {c after : Connection} {stage stage' : Stage} {tick : Tick}

/-- A consumer is put in the place of itself. -/
theorem withStage_withStage (w : Weave) (k : Nat) (stage stage' : Stage) (c c' : Connection) :
    (w.withStage k stage c).withStage k stage' c' = w.withStage k stage' c' := by
  unfold withStage Broadcast.setConnection Registry.modifyLink
  simp only [Function.update_idem, Array.setIfInBounds_setIfInBounds, List.modify_modify_eq]
  rfl

/-- A consumer that is there makes its turn. -/
theorem step_turn {turn : Turn} (hconn : (w.broadcast.connection? k).isSome)
    (hnext : turn.next? stage c = some (stage', after)) :
    (w.withStage k stage c).step (.turn k turn) = w.withStage k stage' after := by
  obtain ⟨c₀, hconn⟩ := Option.isSome_iff_exists.mp hconn
  have hfound : (w.withStage k stage c).broadcast.connection? k = some c := by
    show (w.broadcast.setConnection k c).connection? k = _
    rw [Broadcast.connection?_setConnection, if_pos rfl, hconn]
    rfl
  have hstage : (w.withStage k stage c).stages k = stage := Function.update_self ..
  show (w.withStage k stage c).takeTurn k turn = _
  unfold takeTurn
  rw [hfound]
  dsimp only
  rw [hstage, hnext]
  exact withStage_withStage ..

/-- Nothing happens any more on a consumer that has failed. -/
theorem step_turn_of_failed {turn : Turn} (h : w.stages k = .failed) : w.step (.turn k turn) = w := by
  show w.takeTurn k turn = w
  unfold takeTurn
  rw [h]
  cases w.broadcast.connection? k with
  | none => rfl
  | some c => cases turn <;> rfl

/-- Applying records one by one ends as applying them in one go does. -/
theorem play_apply (hconn : (w.broadcast.connection? k).isSome) (records : List Record) (c : Connection) :
    (w.withStage k (.applying records) c).play
        (List.replicate (records.length + 1) (.turn k .apply)) =
      match (Connection.applyAll records).run c with
      | .ok _ after => w.withStage k .idle after
      | .error _ after => w.withStage k .failed after := by
  induction records generalizing c with
  | nil => exact step_turn hconn rfl
  | cons record rest ih =>
    have hall : (Connection.applyAll (record :: rest)).run c =
        match (Connection.applyRecord record).run c with
        | .ok _ after => (Connection.applyAll rest).run after
        | .error e after => .error e after := by
      unfold Connection.applyAll
      rw [List.forM_eq_forM, List.forM_cons, EStateM.run_bind]
      cases (Connection.applyRecord record).run c <;> rfl
    rw [hall, List.length_cons, List.replicate_succ]
    show ((w.withStage k (.applying (record :: rest)) c).step (.turn k .apply)).play _ = _
    cases hrun : (Connection.applyRecord record).run c with
    | ok _ after =>
      have hstep : (w.withStage k (.applying (record :: rest)) c).step (.turn k .apply) =
          w.withStage k (.applying rest) after :=
        step_turn hconn (by simp only [Turn.next?, hrun])
      rw [hstep]
      exact ih after
    | error e after =>
      have hstep : (w.withStage k (.applying (record :: rest)) c).step (.turn k .apply) =
          w.withStage k .failed after :=
        step_turn hconn (by simp only [Turn.next?, hrun])
      have hstays (n : Nat) : (w.withStage k .failed after).play
          (List.replicate n (.turn k .apply)) = w.withStage k .failed after := by
        induction n with
        | zero => rfl
        | succ n ihn =>
          rw [List.replicate_succ]
          show ((w.withStage k .failed after).step _).play _ = _
          rw [step_turn_of_failed (Function.update_self ..)]
          exact ihn
      rw [hstep]
      exact hstays _

/-- An update that nobody interrupts is the update that is done in one go. -/
theorem play_update (hidle : w.stages k = .idle) (hconn : w.broadcast.connection? k = some c)
    (tick : Tick) :
    (w.play ([.turn k (.swap tick), .turn k .take, .turn k .receive] ++
      List.replicate ((c.pickUp.takeDue tick).1.length + 1) (.turn k .apply))).broadcast =
        (w.broadcast.step (.update k tick)).2 := by
  have hthere : (w.broadcast.connection? k).isSome := by rw [hconn]; rfl
  have hself : w.step (.turn k (.swap tick)) = w.withStage k (.swapped tick) c.pickUp := by
    show w.takeTurn k (.swap tick) = _
    unfold takeTurn
    rw [hconn, hidle]
    rfl
  have hbegun : w.play [.turn k (.swap tick), .turn k .take, .turn k .receive] =
      w.withStage k (.applying (c.pickUp.takeDue tick).1)
        (c.pickUp.takeDue tick).2.receiveEnvelopes := by
    show ((w.step (.turn k (.swap tick))).step (.turn k .take)).step (.turn k .receive) = _
    rw [hself, step_turn hthere rfl]
    exact step_turn hthere rfl
  have hupdate : (Connection.update tick).run c =
      (Connection.applyAll (c.pickUp.takeDue tick).1).run
        (c.pickUp.takeDue tick).2.receiveEnvelopes := rfl
  rw [play_append, hbegun, play_apply hthere]
  show _ = (w.broadcast.onConnection k (Connection.update tick)).2
  unfold Broadcast.onConnection
  rw [hconn]
  dsimp only
  rw [hupdate]
  cases (Connection.applyAll (c.pickUp.takeDue tick).1).run
      (c.pickUp.takeDue tick).2.receiveEnvelopes <;> rfl

theorem withLinks_withLinks (w : Weave) (links links' : List Link) (f f' : Option Flushing) :
    (w.withLinks links f).withLinks links' f' = w.withLinks links' f' := rfl

theorem step_send (w : Weave) (links : List Link) (f : Flushing) :
    (w.withLinks links (some f)).step .send = (w.withLinks links (some f)).sendNext f := rfl

/-- Nothing happens any more after a flush has ended. -/
theorem play_send_of_ended (w : Weave) (links : List Link) (n : Nat) :
    (w.withLinks links none).play (List.replicate n .send) = w.withLinks links none := by
  induction n with
  | zero => rfl
  | succ n ih => exact ih

/-- The flush is at the link that it is at. -/
theorem sendNext_at (w : Weave) (front back : List Link) (link : Link) (left : List Delivery) :
    (w.withLinks (front ++ link :: back) (some ⟨front.length, left⟩)).sendNext
        ⟨front.length, left⟩ =
      (w.withLinks (front ++ link :: back) (some ⟨front.length, left⟩)).sendAt link
        ⟨front.length, left⟩ := by
  unfold sendNext
  have hlink : (w.withLinks (front ++ link :: back)
      (some ⟨front.length, left⟩)).broadcast.registry.links[front.length]? = some link := by
    show (front ++ link :: back)[front.length]? = some link
    simp
  rw [hlink]

/-- Putting things on a wire one by one ends as putting them on it in one go does. -/
theorem play_deliver (w : Weave) (front back : List Link) (link : Link) (left : List Delivery) :
    (w.withLinks (front ++ link :: back) (some ⟨front.length, left⟩)).play
        (List.replicate left.length .send) =
      w.withLinks (front ++ { link with
          wire := (link.wire.deliverAll link.thread left).1 } :: back)
        (if (link.wire.deliverAll link.thread left).2.isNone then some ⟨front.length, []⟩
          else none) := by
  induction left generalizing link with
  | nil => rfl
  | cons d rest ih =>
    rw [List.length_cons, List.replicate_succ]
    show ((w.withLinks _ _).step .send).play _ = _
    rw [step_send, sendNext_at]
    unfold sendAt Wire.deliverAll
    dsimp only
    cases hdeliver : link.wire.deliver link.thread d with
    | ok wire =>
      dsimp only
      have hset (f : Flushing) : (w.withLinks (front ++ link :: back)
          (some f)).broadcast.registry.links.set front.length { link with wire } =
            front ++ { link with wire } :: back := by
        show (front ++ link :: back).set front.length { link with wire } = _
        simp
      rw [hset, withLinks_withLinks]
      exact ih { link with wire }
    | error e =>
      exact play_send_of_ended w _ _

/-- The flush takes the outbox of the link that it is at. -/
theorem sendNext_take (w : Weave) (front back : List Link) {link : Link}
    (hsome : link.outbox.isEmpty = false) (hroom : ¬link.wire.ring.free < link.outbox.size) :
    (w.withLinks (front ++ link :: back) (some ⟨front.length, []⟩)).sendNext ⟨front.length, []⟩ =
      w.withLinks (front ++ { link with outbox := #[] } :: back)
        (some ⟨front.length, link.outbox.toList.flatMap Outgoing.deliveries⟩) := by
  rw [sendNext_at]
  unfold sendAt
  rw [hsome]
  dsimp only
  rw [if_neg Bool.false_ne_true, if_neg hroom]
  have hset : (w.withLinks (front ++ link :: back)
      (some ⟨front.length, []⟩)).broadcast.registry.links.set front.length
        { link with outbox := #[] } = front ++ { link with outbox := #[] } :: back := by
    show (front ++ link :: back).set front.length { link with outbox := #[] } = _
    simp
  rw [hset, withLinks_withLinks]

/-- The flush is done with a link of which the outbox is empty. -/
theorem sendNext_pass (w : Weave) (front back : List Link) {link : Link}
    (hnone : link.outbox.isEmpty = true) :
    (w.withLinks (front ++ link :: back) (some ⟨front.length, []⟩)).sendNext ⟨front.length, []⟩ =
      w.withLinks (front ++ link :: back) (some ⟨(front ++ [link]).length, []⟩) := by
  rw [sendNext_at]
  unfold sendAt
  rw [hnone, List.length_append]
  rfl

/-- Sending from link to link ends as sending the outboxes in one go does. -/
theorem play_sends (w : Weave) (front links : List Link) :
    ∃ n, (w.withLinks (front ++ links) (some ⟨front.length, []⟩)).play (List.replicate n .send) =
      w.withLinks (front ++ (Registry.flushLinks links).1) none := by
  induction links generalizing front with
  | nil =>
    refine ⟨1, ?_⟩
    show (w.withLinks (front ++ []) _).sendNext _ = _
    unfold sendNext
    have hlink : (w.withLinks (front ++ []) (some ⟨front.length, []⟩)).broadcast.registry.links[
        front.length]? = none := by
      show (front ++ [])[front.length]? = none
      simp
    rw [hlink]
    rfl
  | cons link rest ih =>
    have hpast (link' : Link) : ∃ n, (w.withLinks (front ++ link' :: rest)
        (some ⟨(front ++ [link']).length, []⟩)).play (List.replicate n .send) =
          w.withLinks (front ++ link' :: (Registry.flushLinks rest).1) none := by
      have hrest := ih (front ++ [link'])
      simpa only [List.append_assoc, List.singleton_append] using hrest
    unfold Registry.flushLinks
    by_cases hempty : link.outbox.isEmpty = true
    · obtain ⟨n, hn⟩ := hpast link
      refine ⟨n + 1, ?_⟩
      rw [if_pos hempty, List.replicate_succ]
      show ((w.withLinks _ _).step .send).play _ = _
      rw [step_send, sendNext_pass w front rest hempty]
      exact hn
    · rw [if_neg hempty]
      have hsome : link.outbox.isEmpty = false := Bool.eq_false_iff.mpr hempty
      unfold Registry.flushLink
      by_cases hroom : link.wire.ring.free < link.outbox.size
      · refine ⟨1, ?_⟩
        rw [if_pos hroom]
        show (w.withLinks _ _).sendNext _ = _
        rw [sendNext_at]
        unfold sendAt
        dsimp only
        rw [hsome, if_neg Bool.false_ne_true, if_pos hroom]
        rfl
      · rw [if_neg hroom]
        have htaken := sendNext_take w front rest hsome hroom
        have hsent := play_deliver w front rest { link with outbox := #[] }
          (link.outbox.toList.flatMap Outgoing.deliveries)
        dsimp only at hsent
        cases hall : link.wire.deliverAll link.thread
            (link.outbox.toList.flatMap Outgoing.deliveries) with
        | mk wire failure? =>
          rw [hall] at hsent
          dsimp only at hsent ⊢
          cases failure? with
          | some e =>
            refine ⟨(link.outbox.toList.flatMap Outgoing.deliveries).length + 1, ?_⟩
            rw [List.replicate_succ]
            show ((w.withLinks _ _).step .send).play _ = _
            rw [step_send, htaken, hsent]
            rfl
          | none =>
            obtain ⟨n, hn⟩ := hpast { link with outbox := #[], wire }
            refine ⟨(link.outbox.toList.flatMap Outgoing.deliveries).length + (n + 1) + 1, ?_⟩
            rw [List.replicate_succ, List.replicate_add]
            show ((w.withLinks _ _).step .send).play _ = _
            rw [step_send, htaken, play_append, hsent, List.replicate_succ]
            show ((w.withLinks _ _).step .send).play _ = _
            rw [Option.isNone_none, if_pos rfl, step_send, sendNext_pass w front rest rfl]
            exact hn

/-- A flush that nobody interrupts is the flush that is done in one go. -/
theorem play_flush (w : Weave) (hnone : w.flushing? = none) :
    ∃ n, w.play (.flush :: List.replicate n .send) =
      { w with broadcast := (w.broadcast.step .flush).2 } := by
  have hbegun : w.step .flush = w.beginFlush := by
    show (if w.flushing?.isNone then w.beginFlush else w) = _
    rw [hnone]
    rfl
  have hdone : (w.broadcast.step .flush).2 =
      (w.broadcast.onRegistry Registry.flush fun _ => .done).2 := rfl
  show ∃ n, (w.step .flush).play (List.replicate n .send) = _
  rw [hbegun, hdone]
  unfold beginFlush Broadcast.onRegistry
  rw [Registry.run_flush]
  cases hrun : Registry.retireDisposed.run w.broadcast.registry.processAcks with
  | ok _ retired =>
    obtain ⟨n, hn⟩ := play_sends
      { w with broadcast := { w.broadcast with registry := retired } } [] retired.links
    refine ⟨n, hn.trans ?_⟩
    unfold withLinks
    dsimp only
    rw [List.nil_append, hnone]
    cases (Registry.flushLinks retired.links).2 <;> rfl
  | error e retired => exact ⟨0, by rw [hnone]; rfl⟩

end Uninterrupted

end Weave

end Framecast
