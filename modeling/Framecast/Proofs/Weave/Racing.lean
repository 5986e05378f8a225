import Framecast.Proofs.Weave.Progress

/-!
# No creation is lost to a race

However the steps of flushes and updates interleave, every link keeps a progress:
what the consumer of the link has, what is on the wire and what the flush still is to
send are one log, cut at different places. An envelope that belongs to a record which
an update takes was sent before the record, and so before the update receives its
envelopes. So as long as no update fails, every creation that is applied finds its
envelope, every disposal finds its resource, and nothing is loaded twice.
-/

namespace Framecast

open Outgoing (created IsLog)

/-- The resource that applying a record loads: a creation loads what it finds the envelope of. -/
def Connection.loads (c : Connection) (record : Record) : List ResourceId :=
  match record.command with
  | .create => if c.replica.pending.contains record.id then [record.id] else []
  | .dispose => []

/-- What a turn loads. -/
def Turn.loads : Turn → Stage → Connection → List ResourceId
  | .apply, .applying (record :: _), c => c.loads record
  | _, _, _ => []

/-- A turn that is not possible loads nothing. -/
theorem Turn.loads_of_next?_eq_none {turn : Turn} {stage : Stage} {c : Connection}
    (h : turn.next? stage c = none) : turn.loads stage c = [] := by
  unfold Turn.next? at h
  unfold Turn.loads
  split
  · dsimp only at h
    split at h <;> cases h
  · rfl

namespace Connection.Stands

variable {c after : Connection} {p : Progress} {stage stage' : Stage} {turn : Turn}

/-- Applying the next record that is due loads what its intent creates. -/
theorem loads_of_due {o : Outgoing} {due : List Outgoing} (h : c.Stands p) (hdue : p.due = o :: due)
    (hknown : p.due <+: p.known) (hlog : IsLog p.taken) : c.loads o.record = created [o] := by
  have hfound := (h.found hdue hknown hlog).1
  unfold Connection.loads
  cases o with
  | create e tick =>
    obtain ⟨e', he', -⟩ := hfound rfl
    have hcontains : c.replica.pending.contains e.id = true := by
      rw [Std.TreeMap.contains_eq_isSome_getElem?]
      exact Option.isSome_iff_exists.mpr ⟨e', he'⟩
    exact if_pos hcontains
  | dispose id tick => rfl

/-- Applying the next record that is due moves the cut behind it. -/
theorem applyDue {o : Outgoing} {due : List Outgoing} (h : c.Stands p) (hdue : p.due = o :: due)
    (hknown : p.due <+: p.known) (hsplit : p.IsSplit) (hlog : IsLog p.taken)
    (hrun : (Connection.applyRecord o.record).run c = .ok () after) :
    ∃ p', after.Stands p' ∧ p'.due = due ∧ p'.due <+: p'.known ∧ p'.IsSplit ∧ p'.left = p.left ∧
      p'.taken = p.taken ∧ p'.applied = p.applied ++ [o] := by
  obtain ⟨later, hlater⟩ := hknown
  have hexpected : p.known = o :: (due ++ later) := by rw [← hlater, hdue, List.cons_append]
  have hbegun : p.begun = o :: (due ++ p.parked ++ p.queued ++ p.halfway) := by
    unfold Progress.begun
    rw [hdue]
    rfl
  have hcut : p.known ++ p.carried = p.begun := hsplit
  rw [hexpected, hbegun, List.cons_append] at hcut
  refine ⟨_, (h.applyRecord hsplit hlog hexpected due).of_ok hrun, rfl, List.prefix_append _ _,
    (List.cons.inj hcut).2, rfl, ?_, rfl⟩
  unfold Progress.taken
  rw [hbegun]
  simp [Progress.begun]

/-- A turn of the consumer moves the cuts on its side, and loads what it applies. -/
theorem takeTurn (h : c.Stands p) (hstage : stage.Holds p) (hsplit : p.IsSplit) (hlog : IsLog p.taken)
    (hnext : turn.next? stage c = some (stage', after)) (hgood : stage' ≠ .failed) :
    ∃ p', after.Stands p' ∧ stage'.Holds p' ∧ p'.IsSplit ∧ p'.left = p.left ∧
      p'.taken = p.taken ∧ created p'.applied = created p.applied ++ turn.loads stage c := by
  have hnone : created p.applied = created p.applied ++ [] := (List.append_nil _).symm
  unfold Turn.next? at hnext
  split at hnext
  case h_1 =>
    cases hnext
    have hafter : c.pickUp.Stands p := p.ignoresFrames_reaches c.replica c.wire _ rfl h
    exact ⟨p, hafter, hstage, hsplit, rfl, rfl, hnone⟩
  case h_2 c tick =>
    cases hnext
    obtain ⟨htaken, hafter⟩ := h.takeDue tick
    have hdue : p.due = [] := hstage
    have hbegun : Progress.begun { p with
        due := (p.parked ++ p.queued).takeWhile (Feed.due tick)
        parked := (p.parked ++ p.queued).dropWhile (Feed.due tick)
        queued := [] } = p.begun := by
      unfold Progress.begun
      rw [hdue]
      simp
    refine ⟨_, hafter, htaken, ?_, rfl, ?_, hnone⟩
    · exact Eq.trans hsplit hbegun.symm
    · unfold Progress.taken
      rw [hbegun]
  case h_3 =>
    cases hnext
    refine ⟨_, h.receiveEnvelopes hsplit hlog, ⟨hstage, ?_⟩, ?_, rfl, rfl, hnone⟩
    · simp [Progress.begun, List.append_assoc]
    · exact List.append_nil _
  case h_4 =>
    cases hnext
    have hdue : p.due = [] := List.map_eq_nil_iff.mp hstage.1.symm
    exact ⟨p, h, hdue, hsplit, rfl, rfl, hnone⟩
  case h_5 record rest c =>
    obtain ⟨hrecords, hknown⟩ := hstage
    obtain ⟨o, due, hdue, rfl, rfl⟩ := List.map_eq_cons_iff.mp hrecords.symm
    cases hrun : (Connection.applyRecord o.record).run c with
    | error e after =>
      rw [hrun] at hnext
      cases hnext
      exact absurd rfl hgood
    | ok _ after =>
      rw [hrun] at hnext
      cases hnext
      obtain ⟨p', hafter, rfl, hknown', hsplit', hleft, htaken, happlied⟩ :=
        h.applyDue hdue hknown hsplit hlog hrun
      refine ⟨p', hafter, ⟨rfl, hknown'⟩, hsplit', hleft, htaken, ?_⟩
      rw [happlied, Outgoing.created_append]
      exact congrArg (created p.applied ++ ·) (h.loads_of_due hdue hknown hlog).symm
  case h_6 =>
    cases hnext
    exact ⟨p, ⟨⟨h.mirrors.expects, h.mirrors.reflects.1, h.mirrors.reflects.2⟩, h.parked,
      h.receiving, h.ring, h.room, h.envelopes⟩, hstage, hsplit, rfl, rfl, hnone⟩
  case h_7 => cases hnext

end Connection.Stands

namespace Weave

variable {w : Weave} {k : Nat} {p : Progress} {move : Move}

/-- What the flush still is to put on the wire of a link. -/
def leftFor (w : Weave) (k : Nat) : List Delivery :=
  match w.flushing? with
  | some f => if f.position = k then f.left else []
  | none => []

/-- What consumer `k` loads in a move. -/
def loads (w : Weave) (move : Move) (k : Nat) : List ResourceId :=
  match move with
  | .turn j turn =>
    if j = k then
      match w.broadcast.connection? k with
      | some c => turn.loads (w.stages k) c
      | none => []
    else []
  | _ => []

/-- A link and its consumer are in the middle of things as a progress says. -/
structure Keeps (w : Weave) (k : Nat) (p : Progress) : Prop where
  /-- What was taken from the outbox and what waits in it are the log of the link, and the consumer
  stands as it is to. -/
  serves : w.broadcast.Serves k p.taken p.Reaches
  /-- The envelopes that were sent are those of what is on its way. -/
  split : p.IsSplit
  /-- The consumer holds the records that are due. -/
  stage : (w.stages k).Holds p
  /-- The flush is to send the rest. -/
  left : w.leftFor k = p.left

/-- What a step of the flush at a link may be: it ends, puts the next thing on the wire, goes on to the
next link, or takes the outbox. -/
theorem sendAt_cases (w : Weave) (link : Link) (f : Flushing) :
    (w.sendAt link f = w.withLinks w.broadcast.registry.links none ∧
        (f.left = [] ∨ ∃ d rest e, f.left = d :: rest ∧
          link.wire.deliver link.thread d = .error e)) ∨
      (∃ d rest wire, f.left = d :: rest ∧ link.wire.deliver link.thread d = .ok wire ∧
        w.sendAt link f = w.withLinks
          (w.broadcast.registry.links.set f.position { link with wire }) (some ⟨f.position, rest⟩)) ∨
      (f.left = [] ∧ w.sendAt link f =
        w.withLinks w.broadcast.registry.links (some ⟨f.position + 1, []⟩)) ∨
      (f.left = [] ∧ ¬link.wire.ring.free < link.outbox.toList.length ∧ w.sendAt link f =
        w.withLinks (w.broadcast.registry.links.set f.position { link with outbox := #[] })
          (some ⟨f.position, link.outbox.toList.flatMap Outgoing.deliveries⟩)) := by
  unfold sendAt
  cases hleft : f.left with
  | cons d rest =>
    dsimp only
    cases hdeliver : link.wire.deliver link.thread d with
    | ok wire => exact .inr (.inl ⟨d, rest, wire, rfl, hdeliver, rfl⟩)
    | error e => exact .inl ⟨rfl, .inr ⟨d, rest, e, rfl, hdeliver⟩⟩
  | nil =>
    dsimp only
    split
    · exact .inr (.inr (.inl ⟨rfl, rfl⟩))
    · split
      · exact .inl ⟨rfl, .inl rfl⟩
      · rename_i hroom
        exact .inr (.inr (.inr ⟨rfl, hroom, rfl⟩))

/-- A step of the flush changes links alone. -/
theorem sendNext_eq_withLinks (w : Weave) (f : Flushing) :
    ∃ links flushing?, w.sendNext f = w.withLinks links flushing? := by
  unfold sendNext
  split
  · rename_i link _
    rcases w.sendAt_cases link f with
      ⟨hsend, -⟩ | ⟨_, _, _, -, -, hsend⟩ | ⟨-, hsend⟩ | ⟨-, -, hsend⟩
    all_goals exact ⟨_, _, hsend⟩
  · exact ⟨_, _, rfl⟩

namespace Keeps

theorem opened (config : Config) (supply : Supply) (k : Nat) :
    (Weave.opened config supply).Keeps k .start :=
  ⟨.opened config supply k rfl, rfl, rfl, rfl⟩

/-- The producer does something else than flushing. -/
theorem act (h : w.Keeps k p) {action : Action} (hwhole : action.isWhole = true)
    (hc : action.IsCompiled) (hw : w.broadcast.registry.WellFormed)
    (hl : (w.broadcast.step action).2.registry.supply.Lasts) :
    Keeps { w with broadcast := (w.broadcast.step action).2 } k p := by
  refine ⟨?_, h.split, h.stage, h.left⟩
  cases hinternal : action.isInternal with
  | true => exact h.serves.internal p.ignoresFrames_reaches hinternal hc hw hl
  | false =>
    cases action with
    | connect thread =>
      apply h.serves.connect
      rintro capacity wire hwire (rfl : p = .start)
      have hcarries := Wire.carries_create hwire
      exact ⟨Replica.mirrors_create thread, rfl, hcarries.receiving, hcarries.ring, Nat.zero_le _,
        hcarries.envelopes⟩
    | setTick tick => exact h.serves.of_course p.ignoresFrames_reaches (.of_eq rfl rfl rfl) rfl rfl
    | commit => exact h.serves.commit p.ignoresFrames_reaches
    | flush | registerLoader | update | hangUp => cases hwhole
    | _ => cases hinternal

/-- A flush begins. -/
theorem beginFlush (h : w.Keeps k p) (hnone : w.flushing? = none) : w.beginFlush.Keeps k p := by
  have hleft : p.left = [] := by
    rw [← h.left]
    unfold leftFor
    rw [hnone]
  have hretired (registry : Registry) (flushing? : Option Flushing)
      (hreframed : w.broadcast.registry.processAcks.Reframed registry)
      (hflushing : flushing? = none ∨ flushing? = some ⟨0, []⟩) :
      Keeps { w with broadcast := { w.broadcast with registry }, flushing? } k p := by
    refine ⟨?_, h.split, h.stage, ?_⟩
    · exact h.serves.of_course p.ignoresFrames_reaches hreframed.sameBodies rfl hreframed.course
    · rw [hleft]
      unfold leftFor
      rcases hflushing with rfl | rfl
      · rfl
      · exact ite_self _
  have hends := Registry.reframed_retireDisposed w.broadcast.registry.processAcks
  unfold Weave.beginFlush
  cases hrun : Registry.retireDisposed.run w.broadcast.registry.processAcks with
  | ok _ registry => exact hretired registry _ (hends.of_ok hrun) (.inr rfl)
  | error e registry => exact hretired registry _ (hends.of_error hrun) (.inl hnone)

/-- The flush goes on at the link. -/
theorem sendAt (h : w.Keeps k p) {link : Link} {left : List Delivery}
    (hflushing : w.flushing? = some ⟨k, left⟩) (hlink : w.broadcast.registry.links[k]? = some link) :
    ∃ p', (w.sendAt link ⟨k, left⟩).Keeps k p' ∧ p'.applied = p.applied := by
  have hleft : left = p.left := by
    rw [← h.left]
    unfold leftFor
    rw [hflushing]
    exact (if_pos rfl).symm
  obtain ⟨replica, hreplica⟩ : ∃ replica, w.broadcast.replicas[k]? = some replica :=
    ⟨_, Array.getElem?_eq_getElem (h.serves.sizes ▸ (List.getElem?_eq_some_iff.mp hlink).1)⟩
  have hstands : (⟨replica, link.wire⟩ : Connection).Stands p := by
    have hconsumer := h.serves.consumer
    rwa [Broadcast.connection?_eq_some.mpr ⟨replica, link, hreplica, hlink, rfl⟩] at hconsumer
  have hout := Registry.outboxAt_of_getElem? hlink
  rcases w.sendAt_cases link ⟨k, left⟩ with
    ⟨hsend, hempty | ⟨d, rest, e, hnext, hdeliver⟩⟩ | ⟨d, rest, wire, hnext, hdeliver, hsend⟩ |
      ⟨hempty, hsend⟩ | ⟨hempty, hroom, hsend⟩
  · rw [hsend]
    exact ⟨p, ⟨h.serves, h.split, h.stage, hempty.symm.trans hleft⟩, rfl⟩
  · obtain ⟨wire, _, hdelivered, -⟩ :=
      hstands.deliver h.split (hleft.symm.trans hnext) link.thread
    cases hdeliver.symm.trans hdelivered
  · obtain ⟨wire', p', hdelivered, hafter, hsplit, hrest, htaken, hsame⟩ :=
      hstands.deliver h.split (hleft.symm.trans hnext) link.thread
    cases hdeliver.symm.trans hdelivered
    rw [hsend]
    refine ⟨p', ⟨?_, hsplit, h.stage.congr hsame, (if_pos rfl).trans hrest.symm⟩, hsame.applied⟩
    exact h.serves.setLink hreplica hlink { link with wire } (by rw [htaken]) hafter
  · rw [hsend]
    exact ⟨p, ⟨h.serves, h.split, h.stage, (ite_self _).trans (hempty.symm.trans hleft)⟩, rfl⟩
  · have hnone : p.left = [] := hleft.symm.trans hempty
    obtain ⟨hhalfway, hunsent⟩ := Progress.sent_of_left hnone
    rw [hsend]
    refine ⟨{ p with unsent := link.outbox.toList }, ⟨?_, h.split, h.stage, ?_⟩, rfl⟩
    · apply h.serves.setLink hreplica hlink { link with outbox := #[] } _ (hstands.take hnone hroom)
      unfold Progress.taken
      rw [hunsent]
      simp [Progress.begun]
    · unfold Progress.left
      dsimp only
      rw [hhalfway]
      exact if_pos rfl

/-- The flush goes on at another link. -/
theorem sendAt_of_ne (h : w.Keeps k p) {link : Link} {f : Flushing}
    (hflushing : w.flushing? = some f) (hne : f.position ≠ k) : (w.sendAt link f).Keeps k p := by
  have hleft : p.left = [] := by
    rw [← h.left]
    unfold leftFor
    rw [hflushing]
    exact if_neg hne
  have hset (link' : Link) (left : List Delivery) :
      (w.withLinks (w.broadcast.registry.links.set f.position link')
        (some ⟨f.position, left⟩)).Keeps k p := by
    refine ⟨?_, h.split, h.stage, (if_neg hne).trans hleft.symm⟩
    exact h.serves.beside (.of_eq rfl rfl rfl) rfl (List.length_set ..) (List.getElem?_set_ne hne) rfl
  rcases w.sendAt_cases link f with
    ⟨hsend, -⟩ | ⟨d, rest, wire, -, -, hsend⟩ | ⟨-, hsend⟩ | ⟨-, -, hsend⟩
  · rw [hsend]
    exact ⟨h.serves, h.split, h.stage, hleft.symm⟩
  · rw [hsend]
    exact hset _ _
  · rw [hsend]
    exact ⟨h.serves, h.split, h.stage, (ite_self _).trans hleft.symm⟩
  · rw [hsend]
    exact hset _ _

/-- The flush goes on. -/
theorem sendNext (h : w.Keeps k p) {f : Flushing} (hflushing : w.flushing? = some f) :
    ∃ p', (w.sendNext f).Keeps k p' ∧ p'.applied = p.applied := by
  unfold Weave.sendNext
  obtain ⟨position, left⟩ := f
  by_cases hk : position = k
  · subst hk
    cases hlink : w.broadcast.registry.links[position]? with
    | some link => exact h.sendAt hflushing hlink
    | none =>
      refine ⟨p, ⟨h.serves, h.split, h.stage, ?_⟩, rfl⟩
      have hconsumer := h.serves.consumer
      rw [h.serves.connection?_eq_none.mpr (List.getElem?_eq_none_iff.mp hlink)] at hconsumer
      obtain rfl : p = .start := hconsumer
      rfl
  · cases hlink : w.broadcast.registry.links[position]? with
    | some link => exact ⟨p, h.sendAt_of_ne hflushing hk, rfl⟩
    | none =>
      refine ⟨p, ⟨h.serves, h.split, h.stage, ?_⟩, rfl⟩
      rw [← h.left]
      unfold leftFor
      rw [hflushing]
      exact (if_neg hk).symm

/-- Another consumer does its next step. -/
theorem takeTurn_of_ne (h : w.Keeps k p) {j : Nat} (hjk : j ≠ k) (turn : Turn) :
    (w.takeTurn j turn).Keeps k p := by
  unfold Weave.takeTurn
  split
  · split
    · rename_i stage after _
      have hstage : (w.withStage j stage after).stages k = w.stages k :=
        Function.update_of_ne hjk.symm ..
      exact ⟨h.serves.setConnection_of_ne hjk _, h.split, hstage.symm ▸ h.stage, h.left⟩
    · exact h
  · exact h

/-- The consumer does its next step. -/
theorem takeTurn (h : w.Keeps k p) (turn : Turn)
    (hgood : (w.takeTurn k turn).stages k ≠ .failed) :
    ∃ p', (w.takeTurn k turn).Keeps k p' ∧
      created p'.applied = created p.applied ++ w.loads (.turn k turn) k := by
  have hsame : created p.applied = created p.applied ++ [] := (List.append_nil _).symm
  unfold Weave.takeTurn at hgood ⊢
  unfold Weave.loads
  dsimp only
  rw [if_pos rfl]
  cases hconn : w.broadcast.connection? k with
  | none => exact ⟨p, h, hsame⟩
  | some c =>
    rw [hconn] at hgood
    dsimp only at hgood ⊢
    have hstands : c.Stands p := by
      have hconsumer := h.serves.consumer
      rwa [hconn] at hconsumer
    cases hnext : turn.next? (w.stages k) c with
    | none =>
      rw [Turn.loads_of_next?_eq_none hnext]
      exact ⟨p, h, hsame⟩
    | some next =>
      obtain ⟨stage, after⟩ := next
      rw [hnext] at hgood
      have hstage : (w.withStage k stage after).stages k = stage := Function.update_self ..
      obtain ⟨p', hafter, hholds, hsplit, hleft, htaken, hcreated⟩ :=
        hstands.takeTurn h.stage h.split h.serves.logs.ordered.of_append hnext (hstage ▸ hgood)
      refine ⟨p', ⟨?_, hsplit, hstage.symm ▸ hholds, h.left.trans hleft.symm⟩, hcreated⟩
      rw [htaken]
      exact h.serves.setConnection hconn hafter

theorem hangUp (h : w.Keeps k p) {j : Nat} (hjk : j ≠ k) : (w.step (.hangUp j)).Keeps k p := by
  refine ⟨?_, h.split, h.stage, h.left⟩
  refine h.serves.beside (.of_eq rfl rfl rfl) rfl (List.length_modify ..) ?_ rfl
  exact (List.getElem?_modify ..).trans (by simp [hjk])

/-- Every move keeps a progress, as long as no update of the consumer fails. -/
theorem step (h : w.Keeps k p) (hc : move.IsCompiled) (hw : w.broadcast.registry.WellFormed)
    (hl : (w.step move).broadcast.registry.supply.Lasts) (hstays : move.Stays k)
    (hgood : (w.step move).stages k ≠ .failed) :
    ∃ p', (w.step move).Keeps k p' ∧
      created p'.applied = created p.applied ++ w.loads move k := by
  have hsame : created p.applied = created p.applied ++ [] := (List.append_nil _).symm
  cases move with
  | act action =>
    unfold Weave.step at hl ⊢
    dsimp only at hl ⊢
    split
    · rename_i hwhole
      rw [if_pos hwhole] at hl
      exact ⟨p, h.act (Bool.and_eq_true_iff.mp hwhole).2 hc hw hl, hsame⟩
    · exact ⟨p, h, hsame⟩
  | flush =>
    unfold Weave.step
    dsimp only
    split
    · rename_i hnone
      exact ⟨p, h.beginFlush (Option.isNone_iff_eq_none.mp hnone), hsame⟩
    · exact ⟨p, h, hsame⟩
  | send =>
    unfold Weave.step
    dsimp only
    split
    · rename_i hflushing
      obtain ⟨p', hafter, happlied⟩ := h.sendNext hflushing
      exact ⟨p', hafter, happlied ▸ hsame⟩
    · exact ⟨p, h, hsame⟩
  | turn j turn =>
    by_cases hjk : j = k
    · subst hjk
      exact h.takeTurn turn hgood
    · refine ⟨p, h.takeTurn_of_ne hjk turn, hsame.trans ?_⟩
      unfold Weave.loads
      dsimp only
      rw [if_neg hjk]
  | hangUp j => exact ⟨p, h.hangUp hstays, hsame⟩

end Keeps

/-- What a move does to the resources of the producer is an action of its own, or shows in none. -/
theorem step_resources (w : Weave) (move : Move) :
    (∃ action, move = .act action ∧
        (w.step move).broadcast.registry = (w.broadcast.step action).2.registry) ∨
      w.broadcast.registry.SameBodies (w.step move).broadcast.registry := by
  cases move with
  | act action =>
    unfold step
    dsimp only
    split
    · exact .inl ⟨action, rfl, rfl⟩
    · exact .inr (.of_eq rfl rfl rfl)
  | flush =>
    right
    have hends := Registry.reframed_retireDisposed w.broadcast.registry.processAcks
    unfold step
    dsimp only
    split
    · unfold beginFlush
      split
      · rename_i hrun
        exact (hends.of_ok hrun).sameBodies
      · rename_i hrun
        exact (hends.of_error hrun).sameBodies
    · exact .of_eq rfl rfl rfl
  | send =>
    right
    unfold step
    dsimp only
    split
    · rename_i f _
      obtain ⟨links, flushing?, hsend⟩ := w.sendNext_eq_withLinks f
      rw [hsend]
      exact .of_eq rfl rfl rfl
    · exact .of_eq rfl rfl rfl
  | turn j turn =>
    right
    unfold step takeTurn
    dsimp only
    split
    · split
      all_goals exact .of_eq rfl rfl rfl
    · exact .of_eq rfl rfl rfl
  | hangUp j => exact .inr (.of_eq rfl rfl rfl)

/-- No move takes a number back. -/
theorem issued_le_step (w : Weave) (hc : move.IsCompiled) :
    w.broadcast.registry.supply.issued ≤ (w.step move).broadcast.registry.supply.issued := by
  rcases w.step_resources move with ⟨action, rfl, hafter⟩ | hsame
  · rw [hafter]
    exact w.broadcast.issued_le_step hc
  · exact hsame.issued.ge

/-- A well-formed registry stays well formed in every move, while numbers last. -/
theorem wellFormed_step (hc : move.IsCompiled) (hw : w.broadcast.registry.WellFormed)
    (hl : (w.step move).broadcast.registry.supply.Lasts) :
    (w.step move).broadcast.registry.WellFormed := by
  rcases w.step_resources move with ⟨action, rfl, hafter⟩ | hsame
  · rw [hafter] at hl ⊢
    exact Broadcast.wellFormed_step hc hw hl
  · exact hsame.wellFormed hw

/-- A consumer that has failed does not go on. -/
theorem failed_step (h : w.stages k = .failed) (move : Move) : (w.step move).stages k = .failed := by
  cases move with
  | act action =>
    unfold step
    dsimp only
    split <;> exact h
  | flush =>
    unfold step beginFlush
    dsimp only
    split
    · split <;> exact h
    · exact h
  | send =>
    unfold step
    dsimp only
    split
    · rename_i f _
      obtain ⟨links, flushing?, hsend⟩ := w.sendNext_eq_withLinks f
      rw [hsend]
      exact h
    · exact h
  | turn j turn =>
    by_cases hjk : j = k
    · subst hjk
      rw [step_turn_of_failed h]
      exact h
    · unfold step takeTurn
      dsimp only
      split
      · split
        · exact (Function.update_of_ne (Ne.symm hjk) ..).trans h
        · exact h
      · exact h
  | hangUp j => exact h

/-- No moves take a number back. -/
theorem issued_le_play (w : Weave) {moves : List Move} (hc : ∀ move ∈ moves, move.IsCompiled) :
    w.broadcast.registry.supply.issued ≤ (w.play moves).broadcast.registry.supply.issued := by
  induction moves generalizing w with
  | nil => exact Nat.le_refl _
  | cons move rest ih =>
    exact (w.issued_le_step (hc move List.mem_cons_self)).trans
      (ih (w.step move) fun m hm => hc m (List.mem_cons_of_mem _ hm))

/-- A consumer that has failed does not go on, whatever is done. -/
theorem failed_play (h : w.stages k = .failed) (moves : List Move) :
    (w.play moves).stages k = .failed := by
  induction moves generalizing w with
  | nil => exact h
  | cons move rest ih => exact ih (failed_step h move)

/-- What consumer `k` loads in several moves. -/
def loaded (w : Weave) (k : Nat) : List Move → List ResourceId
  | [] => []
  | move :: rest => w.loads move k ++ (w.step move).loaded k rest

/-- Several moves keep a progress, as long as no update of the consumer fails. -/
theorem Keeps.play {moves : List Move} (h : w.Keeps k p) (hc : ∀ move ∈ moves, move.IsCompiled)
    (hw : w.broadcast.registry.WellFormed)
    (hl : (w.play moves).broadcast.registry.supply.Lasts) (hstays : ∀ move ∈ moves, move.Stays k)
    (hgood : (w.play moves).stages k ≠ .failed) :
    ∃ p', (w.play moves).Keeps k p' ∧
      created p'.applied = created p.applied ++ w.loaded k moves := by
  induction moves generalizing w p with
  | nil => exact ⟨p, h, (List.append_nil _).symm⟩
  | cons move rest ih =>
    have hone : move.IsCompiled := hc move List.mem_cons_self
    have hrest : ∀ m ∈ rest, m.IsCompiled := fun m hm => hc m (List.mem_cons_of_mem _ hm)
    have hlasts : (w.step move).broadcast.registry.supply.Lasts :=
      hl.mono ((w.step move).issued_le_play hrest)
    have hgoes : (w.step move).stages k ≠ .failed := fun hfailed => hgood (failed_play hfailed rest)
    obtain ⟨p₁, hkeeps, hloads⟩ := h.step hone hw hlasts (hstays move List.mem_cons_self) hgoes
    obtain ⟨p', hafter, hloaded⟩ := ih hkeeps hrest (wellFormed_step hone hw hlasts) hl
      (fun m hm => hstays m (List.mem_cons_of_mem _ hm)) hgood
    refine ⟨p', hafter, ?_⟩
    rw [hloaded, hloads, List.append_assoc]
    rfl

/-- Consumer `k` misses nothing that it applies next: a creation finds its envelope, and a disposal
finds its resource. -/
structure Finds (w : Weave) (k : Nat) : Prop where
  /-- A creation finds its envelope. -/
  creation : ∀ c record rest, w.broadcast.connection? k = some c →
    w.stages k = .applying (record :: rest) → record.command = .create →
      ∃ e, c.replica.pending[record.id]? = some e ∧ e.id = record.id
  /-- A disposal finds its resource. -/
  disposal : ∀ c record rest, w.broadcast.connection? k = some c →
    w.stages k = .applying (record :: rest) → record.command = .dispose →
      ∃ res, c.replica.resource? record.id = some res

/-- However flushes race updates, a consumer finds everything that it applies and loads nothing twice,
as long as it stays, no update of it fails and fewer than `2 ^ 32 - 1` numbers have been given out. -/
theorem unbroken (config : Config) (supply : Supply) (k : Nat) {moves : List Move}
    (hc : ∀ move ∈ moves, move.IsCompiled)
    (hl : ((opened config supply).play moves).broadcast.registry.supply.Lasts)
    (hstays : ∀ move ∈ moves, move.Stays k)
    (hgood : ((opened config supply).play moves).stages k ≠ .failed) :
    ((opened config supply).play moves).Finds k ∧
      ((opened config supply).loaded k moves).Nodup := by
  obtain ⟨p, hkeeps, hloaded⟩ := (Keeps.opened config supply k).play hc
    (Run.wellFormed_opened config supply) hl hstays hgood
  have hlog : IsLog p.taken := hkeeps.serves.logs.ordered.of_append
  have hfound : ∀ c record rest,
      ((opened config supply).play moves).broadcast.connection? k = some c →
      ((opened config supply).play moves).stages k = .applying (record :: rest) →
      (record.command = .create → ∃ e, c.replica.pending[record.id]? = some e ∧ e.id = record.id) ∧
        (record.command = .dispose → ∃ res, c.replica.resource? record.id = some res) := by
    intro c record rest hconn hstage
    have hconsumer := hkeeps.serves.consumer
    have hholds := hkeeps.stage
    rw [hconn] at hconsumer
    rw [hstage] at hholds
    obtain ⟨hrecords, hknown⟩ := hholds
    obtain ⟨o, due, hdue, rfl, -⟩ := List.map_eq_cons_iff.mp hrecords.symm
    exact Connection.Stands.found hconsumer hdue hknown hlog
  refine ⟨⟨fun c record rest hconn hstage => (hfound c record rest hconn hstage).1,
    fun c record rest hconn hstage => (hfound c record rest hconn hstage).2⟩, ?_⟩
  have happlied : IsLog p.applied := by
    unfold Progress.taken at hlog
    exact hlog.of_append.of_append
  have hnodup := happlied.nodup_created
  rw [hloaded] at hnodup
  exact hnodup

end Weave

namespace Samples

/-- A flush of a text and of the node that is named by it races two updates. The first update takes
the record of the text when the envelope of the node is on the wire already, and the second takes the
record of the node. -/
def racing : List Move :=
  [.act (.connect .render),
    .act (.createInstance ⟨0, node⟩ [("name", .text "a")] {}),
    .flush, .send, .send, .send,
    .turn 0 (.swap 0),
    .send,
    .turn 0 .take,
    .send,
    .turn 0 .receive, .turn 0 .apply, .turn 0 .apply,
    .turn 0 (.swap 0), .turn 0 .take, .turn 0 .receive]

theorem isCompiled_racing : ∀ move ∈ racing, move.IsCompiled := by
  intro move hmove
  simp only [racing, List.mem_cons, List.not_mem_nil, or_false] at hmove
  rcases hmove with rfl | rfl | rfl | rfl | rfl | rfl | rfl | rfl | rfl | rfl | rfl | rfl | rfl |
    rfl | rfl | rfl
  all_goals first | exact isCompiled_node | trivial

/-- The text was loaded, and the creation of the node, which is to be applied next, finds the envelope
that was received in the update before. -/
theorem unbroken_racing :
    let w := (Weave.opened ⟨.game, 4⟩ ⟨0, .initial⟩).play racing
    w.broadcast.registry.supply.Lasts ∧ (∀ move ∈ racing, move.Stays 0) ∧
      w.stages 0 = .applying [⟨.create, 0, 1⟩] ∧
      (Weave.opened ⟨.game, 4⟩ ⟨0, .initial⟩).loaded 0 racing = [2] ∧
      w.Finds 0 := by
  have hlasts : ((Weave.opened ⟨.game, 4⟩ ⟨0, .initial⟩).play racing).broadcast.registry.supply.Lasts := by
    decide +kernel
  have hstays : ∀ move ∈ racing, move.Stays 0 := by decide +kernel
  have hstage : ((Weave.opened ⟨.game, 4⟩ ⟨0, .initial⟩).play racing).stages 0 =
      .applying [⟨.create, 0, 1⟩] := by decide +kernel
  have hgood : ((Weave.opened ⟨.game, 4⟩ ⟨0, .initial⟩).play racing).stages 0 ≠ .failed := by
    rw [hstage]
    decide
  exact ⟨hlasts, hstays, hstage, by decide +kernel,
    (Weave.unbroken ⟨.game, 4⟩ ⟨0, .initial⟩ 0 isCompiled_racing hlasts hstays hgood).1⟩

/-- Two nodes with one number go over the wire in one flush, and the first record is applied. Between
their creations all other numbers were drawn elsewhere. -/
def twinRecords : List Move :=
  [.act (.connect .render),
    .act (.createInstance ⟨0, node⟩ [] {}),
    .act (.elsewhere (2 ^ 32 - 1) .initial),
    .act (.createInstance ⟨0, node⟩ [] {}),
    .flush, .send, .send, .send, .send, .send,
    .turn 0 (.swap 0), .turn 0 .take, .turn 0 .receive, .turn 0 .apply]

/-- Two nodes with one number, of which the first is loaded before the second is created. -/
def twinLoads : List Move :=
  [.act (.connect .render),
    .act (.createInstance ⟨0, node⟩ [] {}),
    .flush, .send, .send, .send, .send, .send,
    .turn 0 (.swap 0), .turn 0 .take, .turn 0 .receive, .turn 0 .apply, .turn 0 .apply,
    .act (.elsewhere (2 ^ 32 - 1) .initial),
    .act (.createInstance ⟨0, node⟩ [] {}),
    .flush, .send, .send, .send, .send, .send,
    .turn 0 (.swap 0), .turn 0 .take, .turn 0 .receive, .turn 0 .apply]

theorem isCompiled_twins : ∀ move ∈ twinRecords ++ twinLoads, move.IsCompiled := by
  simp [twinRecords, twinLoads, Move.IsCompiled, Action.IsCompiled, isCompiled_node]

/-- Where the numbers have come around, one envelope is kept for two records, and the second record
finds none. If both find theirs, one number is loaded twice. -/
theorem broken_twins :
    let records := (Weave.opened ⟨.game, 4⟩ ⟨0, .initial⟩).play twinRecords
    (∀ move ∈ twinRecords ++ twinLoads, move.IsCompiled) ∧
      (∀ move ∈ twinRecords ++ twinLoads, move.Stays 0) ∧
      records.stages 0 = .applying [⟨.create, 0, 1⟩] ∧ ¬records.Finds 0 ∧
      ((Weave.opened ⟨.game, 4⟩ ⟨0, .initial⟩).play twinLoads).stages 0 = .applying [] ∧
      ¬((Weave.opened ⟨.game, 4⟩ ⟨0, .initial⟩).loaded 0 twinLoads).Nodup := by
  intro records
  have hread : (records.broadcast.connection? 0).map (fun c => c.replica.pending[(1 : ResourceId)]?) =
      some none := by decide +kernel
  have hstage : records.stages 0 = .applying [⟨.create, 0, 1⟩] := by decide +kernel
  obtain ⟨c, hconn, hnone⟩ := Option.map_eq_some_iff.mp hread
  refine ⟨isCompiled_twins, by decide +kernel, hstage, fun hfinds => ?_, by decide +kernel,
    by decide +kernel⟩
  obtain ⟨e, he, -⟩ := hfinds.creation c _ _ hconn hstage rfl
  rw [hnone] at he
  cases he

end Samples

end Framecast
