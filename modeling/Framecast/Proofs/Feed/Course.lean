import Framecast.Proofs.Feed.Log
import Framecast.Proofs.Feed.Mirror
import Framecast.Proofs.Run.Shifting

/-!
# What the wires carry

Of a wire, only the ring and the envelopes matter to the feed of its consumer, and
snapshots and answers do not. Most actions of the producer have no share in either:
they continue the log of a link through its outbox, and its consumer stays where it
is. A link serves its consumer when its log is what was sent and what waits to be
sent, and something else holds of the consumer and its wire; the actions that put
nothing on a wire keep this, whatever it is that holds.
-/

namespace Framecast

/-- A wire without its snapshots and the answers on their way back. -/
def Wire.transit (wire : Wire) : Wire := { wire with frames := .initial, acks := #[] }

/-- A link without its snapshots and the answers on their way back. -/
def Link.course (link : Link) : Link := { link with wire := link.wire.transit }

/-- What a wire carries does not depend on snapshots and answers. -/
theorem Wire.Carries.of_transit {wire wire' : Wire} {underway : List Outgoing}
    (h : wire.Carries underway) (heq : wire'.transit = wire.transit) : wire'.Carries underway := by
  simp only [transit, mk.injEq, true_and] at heq
  obtain ⟨hring, henvelopes, hreceiving⟩ := heq
  exact ⟨hreceiving ▸ h.receiving, hring ▸ h.ring, henvelopes ▸ h.envelopes⟩

/-- Resources that show no difference stay bound to links that there are. -/
theorem Registry.SameBodies.isLinked {r r' : Registry} (h : r.SameBodies r')
    (hlength : r.links.length ≤ r'.links.length) (hlinked : r.IsLinked) : r'.IsLinked := by
  intro x res' hx
  obtain ⟨res, hres, heq⟩ := h.origin hx
  obtain ⟨hnodup, hbounds⟩ := hlinked x res hres
  rw [← Resource.bindings_of_body heq]
  exact ⟨hnodup, fun binding hb => (hbounds binding hb).trans_le hlength⟩

/-- Until a flush sends the outboxes, every link stays on its course. -/
theorem Registry.Reframed.course {r retired : Registry} (h : r.processAcks.Reframed retired) :
    retired.links.map Link.course = r.links.map Link.course := by
  have hacks := congrArg (List.map Link.course) r.quiet_processAcks.links
  have hframes := congrArg (List.map Link.course) h.links
  rw [List.map_map, List.map_map] at hacks hframes
  exact hframes.trans hacks

namespace Registry

variable {r r' : Registry}

/-- Nothing goes over a wire in a shift. -/
theorem Shift.transits (h : r.Shift r') :
    r'.links.map (·.wire.transit) = r.links.map (·.wire.transit) := by
  cases h with
  | quiet h =>
    simpa [Function.comp_def, Link.body, Wire.transit] using
      congrArg (List.map (·.wire.transit)) h.links
  | touch | enter => rfl
  | @ship id res j link load h hlink =>
    obtain ⟨hj, rfl⟩ := List.getElem?_eq_some_iff.mp hlink
    have hship : (r.links[j].ship j res r.tick).2.wire.transit = r.links[j].wire.transit := by
      unfold Link.ship
      cases res.storage <;> rfl
    rw [List.map_set, hship]
    apply List.ext_getElem?
    intro k
    rw [List.getElem?_set]
    split
    · rename_i hjk
      subst hjk
      simp [hj]
    · rfl
  | @remove id res _ =>
    obtain ⟨_, heq⟩ := remove_eq res r
    apply List.ext_getElem?
    intro k
    simp [heq, Link.enqueue, Function.comp_def]

theorem Shifts.transits (h : r.Shifts r') :
    r'.links.map (·.wire.transit) = r.links.map (·.wire.transit) := by
  induction h with
  | refl => rfl
  | tail _ hstep ih => exact hstep.transits.trans ih

/-- The tick of later intents does not change. -/
theorem Shift.tick (h : r.Shift r') : r'.tick = r.tick := by
  cases h with
  | quiet h => exact h.tick
  | touch | enter | ship => rfl
  | @remove id res _ =>
    obtain ⟨_, heq⟩ := remove_eq res r
    rw [heq]

/-- What is queued for a link stays so, and what is queued behind it holds from the current tick. -/
theorem Shift.queues (h : r.Shift r') (k : Nat) :
    ∃ more, r'.outboxAt k = r.outboxAt k ++ more ∧ ∀ o ∈ more, o.tick = r.tick := by
  have hsame (heq : r'.outboxAt k = r.outboxAt k) :
      ∃ more, r'.outboxAt k = r.outboxAt k ++ more ∧ ∀ o ∈ more, o.tick = r.tick :=
    ⟨[], by rw [heq, List.append_nil], by simp⟩
  cases h with
  | quiet h => exact hsame (h.outboxAt k)
  | touch | enter => exact hsame rfl
  | ship load h hlink =>
    obtain ⟨e, -, hout⟩ := outboxAt_ship hlink _ _ k
    refine ⟨_, hout, fun o ho => ?_⟩
    split at ho
    · rw [List.mem_singleton.mp ho]
      rfl
    · cases ho
  | @remove id res _ =>
    rcases Nat.lt_or_ge k r.links.length with hk | hk
    · refine ⟨disposals res r.tick k, outboxAt_remove res r hk, fun o ho => ?_⟩
      obtain ⟨_, -, rfl⟩ := List.mem_map.mp ho
      rfl
    · exact hsame (outboxAt_remove_of_le hk)

theorem Shifts.queues (h : r.Shifts r') (k : Nat) :
    r'.tick = r.tick ∧ ∃ more, r'.outboxAt k = r.outboxAt k ++ more ∧ ∀ o ∈ more, o.tick = r.tick := by
  induction h with
  | refl => exact ⟨rfl, [], by simp⟩
  | tail _ hlast ih =>
    obtain ⟨htick, more, hmore, hstamped⟩ := ih
    obtain ⟨last, hqueued, hticks⟩ := hlast.queues k
    refine ⟨hlast.tick.trans htick, more ++ last, ?_, fun o ho => ?_⟩
    · rw [hqueued, hmore, List.append_assoc]
    · rcases List.mem_append.mp ho with ho | ho
      · exact hstamped o ho
      · exact (hticks o ho).trans htick

end Registry

namespace Broadcast

variable {b b' : Broadcast} {j k : Nat} {action : Action}

/-- A replica is connected over the wire of its link. -/
theorem connection?_eq_some {c : Connection} : b.connection? k = some c ↔
    ∃ replica link, b.replicas[k]? = some replica ∧ b.registry.links[k]? = some link ∧
      c = ⟨replica, link.wire⟩ := by
  unfold connection?
  split
  · rename_i hreplica hlink
    constructor
    · intro h
      cases h
      exact ⟨_, _, hreplica, hlink, rfl⟩
    · rintro ⟨replica, link, hreplica', hlink', rfl⟩
      rw [hreplica] at hreplica'
      rw [hlink] at hlink'
      cases hreplica'
      cases hlink'
      rfl
  · rename_i hnot
    constructor
    · intro h
      cases h
    · rintro ⟨replica, link, hreplica, hlink, -⟩
      exact absurd hlink (hnot replica link hreplica)

/-- A connection is found as it was put there. -/
theorem connection?_setConnection (b : Broadcast) (j k : Nat) (c : Connection) :
    (b.setConnection j c).connection? k =
      if j = k then (b.connection? k).map fun _ => c else b.connection? k := by
  unfold connection? setConnection Registry.modifyLink
  simp only [List.getElem?_modify, Array.getElem?_setIfInBounds]
  by_cases h : j = k
  · subst h
    simp only [if_true]
    cases hreplica : b.replicas[j]? with
    | none =>
      have hsize : ¬j < b.replicas.size := by simpa using hreplica
      simp [hsize]
    | some replica =>
      have hsize : j < b.replicas.size := (Array.getElem?_eq_some_iff.mp hreplica).1
      cases hlink : b.registry.links[j]? with
      | none => simp [hsize]
      | some link => simp [hsize]
  · simp [h]

/-- How an operation of a consumer ends. -/
theorem onConnection_cases {α : Type} (b : Broadcast) (k : Nat) (m : ConnectionM α) :
    (b.connection? k = none ∧ b.onConnection k m = (.done, b)) ∨
      ∃ c, b.connection? k = some c ∧
        ((∃ a after, m.run c = .ok a after ∧
            b.onConnection k m = (.done, b.setConnection k after)) ∨
          ∃ e after, m.run c = .error e after ∧
            b.onConnection k m = (.failed e, b.setConnection k after)) := by
  unfold onConnection
  cases hc : b.connection? k with
  | none => exact .inl ⟨rfl, rfl⟩
  | some c =>
    refine .inr ⟨c, rfl, ?_⟩
    dsimp only
    cases hrun : m.run c with
    | ok a after => exact .inl ⟨a, after, rfl, rfl⟩
    | error e after => exact .inr ⟨e, after, rfl, rfl⟩

theorem replicas_onRegistry {α : Type} (b : Broadcast) (m : RegistryM α) (answer : α → Answer) :
    (b.onRegistry m answer).2.replicas = b.replicas := by
  unfold onRegistry
  split <;> rfl

/-- An action on the resources of the producer leaves the consumers alone. -/
theorem replicas_step (h : action.isInternal = true) :
    (b.step action).2.replicas = b.replicas := by
  cases action with
  | setTick | connect | commit | flush | registerLoader | update | hangUp => cases h
  | registerType | await | processAcks | elsewhere => rfl
  | createOpaque | createInstance | createString | createBuffer | retain | dispose | setProp |
    setPropFromScript => exact replicas_onRegistry _ _ _

/-- An action on the resources of the producer puts nothing on the wires. -/
theorem transits_step (h : action.isInternal = true) :
    (b.step action).2.registry.links.map (·.wire.transit) =
      b.registry.links.map (·.wire.transit) := by
  rcases shifts_or_draws_step h with hshifts | ⟨_, heq⟩
  · exact hshifts.transits
  · rw [heq]

/-- An action on the resources of the producer leaves what waits, and what it queues behind it holds
from the current tick. -/
theorem queues_step (h : action.isInternal = true) (k : Nat) :
    ∃ more, (b.step action).2.registry.outboxAt k = b.registry.outboxAt k ++ more ∧
      ∀ o ∈ more, o.tick = b.registry.tick := by
  rcases shifts_or_draws_step h with hshifts | ⟨_, heq⟩
  · exact (hshifts.queues k).2
  · rw [heq]
    exact ⟨[], (List.append_nil _).symm, nofun⟩

/-- An action that goes over the wires queues nothing, and leaves what waits unless it is a flush. -/
theorem outboxAt_step (b : Broadcast) (h : action.isInternal = false) (hflush : action ≠ .flush) (k : Nat) :
    (b.step action).2.registry.outboxAt k = b.registry.outboxAt k := by
  have hmodify (j : Nat) (f : Link → Link) (hf : ∀ link, (f link).outbox = link.outbox) :
      (b.registry.modifyLink j f).outboxAt k = b.registry.outboxAt k := by
    unfold Registry.outboxAt Registry.modifyLink
    rw [List.getElem?_modify]
    cases b.registry.links[k]? with
    | none => rfl
    | some link =>
      by_cases hjk : j = k
      · simp [hjk, hf]
      · simp [hjk]
  have hconnection {α : Type} (j : Nat) (m : ConnectionM α) :
      (b.onConnection j m).2.registry.outboxAt k = b.registry.outboxAt k := by
    rcases b.onConnection_cases j m with
      ⟨-, heq⟩ | ⟨c, -, ⟨_, after, -, heq⟩ | ⟨_, after, -, heq⟩⟩
    · rw [heq]
    · rw [heq]
      exact hmodify j _ fun _ => rfl
    · rw [heq]
      exact hmodify j _ fun _ => rfl
  cases action with
  | setTick tick => rfl
  | connect thread =>
    rcases b.step_connect thread with ⟨wire, -, hstep⟩ | ⟨e, hstep⟩
    · rw [hstep]
      unfold Registry.outboxAt
      rw [List.getElem?_append]
      split
      · rfl
      · rename_i hk
        rw [List.getElem?_eq_none (Nat.le_of_not_lt hk)]
        cases k - b.registry.links.length <;> rfl
    · rw [hstep]
  | commit =>
    have hlinks := congrArg (fun links => (links[k]?.map (·.outbox.toList)).getD [])
      b.reframed_commit.links
    simpa [Registry.outboxAt, Function.comp_def, Link.unframed, Link.mapFrames] using hlinks
  | flush => exact absurd rfl hflush
  | registerLoader j type loader => exact hconnection j _
  | update j tick => exact hconnection j _
  | hangUp j => exact hmodify j _ fun _ => rfl
  | registerType | createOpaque | createInstance | createString | createBuffer | retain |
    dispose | setProp | setPropFromScript | await | processAcks | elsewhere => cases h

/-- A commit changes nothing of a link but its snapshots. -/
theorem courses_commit (b : Broadcast) :
    (b.step .commit).2.registry.links.map Link.course = b.registry.links.map Link.course := by
  have hcourse := congrArg (List.map Link.course) b.reframed_commit.links
  rw [List.map_map, List.map_map] at hcourse
  exact hcourse

/-- A flush keeps all links. -/
theorem length_flush (b : Broadcast) :
    (b.step .flush).2.registry.links.length = b.registry.links.length := by
  have hretired : ∀ retired, b.registry.processAcks.Reframed retired →
      retired.links.length = b.registry.links.length := by
    intro retired hretired
    have hacks := congrArg List.length (Registry.quiet_processAcks b.registry).links
    have hframes := congrArg List.length hretired.links
    simp only [List.length_map] at hacks hframes
    exact hframes.trans hacks
  apply onRegistry_after (P := fun after => after.links.length = b.registry.links.length)
  apply (Registry.ends_flush b.registry).imp
  · rintro _ after ⟨retired, h, -, rfl⟩
    exact (Registry.length_flushLinks _).trans (hretired retired h)
  · rintro _ after ⟨retired, h, rfl | rfl⟩
    · exact hretired _ h
    · exact (Registry.length_flushLinks _).trans (hretired retired h)

/-- No action over the wires closes a link. -/
theorem length_links_step (h : action.isInternal = false) :
    b.registry.links.length ≤ (b.step action).2.registry.links.length := by
  have hconnection {α : Type} (j : Nat) (m : ConnectionM α) :
      (b.onConnection j m).2.registry.links.length = b.registry.links.length := by
    rcases b.onConnection_cases j m with
      ⟨-, heq⟩ | ⟨c, -, ⟨_, after, -, heq⟩ | ⟨_, after, -, heq⟩⟩
    · rw [heq]
    · rw [heq]
      exact List.length_modify _ _ _
    · rw [heq]
      exact List.length_modify _ _ _
  cases action with
  | setTick tick => exact Nat.le_refl _
  | connect thread =>
    rcases b.step_connect thread with ⟨wire, -, hstep⟩ | ⟨e, hstep⟩
    · rw [hstep]
      simp
    · rw [hstep]
  | commit =>
    have hlength := congrArg List.length b.reframed_commit.links
    rw [List.length_map, List.length_map] at hlength
    exact hlength.ge
  | flush => exact b.length_flush.ge
  | registerLoader j type loader => exact (hconnection j _).ge
  | update j tick => exact (hconnection j _).ge
  | hangUp j => exact (List.length_modify _ _ _).ge
  | registerType | createOpaque | createInstance | createString | createBuffer | retain |
    dispose | setProp | setPropFromScript | await | processAcks | elsewhere => cases h

/-- An action on the resources of the producer keeps all links. -/
theorem length_links_internal (h : action.isInternal = true) :
    (b.step action).2.registry.links.length = b.registry.links.length := by
  have hlength := congrArg List.length (transits_step (b := b) h)
  rwa [List.length_map, List.length_map] at hlength

/-- No link is ever closed. -/
theorem length_links_le (b : Broadcast) (action : Action) :
    b.registry.links.length ≤ (b.step action).2.registry.links.length := by
  cases hinternal : action.isInternal with
  | true => exact (length_links_internal hinternal).ge
  | false => exact length_links_step hinternal

/-- Every link goes on having a replica at its far end. -/
theorem sizes_step (action : Action) (h : b.replicas.size = b.registry.links.length) :
    (b.step action).2.replicas.size = (b.step action).2.registry.links.length := by
  have hconnection {α : Type} (j : Nat) (m : ConnectionM α) :
      (b.onConnection j m).2.replicas.size = (b.onConnection j m).2.registry.links.length := by
    have hset (c : Connection) :
        (b.setConnection j c).replicas.size = (b.setConnection j c).registry.links.length := by
      unfold setConnection Registry.modifyLink
      rw [Array.size_setIfInBounds, List.length_modify, h]
    rcases b.onConnection_cases j m with
      ⟨-, heq⟩ | ⟨c, -, ⟨_, after, -, heq⟩ | ⟨_, after, -, heq⟩⟩
    · rw [heq]
      exact h
    · rw [heq]
      exact hset after
    · rw [heq]
      exact hset after
  cases hinternal : action.isInternal with
  | true => rw [replicas_step hinternal, length_links_internal hinternal, h]
  | false =>
    cases action with
    | setTick tick => exact h
    | connect thread =>
      rcases b.step_connect thread with ⟨wire, -, hstep⟩ | ⟨e, hstep⟩
      · rw [hstep]
        simp [h]
      · rw [hstep]
        exact h
    | commit =>
      have hlength := congrArg List.length b.courses_commit
      rw [List.length_map, List.length_map] at hlength
      rw [hlength]
      exact (congrArg Array.size (replicas_onRegistry b _ _)).trans h
    | flush =>
      rw [b.length_flush]
      exact (congrArg Array.size (replicas_onRegistry b _ _)).trans h
    | registerLoader j type loader => exact hconnection j _
    | update j tick => exact hconnection j _
    | hangUp j => exact h.trans (List.length_modify _ _ _).symm
    | registerType | createOpaque | createInstance | createString | createBuffer | retain |
      dispose | setProp | setPropFromScript | await | processAcks | elsewhere => cases hinternal

/-- Whether something holds of a consumer, or of there being none, whatever the snapshots and the
answers on its wire are. -/
def IgnoresFrames (P : Option Connection → Prop) : Prop :=
  ∀ replica wire wire', wire'.transit = wire.transit → P (some ⟨replica, wire⟩) →
    P (some ⟨replica, wire'⟩)

/-- What was sent over a link and what waits to be sent are its log, and something holds of the
consumer, if there is one already. -/
structure Serves (b : Broadcast) (k : Nat) (sent : List Outgoing) (P : Option Connection → Prop) :
    Prop where
  /-- Every link has a replica at its far end. -/
  sizes : b.replicas.size = b.registry.links.length
  /-- Every live resource is bound to links that there are, and to each of them once. -/
  linked : b.registry.IsLinked
  /-- The log of the link is what was sent and what waits to be sent. -/
  logs : b.registry.Logs k (sent ++ b.registry.outboxAt k)
  /-- What holds of the consumer. -/
  consumer : P (b.connection? k)

namespace Serves

variable {sent sent' : List Outgoing} {P P' : Option Connection → Prop}

/-- Nothing was sent by a producer without resources and consumers. -/
theorem opened (config : Config) (supply : Supply) (k : Nat) (hP : P none) :
    (Broadcast.opened config supply).Serves k [] P := by
  refine ⟨rfl, fun x res hx => ?_, ⟨Outgoing.isLog_nil, fun x => ⟨fun hx => ?_, ?_⟩,
    fun x hx => ?_, fun e tick he => ?_⟩, hP⟩
  · rw [Broadcast.resource?_opened] at hx
    cases hx
  · cases hx
  · rintro ⟨res, hres, -⟩
    rw [Broadcast.resource?_opened] at hres
    cases hres
  · cases hx
  · cases he

/-- There is no consumer where there is no link. -/
theorem connection?_eq_none (h : b.Serves k sent P) :
    b.connection? k = none ↔ b.registry.links.length ≤ k := by
  unfold connection?
  constructor
  · intro hnone
    by_contra hk
    have hlink : k < b.registry.links.length := Nat.lt_of_not_le hk
    rw [List.getElem?_eq_getElem hlink, Array.getElem?_eq_getElem (h.sizes ▸ hlink)] at hnone
    cases hnone
  · intro hk
    rw [List.getElem?_eq_none hk]
    cases b.replicas[k]? <;> rfl

/-- If no resource shows a difference and the log stays the same, only the consumer matters. -/
theorem external (h : b.Serves k sent P) (hsame : b.registry.SameBodies b'.registry)
    (hsizes : b'.replicas.size = b.replicas.size)
    (hlength : b'.registry.links.length = b.registry.links.length)
    (hlog : sent' ++ b'.registry.outboxAt k = sent ++ b.registry.outboxAt k)
    (hconsumer : P' (b'.connection? k)) : b'.Serves k sent' P' := by
  refine ⟨by rw [hsizes, hlength, h.sizes], hsame.isLinked hlength.ge h.linked, ?_, hconsumer⟩
  rw [hlog]
  exact h.logs.of_body hsame.issued.ge hsame.resources

/-- If the rings and envelopes of all links stay the same, so does what holds of the consumer. -/
theorem consumer_of_transits (h : b.Serves k sent P) (hP : IgnoresFrames P)
    (hreplicas : b'.replicas = b.replicas)
    (htransits : b'.registry.links.map (·.wire.transit) = b.registry.links.map (·.wire.transit)) :
    P (b'.connection? k) := by
  have hlink := congrArg (·[k]?) htransits
  simp only [List.getElem?_map] at hlink
  have hconsumer := h.consumer
  unfold connection? at hconsumer ⊢
  rw [hreplicas]
  cases hlink' : b'.registry.links[k]? with
  | none =>
    rw [hlink', Option.map_none] at hlink
    rw [Option.map_eq_none_iff.mp hlink.symm] at hconsumer
    cases hreplica : b.replicas[k]? <;> (rw [hreplica] at hconsumer; exact hconsumer)
  | some link' =>
    rw [hlink', Option.map_some] at hlink
    obtain ⟨link, hlink, heq⟩ := Option.map_eq_some_iff.mp hlink.symm
    rw [hlink] at hconsumer
    cases hreplica : b.replicas[k]? with
    | none =>
      rw [hreplica] at hconsumer
      exact hconsumer
    | some replica =>
      rw [hreplica] at hconsumer
      exact hP replica link.wire link'.wire heq.symm hconsumer

/-- An action that leaves the consumers and the course of every link alone changes nothing. -/
theorem of_course (h : b.Serves k sent P) (hP : IgnoresFrames P)
    (hsame : b.registry.SameBodies b'.registry) (hreplicas : b'.replicas = b.replicas)
    (hlinks : b'.registry.links.map Link.course = b.registry.links.map Link.course) :
    b'.Serves k sent P := by
  have htransits := congrArg (List.map (·.wire)) hlinks
  rw [List.map_map, List.map_map] at htransits
  apply h.external hsame (by rw [hreplicas]) (by simpa using congrArg List.length hlinks)
  · have hout := congrArg (fun links => (links[k]?.map (·.outbox.toList)).getD []) hlinks
    simp only [List.getElem?_map, Option.map_map] at hout
    exact congrArg _ hout
  · exact h.consumer_of_transits hP hreplicas htransits

/-- An action that has no share in the link or in its consumer changes nothing. -/
theorem beside (h : b.Serves k sent P) (hsame : b.registry.SameBodies b'.registry)
    (hsizes : b'.replicas.size = b.replicas.size)
    (hlength : b'.registry.links.length = b.registry.links.length)
    (hlink : b'.registry.links[k]? = b.registry.links[k]?)
    (hreplica : b'.replicas[k]? = b.replicas[k]?) : b'.Serves k sent P := by
  apply h.external hsame hsizes hlength
  · unfold Registry.outboxAt
    rw [hlink]
  · have hconsumer := h.consumer
    unfold connection? at hconsumer ⊢
    rwa [hlink, hreplica]

/-- Another consumer and its wire may change. -/
theorem setConnection_of_ne (h : b.Serves k sent P) (hjk : j ≠ k) (c : Connection) :
    (b.setConnection j c).Serves k sent P := by
  refine h.beside (.of_eq rfl rfl rfl) Array.size_setIfInBounds (List.length_modify _ _ _) ?_ ?_
  · simp [setConnection, Registry.modifyLink, hjk]
  · simp [setConnection, hjk]

/-- The consumer and its wire may change if something holds of them afterwards. -/
theorem setConnection (h : b.Serves k sent P) {c after : Connection}
    (hc : b.connection? k = some c) (hafter : P' (some after)) :
    (b.setConnection k after).Serves k sent P' := by
  refine h.external (.of_eq rfl rfl rfl) Array.size_setIfInBounds (List.length_modify _ _ _) ?_ ?_
  · unfold Registry.outboxAt Broadcast.setConnection Registry.modifyLink
    rw [List.getElem?_modify]
    simp only [if_true]
    cases b.registry.links[k]? <;> rfl
  · rw [connection?_setConnection, if_pos rfl, hc]
    exact hafter

/-- A link and its wire may change if its log stays the same and something holds of its consumer
afterwards. -/
theorem setLink (h : b.Serves k sent P) {replica : Replica} {link : Link}
    (hreplica : b.replicas[k]? = some replica) (hlink : b.registry.links[k]? = some link)
    (link' : Link) (hlog : sent' ++ link'.outbox.toList = sent ++ link.outbox.toList)
    (hafter : P' (some ⟨replica, link'.wire⟩)) :
    Serves { b with registry := { b.registry with links := b.registry.links.set k link' } }
      k sent' P' := by
  have hk : k < b.registry.links.length := (List.getElem?_eq_some_iff.mp hlink).1
  refine h.external (.of_eq rfl rfl rfl) rfl (List.length_set ..) ?_ ?_
  · unfold Registry.outboxAt
    dsimp only
    rw [List.getElem?_set_self hk, hlink]
    exact hlog
  · unfold connection?
    dsimp only
    rw [hreplica, List.getElem?_set_self hk]
    exact hafter

/-- An action on the resources of the producer continues the log. -/
theorem internal (h : b.Serves k sent P) (hP : IgnoresFrames P)
    (hinternal : action.isInternal = true) (hc : action.IsCompiled) (hw : b.registry.WellFormed)
    (hl : (b.step action).2.registry.supply.Lasts) : (b.step action).2.Serves k sent P := by
  obtain ⟨-, hlinked, hlogs⟩ := (changes_step hinternal hc hw hl).keep
    (P := fun s => s.IsLinked ∧ s.Logs k (sent ++ s.outboxAt k)) hw hl
    (fun _ _ _ _ hw₁ _ hl₂ hedit hkept =>
      ⟨hedit.isLinked hkept.1, hedit.logs hw₁ hl₂ hkept.1 hkept.2⟩) ⟨h.linked, h.logs⟩
  have hreplicas := replicas_step (b := b) hinternal
  exact ⟨by rw [hreplicas, length_links_internal hinternal, h.sizes], hlinked, hlogs,
    h.consumer_of_transits hP hreplicas (transits_step hinternal)⟩

/-- A new link is served if that holds of a new consumer which held of there being none. -/
theorem connect (h : b.Serves k sent P) (thread : Thread)
    (hnew : ∀ capacity wire, Wire.create capacity = .ok wire → P none →
      P (some ⟨.create thread, wire⟩)) :
    (b.step (.connect thread)).2.Serves k sent P := by
  rcases b.step_connect thread with ⟨wire, hwire, hstep⟩ | ⟨e, hstep⟩
  · rw [hstep]
    have hlength : (b.registry.links ++ [(⟨thread, #[], wire⟩ : Link)]).length =
        b.registry.links.length + 1 := by simp
    have hexternal : Action.isInternal (.connect thread) = false := rfl
    have hout := b.outboxAt_step hexternal (fun h => by cases h) k
    rw [hstep] at hout
    refine ⟨by simp [h.sizes], ?_, ?_, ?_⟩
    · intro x res hx
      obtain ⟨hnodup, hbounds⟩ := h.linked x res hx
      refine ⟨hnodup, fun bound hb => ?_⟩
      have := hbounds bound hb
      rw [hlength]
      omega
    · rw [hout]
      exact h.logs.of_body (Nat.le_refl _) fun _ => rfl
    · have hconsumer := h.consumer
      rcases Nat.lt_trichotomy k b.registry.links.length with hk | hk | hk
      · have hsame : Broadcast.connection? { b with
            registry := { b.registry with links := b.registry.links ++ [⟨thread, #[], wire⟩] }
            replicas := b.replicas.push (.create thread) } k = b.connection? k := by
          unfold connection?
          rw [List.getElem?_append_left hk, Array.getElem?_push, h.sizes, if_neg (Nat.ne_of_lt hk)]
        rw [hsame]
        exact hconsumer
      · have hone : Broadcast.connection? { b with
            registry := { b.registry with links := b.registry.links ++ [⟨thread, #[], wire⟩] }
            replicas := b.replicas.push (.create thread) } k = some ⟨.create thread, wire⟩ := by
          unfold connection?
          rw [Array.getElem?_push, h.sizes, if_pos hk, hk, List.getElem?_concat_length]
        rw [hone]
        rw [h.connection?_eq_none.mpr hk.ge] at hconsumer
        exact hnew _ wire hwire hconsumer
      · have hnone : Broadcast.connection? { b with
            registry := { b.registry with links := b.registry.links ++ [⟨thread, #[], wire⟩] }
            replicas := b.replicas.push (.create thread) } k = none := by
          unfold connection?
          rw [List.getElem?_eq_none (hlength.trans_le hk)]
          cases (b.replicas.push (Replica.create thread))[k]? <;> rfl
        rw [hnone]
        rwa [h.connection?_eq_none.mpr hk.le] at hconsumer
  · rw [hstep]
    exact h

/-- Publishing changes nothing. -/
theorem commit (h : b.Serves k sent P) (hP : IgnoresFrames P) :
    (b.step .commit).2.Serves k sent P := by
  have hrests := b.reframed_commit.rests
  have hreplicas : (b.step .commit).2.replicas = b.replicas := replicas_onRegistry _ _ _
  exact h.of_course hP (.of_eq hrests.resources hrests.indexes hrests.supply) hreplicas
    b.courses_commit

end Serves

end Broadcast

/-- In every run, every link has a replica at its far end. -/
theorem Run.sizes {config : Config} {supply : Supply} {past : List Moment} {b : Broadcast}
    (h : Run (.opened config supply) past b) :
    b.replicas.size = b.registry.links.length := by
  induction h with
  | nil => rfl
  | snoc _ action ih => exact Broadcast.sizes_step action ih

end Framecast
