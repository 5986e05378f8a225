import Framecast.Proofs.Feed.Course

/-!
# A step keeps a consumer at its feed

A link relays a feed when the log of the link is what was sent and what still waits
to be sent, and its consumer stands where the feed is cut. Every action keeps this:
a flush moves what waited to the end of the feed, an update moves the cut, and no
other action has a share in either.
-/

namespace Framecast

/-- Whether a consumer follows a feed, or the feed is empty where there is none. -/
def Feed.Reaches (f : Feed) : Option Connection → Prop
  | some c => c.Follows f
  | none => f = .empty

theorem Feed.ignoresFrames_reaches (f : Feed) : Broadcast.IgnoresFrames f.Reaches :=
  fun _ _ _ heq h => ⟨h.mirrors, h.parked, h.carries.of_transit heq⟩

namespace Broadcast

variable {b b' : Broadcast} {j k : Nat} {f f' : Feed} {action : Action}

/-- What a flush makes of a link: what waits is kept, or it is sent as a whole. -/
theorem step_flush {link : Link} {underway : List Outgoing}
    (hlink : b.registry.links[k]? = some link) (hcarries : link.wire.Carries underway) :
    ∃ link', (b.step .flush).2.registry.links[k]? = some link' ∧
      (link'.outbox = link.outbox ∧ link'.wire.Carries underway ∨
        link'.outbox = #[] ∧ link'.wire.Carries (underway ++ link.outbox.toList)) ∧
      ((b.step .flush).1 = .done → link'.outbox = #[]) := by
  have hbefore : ∀ retired, b.registry.processAcks.Reframed retired → ∃ mid : Link,
      retired.links[k]? = some mid ∧ mid.outbox = link.outbox ∧ mid.wire.Carries underway := by
    intro retired hretired
    have hmid := congrArg (·[k]?) hretired.course
    simp only [List.getElem?_map, hlink, Option.map_some] at hmid
    obtain ⟨mid, hmid, heq⟩ := Option.map_eq_some_iff.mp hmid
    have houtbox : mid.course.outbox = link.course.outbox := congrArg Link.outbox heq
    have htransit : mid.course.wire = link.course.wire := congrArg Link.wire heq
    exact ⟨mid, hmid, houtbox, hcarries.of_transit htransit⟩
  have hsent : ∀ retired, b.registry.processAcks.Reframed retired → ∃ link',
      (Registry.flushLinks retired.links).1[k]? = some link' ∧
      (link'.outbox = link.outbox ∧ link'.wire.Carries underway ∨
        link'.outbox = #[] ∧ link'.wire.Carries (underway ++ link.outbox.toList)) ∧
      ((Registry.flushLinks retired.links).2 = none → link'.outbox = #[]) := by
    intro retired hretired
    obtain ⟨mid, hmid, houtbox, hmidcarries⟩ := hbefore retired hretired
    obtain ⟨link', hlink', ⟨rfl, hnone⟩ | ⟨rfl, hnone⟩⟩ := Registry.getElem?_flushLinks hmid
    · exact ⟨_, hlink', .inl ⟨houtbox, hmidcarries⟩, hnone⟩
    · obtain ⟨hflushed, hempty⟩ := Registry.flushed_flushLink hmidcarries
      refine ⟨_, hlink', ?_, fun h => hempty (hnone h)⟩
      generalize (Registry.flushLink mid).1 = after at hflushed
      cases hflushed with
      | kept => exact .inl ⟨houtbox, hmidcarries⟩
      | sent hcarried _ _ => exact .inr ⟨rfl, houtbox ▸ hcarried⟩
  have hends := (onRegistry_ends (Registry.ends_flush b.registry) fun _ => .done).1
  rcases hends with ⟨_, hanswer, retired, hretired, hnone, hafter⟩ |
      ⟨e, hanswer, retired, hretired, hafter | hafter⟩
  · obtain ⟨link', hlink', hcases, hempty⟩ := hsent retired hretired
    refine ⟨link', ?_, hcases, fun _ => hempty hnone⟩
    rw [← hlink']
    exact congrArg (fun r : Registry => r.links[k]?) hafter
  · obtain ⟨mid, hmid, houtbox, hmidcarries⟩ := hbefore retired hretired
    refine ⟨mid, ?_, .inl ⟨houtbox, hmidcarries⟩, fun hdone => ?_⟩
    · rw [← hmid]
      exact congrArg (fun r : Registry => r.links[k]?) hafter
    · cases hanswer.symm.trans hdone
  · obtain ⟨link', hlink', hcases, -⟩ := hsent retired hretired
    refine ⟨link', ?_, hcases, fun hdone => ?_⟩
    · rw [← hlink']
      exact congrArg (fun r : Registry => r.links[k]?) hafter
    · cases hanswer.symm.trans hdone

/-- A link relays a feed to its consumer. -/
structure Relays (b : Broadcast) (k : Nat) (f : Feed) : Prop where
  /-- Every link has a replica at its far end. -/
  sizes : b.replicas.size = b.registry.links.length
  /-- Every live resource is bound to links that there are, and to each of them once. -/
  linked : b.registry.IsLinked
  /-- The log of the link is what was sent and what waits to be sent. -/
  logs : b.registry.Logs k (f.sent ++ b.registry.outboxAt k)
  /-- The consumer stands where the feed is cut. -/
  follows : ∀ c, b.connection? k = some c → c.Follows f
  /-- Nothing is sent over a link that there is not. -/
  unopened : b.registry.links.length ≤ k → f = .empty

/-- A link that relays a feed serves a consumer that the feed reaches. -/
theorem Relays.serves (h : b.Relays k f) : b.Serves k f.sent f.Reaches := by
  refine ⟨h.sizes, h.linked, h.logs, ?_⟩
  cases hc : b.connection? k with
  | none =>
    apply h.unopened
    by_contra hk
    have hlink : k < b.registry.links.length := Nat.lt_of_not_le hk
    unfold connection? at hc
    rw [List.getElem?_eq_getElem hlink, Array.getElem?_eq_getElem (h.sizes ▸ hlink)] at hc
    cases hc
  | some c => exact h.follows c hc

/-- A link that serves a consumer that a feed reaches relays the feed. -/
theorem Serves.relays (h : b.Serves k f.sent f.Reaches) : b.Relays k f := by
  refine ⟨h.sizes, h.linked, h.logs, fun c hc => ?_, fun hk => ?_⟩
  · have hconsumer := h.consumer
    rwa [hc] at hconsumer
  · have hconsumer := h.consumer
    rwa [h.connection?_eq_none.mpr hk] at hconsumer

namespace Relays

/-- An action in which no resource shows a difference keeps the relay if the log stays the same and
the consumer keeps up. -/
theorem external (h : b.Relays k f) (hsame : b.registry.SameBodies b'.registry)
    (hsizes : b'.replicas.size = b.replicas.size)
    (hlength : b'.registry.links.length = b.registry.links.length)
    (hlog : f'.sent ++ b'.registry.outboxAt k = f.sent ++ b.registry.outboxAt k)
    (hfollows : ∀ c, b'.connection? k = some c → c.Follows f')
    (hunopened : b.registry.links.length ≤ k → f' = f) : b'.Relays k f' := by
  refine ⟨by rw [hsizes, hlength, h.sizes], hsame.isLinked hlength.ge h.linked, ?_, hfollows, ?_⟩
  · rw [hlog]
    exact h.logs.of_body hsame.issued.ge hsame.resources
  · intro hk
    rw [hlength] at hk
    rw [hunopened hk, h.unopened hk]

theorem internal (h : b.Relays k f) (hinternal : action.isInternal = true)
    (hc : action.IsCompiled) (hw : b.registry.WellFormed)
    (hl : (b.step action).2.registry.supply.Lasts) : (b.step action).2.Relays k f :=
  (h.serves.internal f.ignoresFrames_reaches hinternal hc hw hl).relays

theorem connect (h : b.Relays k f) (thread : Thread) : (b.step (.connect thread)).2.Relays k f := by
  apply (h.serves.connect thread ?_).relays
  rintro capacity wire hwire (rfl : f = .empty)
  exact ⟨Replica.mirrors_create thread, rfl, Wire.carries_create hwire⟩

theorem commit (h : b.Relays k f) : (b.step .commit).2.Relays k f :=
  (h.serves.commit f.ignoresFrames_reaches).relays

/-- An action that has no share in the link or in its consumer keeps the relay. -/
theorem beside (h : b.Relays k f) (hsame : b.registry.SameBodies b'.registry)
    (hsizes : b'.replicas.size = b.replicas.size)
    (hlength : b'.registry.links.length = b.registry.links.length)
    (hlink : b'.registry.links[k]? = b.registry.links[k]?)
    (hreplica : b'.replicas[k]? = b.replicas[k]?) : b'.Relays k f :=
  (h.serves.beside hsame hsizes hlength hlink hreplica).relays

/-- An operation of another consumer keeps the relay. -/
theorem onConnection {α : Type} (h : b.Relays k f) (hjk : j ≠ k) (m : ConnectionM α) :
    (b.onConnection j m).2.Relays k f := by
  rcases b.onConnection_cases j m with ⟨-, heq⟩ | ⟨c, -, ⟨_, after, -, heq⟩ | ⟨_, after, -, heq⟩⟩
  · rw [heq]
    exact h
  · rw [heq]
    exact (h.serves.setConnection_of_ne hjk after).relays
  · rw [heq]
    exact (h.serves.setConnection_of_ne hjk after).relays

/-- The consumer of the link may do something that keeps its resources and sends nothing. -/
theorem setConnection (h : b.Relays k f) {c after : Connection} (hc : b.connection? k = some c)
    (hafter : after.Follows f') (hsent : f'.sent = f.sent) :
    (b.setConnection k after).Relays k f' := by
  have hserves : (b.setConnection k after).Serves k f.sent f'.Reaches :=
    h.serves.setConnection hc hafter
  rw [← hsent] at hserves
  exact hserves.relays

/-- A flush leaves what waits or sends all of it, and sends all of it if it succeeds. -/
theorem outboxAt_flush (h : b.Relays k f) :
    ((b.step .flush).2.registry.outboxAt k = b.registry.outboxAt k ∨
        (b.step .flush).2.registry.outboxAt k = []) ∧
      ((b.step .flush).1 = .done → (b.step .flush).2.registry.outboxAt k = []) := by
  cases hlink : b.registry.links[k]? with
  | none =>
    have hk : b.registry.links.length ≤ k := List.getElem?_eq_none_iff.mp hlink
    have hout : (b.step .flush).2.registry.outboxAt k = [] :=
      Registry.outboxAt_of_le (by rwa [b.length_flush])
    exact ⟨.inr hout, fun _ => hout⟩
  | some link =>
    obtain ⟨hk, -⟩ := List.getElem?_eq_some_iff.mp hlink
    obtain ⟨replica, hreplica⟩ : ∃ replica, b.replicas[k]? = some replica :=
      ⟨_, Array.getElem?_eq_getElem (h.sizes ▸ hk)⟩
    have hfollows := h.follows _ (connection?_eq_some.mpr ⟨replica, link, hreplica, hlink, rfl⟩)
    obtain ⟨link', hlink', hcases, hdone⟩ := step_flush hlink hfollows.carries
    unfold Registry.outboxAt
    rw [hlink, hlink']
    refine ⟨?_, fun h => congrArg Array.toList (hdone h)⟩
    rcases hcases with ⟨heq, -⟩ | ⟨heq, -⟩
    · exact .inl (congrArg Array.toList heq)
    · exact .inr (congrArg Array.toList heq)

/-- A flush keeps the relay, and what it sends goes to the end of the feed. -/
theorem flush (h : b.Relays k f) : (b.step .flush).2.Relays k
    (if (b.step .flush).2.registry.outboxAt k = [] then f.send (b.registry.outboxAt k) else f) := by
  have hsame : b.registry.SameBodies (b.step .flush).2.registry := sameBodies_step rfl
  have hreplicas : (b.step .flush).2.replicas = b.replicas := replicas_onRegistry _ _ _
  have hlength : (b.step .flush).2.registry.links.length = b.registry.links.length :=
    length_flush b
  cases hlink : b.registry.links[k]? with
  | none =>
    have hk : b.registry.links.length ≤ k := List.getElem?_eq_none_iff.mp hlink
    have hkept : (if (b.step .flush).2.registry.outboxAt k = [] then
        f.send (b.registry.outboxAt k) else f) = f := by
      rw [Registry.outboxAt_of_le hk, Feed.send_nil, ite_self]
    rw [hkept]
    apply h.beside hsame (by rw [hreplicas]) hlength
    · rw [hlink]
      exact List.getElem?_eq_none (by rwa [hlength])
    · rw [hreplicas]
  | some link =>
    obtain ⟨hk, -⟩ := List.getElem?_eq_some_iff.mp hlink
    obtain ⟨replica, hreplica⟩ : ∃ replica, b.replicas[k]? = some replica :=
      ⟨_, Array.getElem?_eq_getElem (h.sizes ▸ hk)⟩
    have hfollows := h.follows _ (connection?_eq_some.mpr ⟨replica, link, hreplica, hlink, rfl⟩)
    obtain ⟨link', hlink', hcases, -⟩ := step_flush hlink hfollows.carries
    have hout := Registry.outboxAt_of_getElem? hlink
    have hout' := Registry.outboxAt_of_getElem? hlink'
    rw [hout, hout']
    apply h.external hsame (by rw [hreplicas]) hlength
    · rw [hout, hout']
      split
      · rename_i hempty
        rw [hempty, Feed.sent_send, List.append_nil]
      · rename_i hne
        rcases hcases with ⟨heq, -⟩ | ⟨heq, -⟩
        · rw [heq]
        · rw [heq] at hne
          exact absurd rfl hne
    · intro c hc
      obtain ⟨_, link'', hreplica', hlink'', rfl⟩ := connection?_eq_some.mp hc
      rw [hreplicas, hreplica] at hreplica'
      rw [hlink'] at hlink''
      cases hreplica'
      cases hlink''
      rcases hcases with ⟨heq, hcarries⟩ | ⟨heq, hcarries⟩
      · have hkept : (if link'.outbox.toList = [] then f.send link.outbox.toList else f) = f := by
          rw [heq]
          split
          · rename_i hempty
            rw [hempty, Feed.send_nil]
          · rfl
        rw [hkept]
        exact ⟨hfollows.mirrors, hfollows.parked, hcarries⟩
      · rw [if_pos (by rw [heq])]
        exact ⟨hfollows.mirrors, hfollows.parked, hcarries⟩
    · exact fun hle => absurd hk (Nat.not_lt.mpr hle)

end Relays

end Broadcast

end Framecast
