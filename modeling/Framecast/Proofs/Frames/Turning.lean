import Framecast.Proofs.Feed.Relay
import Framecast.Proofs.Frames.Wiring
import Framecast.Proofs.Run.Shifting

/-!
# How the snapshots turn

A commit puts what is posted in the write slots and hands these over, a flush puts
final bytes there and hands nothing over, and an update takes over for the reader
what was handed over last. Nothing else turns the slots of a link or overwrites
any, so in every run every buffer has one owner.
-/

namespace Framecast

namespace Registry

variable {r r' : Registry} {k i s : Nat} {p : Post}

theorem mem_postings_of_commit (h : p ∈ r.commitPosts) : p ∈ r.postings :=
  List.mem_append_left _ h

theorem mem_postings_of_flush (h : p ∈ r.flushPosts) : p ∈ r.postings :=
  List.mem_append_right _ h

/-- The snapshots of a link after some were posted on several links. -/
theorem framesAt_on (r : Registry) (posts : List Post) (k : Nat) :
    ({ r with links := posts.foldl Post.on r.links } : Registry).framesAt k =
      (posts.foldl post r).framesAt k := by
  rw [foldl_post_eq]

theorem lt_of_allocated (h : i < (r.framesAt k).buffers.size) : k < r.links.length := by
  by_contra hk
  rw [framesAt_of_le (Nat.le_of_not_lt hk)] at h
  cases h

namespace IsWired

/-- What a commit posts goes elsewhere than what a flush posts. -/
theorem posts_apart (h : r.IsWired) {q : Post} (hp : p ∈ r.commitPosts)
    (hq : q ∈ r.flushPosts) : p.cell ≠ q.cell := by
  have hnodup : ((r.commitPosts ++ r.flushPosts).map Post.cell).Nodup :=
    Multiset.coe_nodup.mp (Multiset.nodup_of_le r.cells_postings h.apart)
  rw [List.map_append, List.nodup_append] at hnodup
  exact hnodup.2.2 _ (List.mem_map_of_mem hp) _ (List.mem_map_of_mem hq)

/-- What is posted is in the write slot afterwards. -/
theorem slotAt_posted (h : r.IsWired) {posts : List Post} (hposts : ∀ q ∈ posts, q ∈ r.postings)
    (hp : p ∈ posts) :
    (posts.foldl post r).slotAt p.link p.buffer (r.framesAt p.link).flags.writeSlot = p.bytes := by
  have hallocated := h.allocated (hposts p hp)
  refine slotAt_foldl_post_of_mem (fun q hq => h.fits (hposts q hq)) (lt_of_allocated hallocated)
    (h.turning p.link).write hallocated hp ?_
  intro q hq hlink hbuffer
  rw [h.eq_of_cell (hposts q hq) (hposts p hp) (Prod.ext hlink hbuffer)]

/-- Everything else is as it was. -/
theorem slotAt_unposted (h : r.IsWired) {posts : List Post}
    (hposts : ∀ q ∈ posts, q ∈ r.postings) (hi : i < (r.framesAt k).buffers.size)
    (hnot : s = (r.framesAt k).flags.writeSlot → ∀ q ∈ posts, q.cell ≠ (k, i)) :
    (posts.foldl post r).slotAt k i s = r.slotAt k i s := by
  have hfits : ∀ q ∈ posts, r.Fits q := fun q hq => h.fits (hposts q hq)
  by_cases hs : s = (r.framesAt k).flags.writeSlot
  · apply slotAt_foldl_post_of_not_mem hfits (lt_of_allocated hi) (h.turning k).write hi
    exact fun q hq hcell => hnot hs q hq (Prod.ext hcell.1 hcell.2)
  · exact slotAt_foldl_post_of_ne hfits (lt_of_allocated hi) (h.turning k).write hi hs

end IsWired

/-- A commit posts and hands over, link by link. -/
theorem framesAt_committed (h : r.IsWired) (hk : k < r.links.length) :
    r.committed.framesAt k = ((r.commitPosts.foldl post r).framesAt k).publish := by
  have hshape := sameShape_foldl_post fun p hp => h.fits (mem_postings_of_commit hp)
  obtain ⟨link, hlink⟩ : ∃ link, (r.commitPosts.foldl post r).links[k]? = some link :=
    ⟨_, List.getElem?_eq_getElem (by rw [hshape.links]; exact hk)⟩
  have hcommitted : (r.commitPosts.foldl Post.on r.links)[k]? = some link := by
    rw [← hlink, foldl_post_eq]
  unfold committed framesAt
  rw [hlink, List.getElem?_map, hcommitted]
  rfl

/-- There are as many links after a commit. -/
theorem length_committed (h : r.IsWired) : r.committed.links.length = r.links.length := by
  have hshape := sameShape_foldl_post fun p hp => h.fits (mem_postings_of_commit hp)
  have hlinks := hshape.links
  rw [foldl_post_eq] at hlinks
  unfold committed
  rw [List.length_map]
  exact hlinks

/-- A commit hands the write slot of every link over. -/
theorem flags_committed (h : r.IsWired) (hk : k < r.links.length) :
    (r.committed.framesAt k).flags = (r.framesAt k).flags.publish := by
  have hshape := sameShape_foldl_post fun p hp => h.fits (mem_postings_of_commit hp)
  rw [framesAt_committed h hk]
  exact congrArg Snapshot.Flags.publish (hshape.flags k)

/-- What a commit posts is all that it overwrites. -/
theorem slotAt_committed (h : r.IsWired) (hk : k < r.links.length) (i s : Nat) :
    r.committed.slotAt k i s = (r.commitPosts.foldl post r).slotAt k i s := by
  unfold slotAt
  rw [framesAt_committed h hk]
  rfl

/-- The retired buffers that a commit lets go of. -/
def finished (r : Registry) : List RetiredBuffer :=
  (r.retired.toList.map r.refreshed).filter (·.written.isFull)

/-- A commit keeps all claims but those of the buffers that it lets go of. -/
theorem claims_committed (r : Registry) :
    r.claims = r.committed.claims + (r.finished.map RetiredBuffer.claim : List _) := by
  have hperm := (List.filter_append_perm (fun f : RetiredBuffer => !f.written.isFull)
    (r.retired.toList.map r.refreshed)).map RetiredBuffer.claim
  have hretired : (r.retired.toList.map r.refreshed).map RetiredBuffer.claim =
      r.retired.toList.map RetiredBuffer.claim := by
    rw [List.map_map]
    rfl
  have hsplit := Multiset.coe_eq_coe.mpr hperm
  rw [hretired, List.map_append, ← Multiset.coe_add] at hsplit
  simp only [Bool.not_not] at hsplit
  unfold claims
  rw [← hsplit, ← add_assoc]
  rfl

/-- Nobody claims a buffer that a commit lets go of. -/
theorem IsWired.free_of_finished (h : r.IsWired) {f : RetiredBuffer} (hf : f ∈ r.finished) :
    ∀ c ∈ r.committed.claims, c.cell ≠ f.claim.cell := by
  have hnodup := h.apart
  rw [claims_committed, Multiset.map_add, Multiset.nodup_add] at hnodup
  intro c hc hcell
  have hmem : c.cell ∈ Multiset.map Claim.cell (r.finished.map RetiredBuffer.claim : List _) := by
    rw [hcell]
    exact Multiset.mem_map_of_mem _ (Multiset.mem_coe.mpr (List.mem_map_of_mem hf))
  exact Multiset.disjoint_left.mp hnodup.2.2 (Multiset.mem_map_of_mem _ hc) hmem

/-- After a commit every buffer has one owner. -/
theorem IsWired.committed (h : r.IsWired) : r.committed.IsWired := by
  have hshape := sameShape_foldl_post fun p hp => h.fits (mem_postings_of_commit hp)
  have hframes (k : Nat) (hk : r.links.length ≤ k) :
      r.committed.framesAt k = r.framesAt k := by
    rw [framesAt_of_le hk, framesAt_of_le (by rwa [length_committed h])]
  apply h.mono
  · rw [r.claims_committed]
    exact Multiset.le_add_right _ _
  · intro k
    rcases Nat.lt_or_ge k r.links.length with hk | hk
    · rw [framesAt_committed h hk]
      exact hshape.size k
    · rw [hframes k hk]
  · intro k i
    rcases Nat.lt_or_ge k r.links.length with hk | hk
    · rw [framesAt_committed h hk]
      exact hshape.length k i
    · rw [hframes k hk]
  · intro k
    rcases Nat.lt_or_ge k r.links.length with hk | hk
    · unfold Snapshot.FrameLink.IsRotation
      rw [flags_committed h hk]
      exact (h.turning k).publish
    · rw [hframes k hk]
      exact h.turning k

/-- The retiring hands every claim on. -/
theorem claims_retiring (r : Registry) : r.retiring.claims = r.claims := by
  have hclaims : (r.disposed.toList.map r.refreshed).map RetiredBuffer.claim =
      r.disposed.toList.map RetiredBuffer.claim := by
    rw [List.map_map]
    rfl
  unfold claims Registry.retiring
  simp only [Array.toList_append, List.map_append, hclaims, ← Multiset.coe_add]
  simp only [List.map_nil, Multiset.coe_nil]
  abel

/-- After the retiring every buffer has one owner. -/
theorem IsWired.retiring (h : r.IsWired) : r.retiring.IsWired := by
  have hshape := sameShape_foldl_post fun p hp => h.fits (mem_postings_of_flush hp)
  have hframes (k : Nat) : r.retiring.framesAt k = (r.flushPosts.foldl post r).framesAt k :=
    framesAt_on r r.flushPosts k
  apply h.mono r.claims_retiring.le
  · intro k
    rw [hframes]
    exact hshape.size k
  · intro k i
    rw [hframes]
    exact hshape.length k i
  · intro k
    unfold Snapshot.FrameLink.IsRotation
    rw [hframes, hshape.flags]
    exact h.turning k

/-- What is put on a wire touches neither snapshots nor answers. -/
theorem untouched_deliverAll (wire : Wire) (thread : Thread) (ds : List Delivery) :
    (wire.deliverAll thread ds).1.frames = wire.frames ∧
      (wire.deliverAll thread ds).1.acks = wire.acks := by
  induction ds generalizing wire with
  | nil => exact ⟨rfl, rfl⟩
  | cons d rest ih =>
    unfold Wire.deliverAll
    split
    · rename_i after hd
      obtain ⟨hframes, hacks⟩ := ih after
      unfold Wire.deliver at hd
      split at hd
      · split at hd
        · cases hd
          exact ⟨hframes, hacks⟩
        · cases hd
      · split at hd
        · cases hd
          exact ⟨hframes, hacks⟩
        · cases hd
    · exact ⟨rfl, rfl⟩

/-- Sending outboxes touches neither snapshots nor answers. -/
theorem untouched_flushLinks (links : List Link) :
    (flushLinks links).1.map (fun link => (link.wire.frames, link.wire.acks)) =
      links.map fun link => (link.wire.frames, link.wire.acks) := by
  have hone (link : Link) :
      ((flushLink link).1.wire.frames, (flushLink link).1.wire.acks) =
        (link.wire.frames, link.wire.acks) := by
    unfold flushLink
    split
    · rfl
    · obtain ⟨hframes, hacks⟩ := untouched_deliverAll link.wire link.thread
        (link.outbox.toList.flatMap Outgoing.deliveries)
      exact Prod.ext hframes hacks
  induction links with
  | nil => rfl
  | cons link rest ih =>
    unfold flushLinks
    split
    · exact congrArg (_ :: ·) ih
    · have hlink := hone link
      split
      · rename_i hflush
        rw [hflush] at hlink
        exact congrArg (· :: _) hlink
      · rename_i hflush
        rw [hflush] at hlink
        exact congrArg₂ (· :: ·) hlink ih

/-- Sending outboxes touches no snapshot. -/
theorem frames_flushLinks (links : List Link) :
    (flushLinks links).1.map (·.wire.frames) = links.map (·.wire.frames) := by
  have h := congrArg (List.map Prod.fst) (untouched_flushLinks links)
  rw [List.map_map, List.map_map] at h
  exact h

theorem IsWired.processAcks (h : r.IsWired) : r.processAcks.IsWired :=
  h.congr (quiet_processAcks r).claims (quiet_processAcks r).framesAt

/-- However a flush ends, final bytes were posted, and the rest is about outboxes. -/
theorem ends_flush_of_wired (h : r.IsWired) :
    Ends flush r
      (fun _ after => ∃ links, after = { r.processAcks.retiring with links } ∧
        links.map (·.wire.frames) = r.processAcks.retiring.links.map (·.wire.frames))
      (fun _ after => ∃ links, after = { r.processAcks.retiring with links } ∧
        links.map (·.wire.frames) = r.processAcks.retiring.links.map (·.wire.frames)) := by
  unfold flush
  rw [Ends.bind_iff, Ends.modify_iff, Ends.bind_iff]
  apply (ends_retireDisposed fun p hp =>
    h.processAcks.fits (mem_postings_of_flush hp)).imp
  · rintro _ retired rfl
    simp only [Ends.bind_iff, Ends.get_iff, Ends.modify_iff]
    have hframes := frames_flushLinks r.processAcks.retiring.links
    split <;> exact ⟨_, rfl, hframes⟩
  · exact fun _ _ h => h.elim

end Registry

/-- However an update ends, the reader has taken over what was handed over last. -/
theorem Connection.ends_update_frames (tick : Tick) (c : Connection) :
    Ends (update tick) c (fun _ after => after.wire.frames = c.wire.frames.pickUp.2)
      (fun _ after => after.wire.frames = c.wire.frames.pickUp.2) := by
  apply (ends_update_wire tick c).imp
  · rintro _ after ⟨acks, hwire⟩
    rw [hwire]
  · rintro _ after ⟨acks, hwire⟩
    rw [hwire]

namespace Broadcast

variable {b : Broadcast} {action : Action} {j k : Nat}

/-- Putting a connection back changes the snapshots of its link only. -/
theorem framesAt_setConnection (b : Broadcast) (j k : Nat) (c : Connection) :
    (b.setConnection j c).registry.framesAt k =
      if j = k ∧ k < b.registry.links.length then c.wire.frames else b.registry.framesAt k := by
  unfold setConnection Registry.modifyLink Registry.framesAt
  simp only [List.getElem?_modify]
  by_cases hjk : j = k
  · cases hlink : b.registry.links[k]? with
    | none =>
      have hk : ¬k < b.registry.links.length := Nat.not_lt.mpr (List.getElem?_eq_none_iff.mp hlink)
      simp [hk]
    | some link =>
      have hk := (List.getElem?_eq_some_iff.mp hlink).1
      simp [hjk, hk]
  · simp [hjk]

/-- The snapshots of a connection are those of its link. -/
theorem framesAt_of_connection? {c : Connection} (h : b.connection? k = some c) :
    k < b.registry.links.length ∧ b.registry.framesAt k = c.wire.frames := by
  obtain ⟨replica, link, -, hlink, rfl⟩ := connection?_eq_some.mp h
  refine ⟨(List.getElem?_eq_some_iff.mp hlink).1, ?_⟩
  unfold Registry.framesAt
  rw [hlink]

/-- An update takes over what was handed over last on its link, and nothing elsewhere. -/
theorem framesAt_update (b : Broadcast) (j k : Nat) (tick : Tick) :
    (b.step (.update j tick)).2.registry.framesAt k =
      if j = k ∧ (b.connection? k).isSome then (b.registry.framesAt k).pickUp.2
      else b.registry.framesAt k := by
  show (b.onConnection j (Connection.update tick)).2.registry.framesAt k = _
  have hset {c after : Connection} (hc : b.connection? j = some c)
      (hafter : after.wire.frames = c.wire.frames.pickUp.2) :
      (b.setConnection j after).registry.framesAt k =
        if j = k ∧ (b.connection? k).isSome then (b.registry.framesAt k).pickUp.2
        else b.registry.framesAt k := by
    obtain ⟨hj, hframes⟩ := framesAt_of_connection? hc
    rw [framesAt_setConnection]
    by_cases hjk : j = k
    · subst hjk
      rw [if_pos ⟨rfl, hj⟩, if_pos ⟨rfl, by rw [hc]; rfl⟩, hframes]
      exact hafter
    · rw [if_neg (fun h => hjk h.1), if_neg (fun h => hjk h.1)]
  rcases b.onConnection_cases j (Connection.update tick) with
    ⟨hnone, heq⟩ | ⟨c, hc, ⟨_, after, hrun, heq⟩ | ⟨_, after, hrun, heq⟩⟩
  · rw [heq, if_neg]
    rintro ⟨rfl, hsome⟩
    rw [hnone] at hsome
    cases hsome
  · rw [heq]
    exact hset hc ((Connection.ends_update_frames tick c).of_ok hrun)
  · rw [heq]
    exact hset hc ((Connection.ends_update_frames tick c).of_error hrun)

/-- Claims do not change in an operation of a consumer. -/
theorem claims_onConnection {α : Type} (b : Broadcast) (k : Nat) (m : ConnectionM α) :
    (b.onConnection k m).2.registry.claims = b.registry.claims := by
  unfold onConnection
  split
  · rfl
  · split <;> rfl

/-- Installing a loader, setting the tick, opening a link and hanging up leave the snapshots of
every link there was alone. -/
theorem framesAt_step (h : action.isInternal = false) (hcommit : action ≠ .commit)
    (hflush : action ≠ .flush) (hupdate : ∀ j tick, action ≠ .update j tick) :
    (b.step action).2.registry.claims = b.registry.claims ∧
      ∀ k, (b.step action).2.registry.framesAt k = b.registry.framesAt k := by
  cases action with
  | setTick tick => exact ⟨rfl, fun _ => rfl⟩
  | connect thread =>
    rcases b.step_connect thread with ⟨wire, hwire, hstep⟩ | ⟨e, hstep⟩
    · rw [hstep]
      refine ⟨rfl, fun k => ?_⟩
      have hframes := Wire.frames_create hwire
      unfold Registry.framesAt
      rcases Nat.lt_or_ge k b.registry.links.length with hk | hk
      · simp only [List.getElem?_append_left hk]
      · simp only [List.getElem?_append_right hk, List.getElem?_eq_none hk]
        cases k - b.registry.links.length with
        | zero => exact hframes
        | succ n => rfl
    · rw [hstep]
      exact ⟨rfl, fun _ => rfl⟩
  | registerLoader j type loader =>
    refine ⟨claims_onConnection b j _, fun k => ?_⟩
    show (b.onConnection j
      (modify fun c => c.mapReplica (·.registerLoader type loader))).2.registry.framesAt k = _
    rcases b.onConnection_cases j
        (modify fun c => c.mapReplica (·.registerLoader type loader)) with
      ⟨-, heq⟩ | ⟨c, hc, ⟨_, after, hrun, heq⟩ | ⟨_, _, hrun, -⟩⟩
    · rw [heq]
    · cases hrun
      rw [heq, framesAt_setConnection]
      split
      · rename_i hjk
        exact (hjk.1 ▸ (framesAt_of_connection? hc).2).symm
      · rfl
    · cases hrun
  | hangUp j =>
    refine ⟨rfl, fun k => Registry.framesAt_congr ?_⟩
    show ((b.registry.links.modify j _)[k]?).map _ = _
    rw [List.getElem?_modify]
    cases b.registry.links[k]? with
    | none => rfl
    | some link =>
      by_cases hjk : j = k
      · simp [hjk, Wire.hangUp]
      · simp [hjk]
  | commit => exact absurd rfl hcommit
  | flush => exact absurd rfl hflush
  | update j tick => exact absurd rfl (hupdate j tick)
  | registerType | createOpaque | createInstance | createString | createBuffer | retain |
    dispose | setProp | setPropFromScript | await | processAcks | elsewhere => cases h

/-- An action that goes over the wires, but no commit and no flush, leaves the snapshots of a link as
they were or picks up what was handed over on it. -/
theorem framesAt_step_or (h : action.isInternal = false) (hcommit : action ≠ .commit)
    (hflush : action ≠ .flush) (k : Nat) :
    (b.step action).2.registry.framesAt k = b.registry.framesAt k ∨
      (b.step action).2.registry.framesAt k = (b.registry.framesAt k).pickUp.2 := by
  by_cases hupdate : ∃ j tick, action = .update j tick
  · obtain ⟨j, tick, rfl⟩ := hupdate
    rw [framesAt_update]
    split
    · exact .inr rfl
    · exact .inl rfl
  · exact .inl ((framesAt_step h hcommit hflush fun j tick heq => hupdate ⟨j, tick, heq⟩).2 k)

/-- A commit of a wired registry succeeds and leaves it committed. -/
theorem step_commit (h : b.registry.IsWired) :
    b.step .commit = (.done, { b with registry := b.registry.committed }) := by
  show b.onRegistry Registry.commit (fun _ => .done) = _
  have hends := Registry.ends_commit fun p hp => h.fits (Registry.mem_postings_of_commit hp)
  unfold onRegistry
  cases hrun : Registry.commit.run b.registry with
  | ok a after =>
    have hafter := hends.of_ok hrun
    dsimp only
    rw [hafter]
  | error e after => exact (hends.of_error hrun).elim

/-- A flush of a wired registry retires what was set aside, and the rest is about outboxes. -/
theorem step_flush_eq (h : b.registry.IsWired) : ∃ links,
    (b.step .flush).2.registry = { b.registry.processAcks.retiring with links } ∧
      links.map (·.wire.frames) = b.registry.processAcks.retiring.links.map (·.wire.frames) :=
  onRegistry_after (P := fun after => ∃ links,
    after = { b.registry.processAcks.retiring with links } ∧
      links.map (·.wire.frames) = b.registry.processAcks.retiring.links.map (·.wire.frames))
    (Registry.ends_flush_of_wired h) _

/-- The snapshots after a flush are those after the retiring. -/
theorem framesAt_flush (h : b.registry.IsWired) (k : Nat) :
    (b.step .flush).2.registry.framesAt k = b.registry.processAcks.retiring.framesAt k := by
  obtain ⟨links, heq, hframes⟩ := step_flush_eq h
  rw [heq]
  apply Registry.framesAt_congr
  rw [← List.getElem?_map, ← List.getElem?_map]
  exact congrArg (·[k]?) hframes

/-- An action that concerns the producer alone keeps every buffer. -/
theorem keepsBuffers_step (hinternal : action.isInternal = true) (hkeyed : b.registry.IsKeyed) :
    b.registry.KeepsBuffers (b.step action).2.registry ∧
      (b.registry.IsWired → (b.step action).2.registry.IsWired) := by
  by_cases helsewhere : ∃ drawn pool, action = .elsewhere drawn pool
  · obtain ⟨drawn, pool, rfl⟩ := helsewhere
    have hquiet := b.quiet_elsewhere drawn pool
    exact ⟨.of_quiet hquiet, fun hwired => hwired.congr hquiet.claims hquiet.framesAt⟩
  · exact (shifts_step hinternal fun drawn pool heq => helsewhere ⟨drawn, pool, heq⟩).keepsBuffers
      hkeyed

/-- Every action leaves every buffer one owner. -/
theorem isWired_step (h : b.registry.IsWired) (hkeyed : b.registry.IsKeyed) (action : Action) :
    (b.step action).2.registry.IsWired := by
  cases hinternal : action.isInternal with
  | true => exact (keepsBuffers_step hinternal hkeyed).2 h
  | false =>
    by_cases hcommit : action = .commit
    · subst hcommit
      rw [step_commit h]
      exact Registry.IsWired.committed h
    · by_cases hflush : action = .flush
      · subst hflush
        have hretiring := Registry.IsWired.retiring h.processAcks
        obtain ⟨links, heq, -⟩ := step_flush_eq h
        refine hretiring.congr ?_ (framesAt_flush h)
        rw [heq]
        rfl
      · by_cases hupdate : ∃ j tick, action = .update j tick
        · obtain ⟨j, tick, rfl⟩ := hupdate
          have hframes := b.framesAt_update j
          refine h.mono (claims_onConnection b j _).le ?_ ?_ ?_
          · intro k
            rw [hframes k tick]
            split <;> rfl
          · intro k i
            rw [hframes k tick]
            split <;> rfl
          · intro k
            rw [hframes k tick]
            split
            · exact Snapshot.Flags.IsRotation.pickUp (h.turning k)
            · exact h.turning k
        · obtain ⟨hclaims, hframes⟩ := framesAt_step (b := b) hinternal hcommit hflush
            fun j tick heq => hupdate ⟨j, tick, heq⟩
          exact h.congr hclaims hframes

end Broadcast

/-- In every run every buffer has one owner. -/
theorem Run.isWired {config : Config} {supply : Supply} {past : List Moment} {b : Broadcast}
    (h : Run (.opened config supply) past b) : b.registry.IsWired := by
  induction h with
  | nil =>
    have hclaims : (Broadcast.opened config supply).registry.claims = 0 := rfl
    refine ⟨?_, ?_, fun k => Snapshot.Flags.isRotation_initial⟩
    · rw [hclaims]
      exact Multiset.nodup_zero
    · intro c hc
      rw [hclaims] at hc
      cases Multiset.notMem_zero c hc
  | snoc h action ih => exact Broadcast.isWired_step ih h.isKeyed action

end Framecast
