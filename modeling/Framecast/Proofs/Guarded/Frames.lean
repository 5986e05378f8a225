import Framecast.Proofs.Frames.Turning
import Framecast.Proofs.Guarded.Follows

/-!
# Guarded commits and flushes

In a wired registry every snapshot that is to be written fits a buffer that was
allocated on the link it is written through, and writing some of them leaves this so
for the others. So neither the guards of a commit nor those of a flush ever stop it,
a commit cannot fail at all, and a flush fails only over the sending of an outbox.
-/

namespace Framecast

namespace Registry

variable {r after : Registry} {p : Post}

/-- Whether a snapshot fits a buffer that was allocated on its link. -/
def Accepts (r : Registry) (p : Post) : Prop :=
  r.Fits p ∧ p.buffer < (r.framesAt p.link).buffers.size

theorem SameShape.accepts (h : r.SameShape after) (hp : r.Accepts p) : after.Accepts p :=
  ⟨h.fits hp.1, h.size p.link ▸ hp.2⟩

theorem IsWired.accepts (h : r.IsWired) (hp : p ∈ r.postings) : r.Accepts p :=
  ⟨h.fits hp, h.allocated hp⟩

end Registry

/-- Answers of steps that are followed are collected all the way. -/
theorem Follows.mapM {α β : Type} {P : Registry → Prop} {bad : Registry → Prop}
    {g : α → GuardedM β} {f : α → RegistryM β} {xs : List α} {r : Registry}
    (hstep : ∀ x ∈ xs, ∀ s, P s → Follows (g x) (f x) s (fun _ => P) bad) (h : P r) :
    Follows (xs.mapM g) (xs.mapM f) r (fun _ => P) bad := by
  induction xs generalizing r with
  | nil => exact .of_pure h
  | cons x xs ih =>
    rw [List.mapM_cons, List.mapM_cons]
    refine bind ((hstep x List.mem_cons_self r h).imp (fun _ after hafter => ?_) fun _ h => h)
    exact bind ((ih (fun y hy => hstep y (List.mem_cons_of_mem _ hy)) hafter).imp
      (fun _ _ h => .of_pure h) fun _ h => h)

namespace Guarded

variable {r s : Registry}

/-- A snapshot that is accepted is copied without a fault. -/
theorem follows_copyTo {link buffer : Nat} {bytes : Bytes}
    (h : r.Accepts ⟨link, buffer, bytes⟩) :
    Follows (copyTo link buffer bytes) (Registry.copyTo link buffer bytes) r
      (fun _ after => r.SameShape after) (fun _ => False) := by
  unfold copyTo
  refine .of_guard (run_demandLink (Registry.lt_of_allocated h.2))
    (.of_guard (run_demandBuffer h.2) (.of_plainly ?_))
  refine (Registry.ends_copyTo link buffer bytes r).imp ?_ fun _ _ hbad => hbad.1 h.1
  rintro _ _ ⟨hfits, -, rfl⟩
  exact Registry.sameShape_post hfits

/-- A retired buffer whose final bytes are accepted is written again without a fault. -/
theorem follows_refreshRetired {b : RetiredBuffer} (h : r.Accepts b.post) :
    Follows (refreshRetired b) (Registry.refreshRetired b) r
      (fun _ after => r.SameShape after) (fun _ => False) := by
  unfold refreshRetired Registry.refreshRetired
  exact .bind ((follows_copyTo h).imp (fun _ _ h => .of_pure h) fun _ h => h)

/-- The bytes of a resource are copied without a fault, if they are accepted everywhere. -/
theorem follows_commitResource {res : Resource} (h : ∀ p ∈ res.posts, r.Accepts p) :
    Follows (commitResource res) (Registry.commitResource res) r
      (fun _ after => r.SameShape after) (fun _ => False) := by
  unfold commitResource Registry.commitResource
  cases hs : res.storage with
  | payload p => exact .of_pure (.refl r)
  | fields schema bytes =>
    refine .forM (P := fun after => r.SameShape after) (fun b hb s hs' => ?_) (.refl r)
    cases hdata : b.data? with
    | none => exact .of_pure hs'
    | some buffer =>
      have hpost : (⟨b.link, buffer, bytes⟩ : Post) ∈ res.posts := by
        unfold Resource.posts
        rw [hs]
        exact List.mem_filterMap.mpr ⟨b, hb, by rw [hdata]; rfl⟩
      exact .of_discard ((follows_copyTo (hs'.accepts (h _ hpost))).imp
        (fun _ _ h => hs'.trans h) fun _ h => h)

/-- A wired registry commits without a fault and without fail. -/
theorem follows_commit (h : r.IsWired) :
    Follows commit Registry.commit r (fun _ _ => True) (fun _ => False) := by
  have hposts : ∀ p ∈ r.commitPosts, r.Accepts p :=
    fun p hp => h.accepts (Registry.mem_postings_of_commit hp)
  have hlive : Follows (r.live.forM commitResource) (r.live.forM Registry.commitResource) r
      (fun _ after => r.SameShape after ∧ after.retired = r.retired) (fun _ => False) := by
    have hshape : Follows (r.live.forM commitResource) (r.live.forM Registry.commitResource) r
        (fun _ after => r.SameShape after) (fun _ => False) := by
      refine .forM (P := fun after => r.SameShape after) (fun res hres s hs => ?_) (.refl r)
      refine (follows_commitResource fun p hp => hs.accepts (hposts p ?_)).imp
        (fun _ _ h => hs.trans h) fun _ h => h
      exact List.mem_append_left _ (List.mem_flatMap.mpr ⟨res, hres, hp⟩)
    refine hshape.of_ends (Ends.imp (Ends.and hshape.ends (Registry.ends_forM_commitResource
      fun p hp => (hposts p (List.mem_append_left _ hp)).1)) ?_ fun _ _ h => h.1)
    rintro _ after ⟨hafter, heq⟩
    refine ⟨hafter, ?_⟩
    rw [heq, Registry.foldl_post_eq]
  have hretired (s : Registry) (hs : r.SameShape s ∧ s.retired = r.retired) :
      Follows commitRetired Registry.commitRetired s (fun _ _ => True) (fun _ => False) := by
    unfold commitRetired Registry.commitRetired
    refine .bind (.of_get (.bind ?_))
    rw [hs.2]
    refine (Follows.mapM (P := fun after => r.SameShape after) (fun b hb s hs => ?_) hs.1).imp
      (fun _ _ _ => .of_modify trivial) fun _ h => h
    refine (follows_refreshRetired (hs.accepts (hposts b.post ?_))).imp
      (fun _ _ h => hs.trans h) fun _ h => h
    exact List.mem_append_right _ (List.mem_map_of_mem hb)
  unfold commit Registry.commit
  refine .bind (.of_get (.bind (hlive.imp (fun _ s hs => ?_) fun _ h => h)))
  exact .bind ((hretired s hs).imp (fun _ _ _ => .of_modify trivial) fun _ h => h)

/-- What was set aside is retired without a fault and without fail. -/
theorem follows_retireDisposed (h : r.IsWired) :
    Follows retireDisposed Registry.retireDisposed r (fun _ _ => True) (fun _ => False) := by
  have hposts : ∀ p ∈ r.flushPosts, r.Accepts p :=
    fun p hp => h.accepts (Registry.mem_postings_of_flush hp)
  unfold retireDisposed Registry.retireDisposed
  refine .bind (.of_get (.bind (.of_modify ?_)))
  have hemptied : r.SameShape { r with disposed := #[] } :=
    ⟨rfl, fun _ => rfl, fun _ => rfl, fun _ _ => rfl⟩
  refine (Follows.forM (P := fun after => r.SameShape after) (fun b hb s hs => ?_)
    hemptied).imp (fun _ _ _ => trivial) fun _ h => h
  refine .bind ((follows_refreshRetired (hs.accepts (hposts b.post (List.mem_map_of_mem hb)))).imp
    (fun _ after hafter => .of_modify ?_) fun _ h => h)
  exact (hs.trans hafter).trans ⟨rfl, fun _ => rfl, fun _ => rfl, fun _ _ => rfl⟩

/-- A wired registry flushes without a fault. -/
theorem follows_flush (h : r.IsWired) :
    Follows flush Registry.flush r (fun _ _ => True) (fun _ => True) := by
  unfold flush Registry.flush
  refine .bind (.of_modify (.bind ?_))
  refine (follows_retireDisposed h.processAcks).imp (fun _ retired _ => ?_) fun _ h => h.elim
  refine .bind (.of_get (.bind (.of_modify ?_)))
  cases (Registry.flushLinks retired.links).2 with
  | none => exact .of_pure trivial
  | some e => exact .of_throw trivial

end Guarded

namespace Wire

/-- Why something is not put on the wire that leads to a thread: the ring has no room, or the
consumer is gone. -/
def Refuses (wire : Wire) (thread : Thread) (e : ResourceError) : Prop :=
  e = .transport (.ringFull wire.ring.capacity.toNat) ∨
    wire.receiving = false ∧ e = .disconnected thread

variable {wire : Wire} {thread : Thread} {e : ResourceError}

/-- One thing is put on a wire, which refuses from then on what it refused before, or refused. -/
theorem deliver_cases (wire : Wire) (thread : Thread) (d : Delivery) :
    (∃ after, wire.deliver thread d = .ok after ∧
      ∀ e, after.Refuses thread e → wire.Refuses thread e) ∨
    ∃ e, wire.deliver thread d = .error e ∧ wire.Refuses thread e := by
  unfold deliver
  cases d with
  | envelope env =>
    cases hreceiving : wire.receiving with
    | true => exact .inl ⟨_, rfl, fun e h => h.imp_right fun h => ⟨hreceiving.trans h.1, h.2⟩⟩
    | false => exact .inr ⟨_, rfl, .inr ⟨hreceiving, rfl⟩⟩
  | record record =>
    unfold RecordRing.push
    by_cases hfull : wire.ring.capacity ≤ wire.ring.head - wire.ring.tail
    · simp only [if_pos hfull]
      exact .inr ⟨_, rfl, .inl rfl⟩
    · simp only [if_neg hfull]
      exact .inl ⟨_, rfl, fun _ h => h⟩

/-- The first of several things that is not put on a wire was refused. -/
theorem refuses_of_deliverAll {ds : List Delivery} (h : (wire.deliverAll thread ds).2 = some e) :
    wire.Refuses thread e := by
  induction ds generalizing wire with
  | nil => cases h
  | cons d rest ih =>
    unfold deliverAll at h
    rcases wire.deliver_cases thread d with ⟨after, hrun, hback⟩ | ⟨e', hrun, hrefuses⟩
    · rw [hrun] at h
      exact hback e (ih h)
    · rw [hrun] at h
      cases h
      exact hrefuses

end Wire

/-- Why the outbox of a link is not sent. -/
def Link.Refuses (link : Link) (e : ResourceError) : Prop := link.wire.Refuses link.thread e

namespace Registry

variable {r : Registry} {links : List Link} {e : ResourceError}

/-- Outboxes are not sent only if one of the links refuses its own. -/
theorem refuses_of_flushLinks (h : (flushLinks links).2 = some e) :
    ∃ link ∈ links, link.Refuses e := by
  induction links with
  | nil => cases h
  | cons link rest ih =>
    have hrest (h : (flushLinks rest).2 = some e) : ∃ link' ∈ link :: rest, link'.Refuses e := by
      obtain ⟨link', hmem, hrefuses⟩ := ih h
      exact ⟨link', List.mem_cons_of_mem _ hmem, hrefuses⟩
    unfold flushLinks at h
    split at h
    · exact hrest h
    · split at h
      · rename_i after e' hflush
        cases h
        refine ⟨link, List.mem_cons_self, ?_⟩
        unfold flushLink at hflush
        split at hflush
        · cases hflush
          exact .inl rfl
        · exact Wire.refuses_of_deliverAll (congrArg Prod.snd hflush)
      · exact hrest h

/-- A link that refuses is found among those that differ in snapshots and answers only. -/
theorem exists_refuses_of_map_eq {links' : List Link} {f : Link → Link}
    (hf : ∀ link, link.Refuses e ↔ (f link).Refuses e) (heq : links'.map f = links.map f)
    (h : ∃ link ∈ links', link.Refuses e) : ∃ link ∈ links, link.Refuses e := by
  obtain ⟨link, hlink, hrefuses⟩ := h
  have hmem : f link ∈ links.map f := heq ▸ List.mem_map_of_mem hlink
  obtain ⟨link', hlink', hsame⟩ := List.mem_map.mp hmem
  exact ⟨link', hlink', (hf link').mpr (hsame ▸ (hf link).mp hrefuses)⟩

/-- A wired registry fails to flush only if a link refuses its outbox. -/
theorem ends_flush_refuses (h : r.IsWired) :
    Ends flush r (fun _ _ => True) (fun e _ => ∃ link ∈ r.links, link.Refuses e) := by
  have hretired := (reframed_retireDisposed r.processAcks).and
    (Guarded.follows_retireDisposed h.processAcks).ends
  unfold flush
  rw [Ends.bind_iff, Ends.modify_iff, Ends.bind_iff]
  refine hretired.imp ?_ fun _ _ h => h.2.elim
  rintro _ retired ⟨hretired, -⟩
  simp only [Ends.bind_iff, Ends.get_iff, Ends.modify_iff]
  cases hsent : (flushLinks retired.links).2 with
  | none => trivial
  | some e =>
    have hbefore : ∃ link ∈ r.processAcks.links, link.Refuses e :=
      exists_refuses_of_map_eq (f := Link.unframed) (fun _ => .rfl) hretired.links
        (refuses_of_flushLinks hsent)
    exact exists_refuses_of_map_eq (f := Link.body) (fun _ => .rfl) (quiet_processAcks r).links
      hbefore

end Registry

end Framecast
