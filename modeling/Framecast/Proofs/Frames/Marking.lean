import Framecast.Proofs.Frames.Coherence
import Framecast.Proofs.Frames.Settling

/-!
# How a status buffer is marked

The status buffer of a live resource is clear in all its slots. When the resource is
removed the buffer is set aside, and only a flush marks it, in the write slot; from
then on every commit marks the slot that it hands over, until all three slots are
marked. So a reader whose slot is marked finds a mark in whatever is handed over
to it later.
-/

namespace Framecast

/-- Whether the bytes of a status buffer mark its resource as disposed of. -/
def IsMark (bytes : Bytes) : Prop := (bytes.head?.any fun b => b &&& disposedBit != 0) = true

instance (bytes : Bytes) : Decidable (IsMark bytes) :=
  inferInstanceAs (Decidable (_ = true))

theorem not_isMark_clear : ¬IsMark [0] := by decide

theorem isMark_disposedBit : IsMark [disposedBit] := by decide

/-- Where the status buffer of a resource is through one binding. -/
def Binding.statusCell (b : Binding) : Nat × Nat := (b.link, b.status)

/-- A live resource claims its status buffers besides those that its bytes are posted to. -/
theorem Resource.statusCells_le (res : Resource) :
    ((res.bindings.map Binding.statusCell : List _) : Multiset (Nat × Nat)) +
      (res.posts.map Post.cell : List _) ≤ (res.claims.map Claim.cell : List _) := by
  unfold posts claims
  cases hs : res.storage with
  | payload p =>
    have hclaims (b : Binding) : b.claims (.payload p) = [⟨b.link, b.status, 1⟩] := by
      unfold Binding.claims Binding.finals Storage.bytes?
      cases b.data? <;> rfl
    simp only [List.map_nil, Multiset.coe_nil, add_zero, hclaims]
    rw [← List.map_eq_flatMap, List.map_map]
    exact le_of_eq rfl
  | fields schema bytes =>
    dsimp only
    induction res.bindings with
    | nil => exact le_of_eq rfl
    | cons b rest ih =>
      rw [List.flatMap_cons, List.map_append, Binding.claims_fields]
      cases hb : b.data? with
      | none =>
        rw [List.filterMap_cons_none (by rw [hb]; rfl)]
        exact Multiset.cons_le_cons _ ih
      | some buffer =>
        rw [List.filterMap_cons_some (by rw [hb]; rfl)]
        have hcons := Multiset.cons_le_cons (b.link, b.status)
          (Multiset.cons_le_cons (b.link, buffer) ih)
        refine le_trans (le_of_eq ?_) hcons
        simp only [List.map_cons, ← Multiset.cons_coe, Multiset.cons_add, Multiset.add_cons]
        exact Multiset.cons_swap _ _ _

/-- The status buffer that a sending allocates is new and clear. -/
theorem Link.slot_ship (link : Link) (k : Nat) (res : Resource) (tick : Tick) {s : Nat} (hs : s < 3) :
    (link.ship k res tick).1.status < (link.ship k res tick).2.wire.frames.buffers.size ∧
      (link.ship k res tick).2.wire.frames.slot (link.ship k res tick).1.status s = [0] := by
  have hclear := (Snapshot.FrameLink.slot_allocate link.wire.frames [0]
    link.wire.frames.buffers.size hs).trans (if_pos rfl)
  have hone : (link.wire.frames.allocate [0]).2.buffers.size = link.wire.frames.buffers.size + 1 :=
    Array.size_push _
  unfold ship
  cases res.storage with
  | payload p => exact ⟨hone ▸ Nat.lt_succ_self _, hclear⟩
  | fields schema bytes =>
    have hextends := Snapshot.FrameLink.Extends.allocate (link.wire.frames.allocate [0]).2 bytes
    have hi : link.wire.frames.buffers.size < (link.wire.frames.allocate [0]).2.buffers.size :=
      hone ▸ Nat.lt_succ_self _
    exact ⟨Nat.lt_of_lt_of_le hi hextends.size, (hextends.slot hi s).trans hclear⟩

namespace Registry

variable {r r' : Registry} {k : Nat} {e : Envelope}

/-- Nothing is posted to the status buffer of a live resource. -/
theorem IsWired.statusCell_apart (h : r.IsWired) {id : ResourceId} {res : Resource}
    (hres : r.resource? id = some res) {b : Binding} (hb : b ∈ res.bindings) {p : Post}
    (hp : p ∈ r.postings) : p.cell ≠ b.statusCell := by
  have hlive : ((r.live.flatMap fun res => res.bindings.map Binding.statusCell : List _) :
      Multiset (Nat × Nat)) + ((r.live.flatMap Resource.posts).map Post.cell : List _) ≤
        ((r.live.flatMap Resource.claims).map Claim.cell : List _) := by
    induction r.live with
    | nil => exact le_of_eq rfl
    | cons res rest ih =>
      simp only [List.flatMap_cons, List.map_append, ← Multiset.coe_add]
      refine le_trans (le_of_eq ?_) (add_le_add res.statusCells_le ih)
      abel
  have hall : ((r.live.flatMap fun res => res.bindings.map Binding.statusCell : List _) :
      Multiset (Nat × Nat)) + (r.postings.map Post.cell : List _) ≤ r.claims.map Claim.cell := by
    unfold postings commitPosts flushPosts
    rw [cells_claims, List.map_append, List.map_append, ← Multiset.coe_add, ← Multiset.coe_add,
      add_right_comm _ (Multiset.ofList (r.disposed.toList.map _ |>.map _)), ← add_assoc,
      ← add_assoc]
    gcongr
  have hnodup := Multiset.nodup_of_le hall h.apart
  intro hcell
  have hstatus : b.statusCell ∈ ((r.live.flatMap fun res => res.bindings.map Binding.statusCell :
      List _) : Multiset (Nat × Nat)) :=
    Multiset.mem_coe.mpr (List.mem_flatMap.mpr
      ⟨res, mem_live.mpr ⟨id, hres⟩, List.mem_map_of_mem hb⟩)
  have hpost : b.statusCell ∈ ((r.postings.map Post.cell : List _) : Multiset (Nat × Nat)) :=
    Multiset.mem_coe.mpr (hcell ▸ List.mem_map_of_mem hp)
  exact Multiset.disjoint_left.mp (Multiset.nodup_add.mp hnodup).2.2 hstatus hpost

/-- How far the status buffer of a resource that was announced over a link has come. -/
inductive Marking (r : Registry) (k : Nat) (e : Envelope) : Prop
  /-- The resource lives, and nothing is marked. -/
  | live {res : Resource} {binding : Binding} (hres : r.resource? e.id = some res)
      (hbinding : binding ∈ res.bindings) (hcell : binding.statusCell = (k, e.status))
      (hclear : ∀ s < 3, r.slotAt k e.status s = [0])
  /-- The resource is gone and its buffer set aside, and nothing is marked. -/
  | aside (hgone : r.resource? e.id = none)
      (hf : ⟨k, e.status, [disposedBit], {}⟩ ∈ r.disposed.toList)
      (hclear : ∀ s < 3, r.slotAt k e.status s = [0])
  /-- The buffer is retired, and the slots that were written are marked. -/
  | retired {f : RetiredBuffer} (hgone : r.resource? e.id = none) (hf : f ∈ r.retired.toList)
      (hpost : f.post = ⟨k, e.status, [disposedBit]⟩)
      (hwritten : ∀ s, f.written.contains s = true → r.slotAt k e.status s = [disposedBit])
  /-- All slots are marked, and nobody writes the buffer any more. -/
  | done (hgone : r.resource? e.id = none) (hfree : ∀ c ∈ r.claims, c.cell ≠ (k, e.status))
      (hmarked : ∀ s < 3, r.slotAt k e.status s = [disposedBit])

/-- The status buffer of a resource that was announced over a link is marked as it should be. -/
structure Marks (r : Registry) (k : Nat) (e : Envelope) : Prop where
  /-- The buffer is there. -/
  allocated : e.status < (r.framesAt k).buffers.size
  /-- It is marked according to what became of the resource. -/
  marking : r.Marking k e
  /-- A reader that has found a mark finds one in what was handed over as well. -/
  handed : IsMark (r.slotAt k e.status (r.framesAt k).flags.readSlot) →
    (r.framesAt k).flags.changed = true →
      IsMark (r.slotAt k e.status (r.framesAt k).flags.tempSlot)

/-- A reader finds a mark only if the resource is gone. -/
theorem Marks.gone (h : r.Marks k e) {s : Nat} (hs : s < 3)
    (hmark : IsMark (r.slotAt k e.status s)) : r.resource? e.id = none := by
  cases h.marking with
  | live _ _ _ hclear =>
    rw [hclear s hs] at hmark
    exact absurd hmark not_isMark_clear
  | aside hgone => exact hgone
  | retired hgone => exact hgone
  | done hgone => exact hgone

/-- The snapshots of a link differ only in what the slots of other buffers hold. -/
structure SameSlots (r r' : Registry) (k i : Nat) : Prop where
  /-- No buffer is gone. -/
  size : (r.framesAt k).buffers.size ≤ (r'.framesAt k).buffers.size
  /-- Each role has the slot that it had. -/
  flags : (r'.framesAt k).flags = (r.framesAt k).flags
  /-- The slots of the buffer hold what they held. -/
  slot : ∀ s, r'.slotAt k i s = r.slotAt k i s

theorem SameSlots.of_extends {i : Nat} (h : (r.framesAt k).Extends (r'.framesAt k))
    (hi : i < (r.framesAt k).buffers.size) : r.SameSlots r' k i :=
  ⟨h.size, h.flags, fun s => h.slot hi s⟩

/-- Marks stay where the slots of the buffer stay. -/
theorem Marks.of_sameSlots (h : r.Marks k e) (hsame : r.SameSlots r' k e.status)
    (hmarking : r'.Marking k e) : r'.Marks k e := by
  refine ⟨Nat.lt_of_lt_of_le h.allocated hsame.size, hmarking, ?_⟩
  rw [hsame.flags, hsame.slot, hsame.slot]
  exact h.handed

end Registry

namespace Edit

variable {strict : Prop} {writer : ResourceId} {b b' : Book} {k : Nat} {e : Envelope}

/-- Elementary changes mark nothing, and set the status buffer of what they remove aside. -/
theorem marks (h : Edit strict writer b b') (hw : b.registry.WellFormed)
    (hl : b'.registry.supply.Lasts) (hissued : e.id.toNat ≤ b.registry.supply.issued)
    (hmarks : b.registry.Marks k e) : b'.registry.Marks k e := by
  have hsame : b.registry.SameSlots b'.registry k e.status :=
    .of_extends ((h.keepsBuffers hw.isKeyed).frames k) hmarks.allocated
  have hgone (hnone : b.registry.resource? e.id = none) : b'.registry.resource? e.id = none := by
    cases hres' : b'.registry.resource? e.id with
    | none => rfl
    | some res' =>
      obtain ⟨res, hres, -⟩ := h.origin_of_issued hw hl hissued hres'
      rw [hnone] at hres
      cases hres
  refine hmarks.of_sameSlots hsame ?_
  cases hmarks.marking with
  | @live res binding hres hbinding hcell hclear =>
    have hclear' : ∀ s < 3, b'.registry.slotAt k e.status s = [0] := fun s hs =>
      (hsame.slot s).trans (hclear s hs)
    cases hres' : b'.registry.resource? e.id with
    | some res' =>
      obtain ⟨res₀, hres₀, hev⟩ := h.origin_of_issued hw hl hissued hres'
      obtain rfl : res₀ = res := Option.some.inj (hres₀.symm.trans hres)
      exact .live hres' (hev.bindings.subset hbinding) hcell hclear'
    | none =>
      rcases h.fate hw hl hres with ⟨res', hres'', -⟩ | hfinals
      · rw [hres'] at hres''
        cases hres''
      · refine .aside hres' (hfinals (List.mem_flatMap.mpr ⟨binding, hbinding, ?_⟩)) hclear'
        obtain ⟨rfl, hstatus⟩ := Prod.mk.inj hcell
        rw [← hstatus]
        exact List.mem_cons_self
  | aside hnone hf hclear =>
    obtain ⟨more, hmore, -⟩ := (h.handsOn hw hl).disposed
    exact .aside (hgone hnone) (hmore ▸ List.mem_append_left _ hf) fun s hs =>
      (hsame.slot s).trans (hclear s hs)
  | retired hnone hf hpost hwritten =>
    exact .retired (hgone hnone) ((h.handsOn hw hl).retired.symm ▸ hf) hpost fun s hs =>
      (hsame.slot s).trans (hwritten s hs)
  | done hnone hfree hmarked =>
    refine .done (hgone hnone) (fun c hc => ?_) fun s hs => (hsame.slot s).trans (hmarked s hs)
    rcases (h.keepsBuffers hw.isKeyed).owners c hc with hc | hlow
    · exact hfree c hc
    · intro hcell
      obtain ⟨hlink, hbuffer⟩ := Prod.mk.inj hcell
      rw [hlink, hbuffer] at hlow
      exact absurd hmarks.allocated (Nat.not_lt.mpr hlow)

/-- The status buffer of a resource that has just been sent is clear. -/
theorem marks_of_sent {r sent : Registry} {link : Link} {id : ResourceId} {res : Resource}
    {load : LoadState} (hlink : r.links[k]? = some link) (hid : res.id = id)
    (hnew : ¬res.IsBoundTo k)
    (hsent : sent = { r with
      links := r.links.set k (link.ship k res r.tick).2
      resources := r.resources.insert id
        { res with bindings := res.bindings ++ [(link.ship k res r.tick).1], load } })
    (hannounces : ({ res with
      bindings := res.bindings ++ [(link.ship k res r.tick).1], load } : Resource).Announces k e)
    (hturning : (sent.framesAt k).IsRotation) : sent.Marks k e := by
  obtain ⟨-, he, -, binding, hbinding, hbound, hstatus, -⟩ := hannounces
  obtain rfl : binding = (link.ship k res r.tick).1 := by
    rcases List.mem_append.mp hbinding with hold | hlast
    · exact absurd ⟨binding, hold, hbound⟩ hnew
    · exact List.mem_singleton.mp hlast
  have hframes : sent.framesAt k = (link.ship k res r.tick).2.wire.frames := by
    have hk : k < r.links.length := (List.getElem?_eq_some_iff.mp hlink).1
    rw [hsent]
    unfold Registry.framesAt
    simp only [List.getElem?_set_self hk]
  have hclear : ∀ s < 3, sent.slotAt k e.status s = [0] := by
    intro s hs
    unfold Registry.slotAt
    rw [hframes, hstatus]
    exact (link.slot_ship k res r.tick hs).2
  have hlookup : sent.resource? e.id = some { res with
      bindings := res.bindings ++ [(link.ship k res r.tick).1], load } := by
    rw [hsent]
    show (r.resources.insert id _)[e.id]? = _
    rw [Registry.getElem?_insert, if_pos (he.trans hid)]
  refine ⟨?_, .live hlookup hbinding (Prod.ext hbound hstatus.symm) hclear, fun hmark _ => ?_⟩
  · rw [hframes, hstatus]
    exact (link.slot_ship k res r.tick (Nat.succ_pos 2)).1
  · rw [hclear _ hturning.read] at hmark
    exact absurd hmark not_isMark_clear

/-- The status buffer of what has just been announced is clear. -/
theorem marks_announced (h : Edit strict writer b b') (hw : b.registry.WellFormed)
    (hturning : (b'.registry.framesAt k).IsRotation) {tick : Tick}
    (hmem : .create e tick ∈ b'.registry.outboxAt k)
    (hnot : .create e tick ∉ b.registry.outboxAt k) :
    e.id.toNat ≤ b'.registry.supply.issued ∧ b'.registry.Marks k e := by
  have hsame {P : Prop} (heq : b'.registry.outboxAt k = b.registry.outboxAt k) : P :=
    absurd (heq ▸ hmem) hnot
  cases h with
  | quiet h => exact hsame (h.outboxAt k)
  | enter => exact hsame rfl
  | drop => exact hsame rfl
  | retain => exact hsame (by simp)
  | release => exact hsame (by simp)
  | store => exact hsame (by simp)
  | @ship r _ _ id res j link load h hlink _ hnew _ =>
    obtain ⟨e', hannounces, hout⟩ := Registry.outboxAt_ship hlink res _ k
    have hmem := hout ▸ hmem
    by_cases hjk : j = k
    · subst hjk
      rw [if_pos rfl] at hmem
      obtain ⟨rfl, -⟩ : e = e' ∧ tick = r.tick := by
        simpa using (List.mem_append.mp hmem).resolve_left hnot
      have hid : res.id = id := hw.keyed h
      have he : e.id = res.id := (hannounces load).2.1
      exact ⟨he.trans hid ▸ (hw.numbered h).2,
        marks_of_sent hlink hid hnew rfl (hannounces load) hturning⟩
    · rw [if_neg hjk, List.append_nil] at hmem
      exact absurd hmem hnot
  | @remove r _ _ id res h _ =>
    rcases Nat.lt_or_ge k r.links.length with hk | hk
    · have hmem : .create e tick ∈ (r.remove res).outboxAt k := hmem
      rw [Registry.outboxAt_remove res r hk] at hmem
      rcases List.mem_append.mp hmem with hmem | hmem
      · exact absurd hmem hnot
      · obtain ⟨_, -, heq⟩ := List.mem_map.mp hmem
        cases heq
    · exact hsame (Registry.outboxAt_remove_of_le hk)

end Edit

namespace Registry

variable {r r' : Registry} {k : Nat} {e : Envelope}

/-- Only what shows in resources, claims and the slots of the buffer matters. -/
theorem Marking.congr (h : r.Marking k e)
    (hbindings : ∀ id, (r'.resource? id).map Resource.bindings =
      (r.resource? id).map Resource.bindings)
    (hdisposed : r'.disposed = r.disposed) (hretired : r'.retired = r.retired)
    (hclaims : r'.claims = r.claims)
    (hslot : ∀ s, r'.slotAt k e.status s = r.slotAt k e.status s) : r'.Marking k e := by
  have hgone (hnone : r.resource? e.id = none) : r'.resource? e.id = none := by
    have hsome := hbindings e.id
    rwa [hnone, Option.map_none, Option.map_eq_none_iff] at hsome
  cases h with
  | live hres hbinding hcell hclear =>
    have hsome := hbindings e.id
    rw [hres, Option.map_some] at hsome
    obtain ⟨res', hres', heq⟩ := Option.map_eq_some_iff.mp hsome
    exact .live hres' (heq ▸ hbinding) hcell fun s hs => (hslot s).trans (hclear s hs)
  | aside hnone hf hclear =>
    exact .aside (hgone hnone) (hdisposed ▸ hf) fun s hs => (hslot s).trans (hclear s hs)
  | retired hnone hf hpost hwritten =>
    exact .retired (hgone hnone) (hretired ▸ hf) hpost fun s hs => (hslot s).trans (hwritten s hs)
  | done hnone hfree hmarked =>
    exact .done (hgone hnone) (hclaims ▸ hfree) fun s hs => (hslot s).trans (hmarked s hs)

/-- Marks stay where resources, claims and the snapshots of the link stay, or where these are picked
up. -/
theorem Marks.congr (h : r.Marks k e)
    (hbindings : ∀ id, (r'.resource? id).map Resource.bindings =
      (r.resource? id).map Resource.bindings)
    (hdisposed : r'.disposed = r.disposed) (hretired : r'.retired = r.retired)
    (hclaims : r'.claims = r.claims)
    (hframes : r'.framesAt k = r.framesAt k ∨ r'.framesAt k = (r.framesAt k).pickUp.2) :
    r'.Marks k e := by
  have hslot (s : Nat) : r'.slotAt k e.status s = r.slotAt k e.status s := by
    unfold slotAt
    rcases hframes with hframes | hframes <;> rw [hframes]
    rfl
  have hmarking := h.marking.congr hbindings hdisposed hretired hclaims hslot
  refine ⟨?_, hmarking, ?_⟩
  · rcases hframes with hframes | hframes <;> rw [hframes] <;> exact h.allocated
  · rw [hslot, hslot]
    rcases hframes with hframes | hframes <;> rw [hframes]
    · exact h.handed
    · intro _ hchanged
      exact absurd hchanged (Bool.eq_false_iff.mp (Snapshot.Flags.changed_pickUp _))

/-- A commit keeps every mark, and marks what it hands over if anything is marked. -/
theorem Marks.committed (h : r.Marks k e) (hwired : r.IsWired) : r.committed.Marks k e := by
  have hk := lt_of_allocated h.allocated
  have hroles : (r.framesAt k).flags.IsRotation := hwired.turning k
  have hsize : e.status < (r.committed.framesAt k).buffers.size := by
    rw [hwired.size_committed hk]
    exact h.allocated
  have hread := hwired.slot_committed_of_ne hk hroles.write_ne_read.symm h.allocated
  have hhanded (hmark : IsMark (r.slotAt k e.status (r.framesAt k).flags.readSlot) →
      IsMark (r.committed.slotAt k e.status (r.framesAt k).flags.writeSlot)) :
      IsMark (r.committed.slotAt k e.status (r.committed.framesAt k).flags.readSlot) →
        (r.committed.framesAt k).flags.changed = true →
          IsMark (r.committed.slotAt k e.status (r.committed.framesAt k).flags.tempSlot) := by
    rw [flags_committed hwired hk, Snapshot.Flags.readSlot_publish,
      Snapshot.Flags.tempSlot_publish]
    intro hmark' _
    refine hmark ?_
    rwa [show r.committed.slotAt k e.status _ = _ from hread] at hmark'
  have hkept (hnot : ∀ q ∈ r.commitPosts, q.cell ≠ (k, e.status)) (s : Nat) :
      r.committed.slotAt k e.status s = r.slotAt k e.status s :=
    (slotAt_committed hwired hk _ s).trans (hwired.slotAt_unposted
      (fun _ => mem_postings_of_commit) h.allocated fun _ => hnot)
  cases h.marking with
  | live hres hbinding hcell hclear =>
    have hsame := hkept fun q hq =>
      hcell ▸ hwired.statusCell_apart hres hbinding (mem_postings_of_commit hq)
    refine ⟨hsize, .live hres hbinding hcell fun s hs => (hsame s).trans (hclear s hs), hhanded ?_⟩
    rw [hclear _ hroles.read]
    exact fun hmark => absurd hmark not_isMark_clear
  | aside hgone hf hclear =>
    have hsame := hkept fun q hq => hwired.posts_apart hq (List.mem_map_of_mem hf)
    refine ⟨hsize, .aside hgone hf fun s hs => (hsame s).trans (hclear s hs), hhanded ?_⟩
    rw [hclear _ hroles.read]
    exact fun hmark => absurd hmark not_isMark_clear
  | @retired f hgone hf hpost hwritten =>
    obtain ⟨rfl, hbuffer, hbytes⟩ := Post.mk.inj hpost
    have hwritten' : ∀ s, (r.refreshed f).written.contains s = true →
        r.committed.slotAt f.link e.status s = [disposedBit] := by
      intro s hs
      rw [← hbuffer] at hwritten ⊢
      rw [← hbytes] at hwritten ⊢
      exact hwired.slot_committed_of_retired hf hwritten hs
    have hposted := (hwired.slot_committed_of_mem hk
      (List.mem_append_right _ (List.mem_map_of_mem hf)) rfl).2
    refine ⟨hsize, ?_, hhanded fun _ => ?_⟩
    · cases hfull : (r.refreshed f).written.isFull with
      | false =>
        refine .retired (f := r.refreshed f) hgone ?_ hpost hwritten'
        exact List.mem_filter.mpr ⟨List.mem_map_of_mem hf, by rw [hfull]; rfl⟩
      | true =>
        have hmem : r.refreshed f ∈ r.finished :=
          List.mem_filter.mpr ⟨List.mem_map_of_mem hf, hfull⟩
        have hcell : (r.refreshed f).claim.cell = (f.link, e.status) := Prod.ext rfl hbuffer
        exact .done hgone (hcell ▸ hwired.free_of_finished hmem) fun s hs =>
          hwritten' s (SlotSet.contains_of_isFull hfull hs)
    · have hslot : r.committed.slotAt f.link e.status (r.framesAt f.link).flags.writeSlot =
          [disposedBit] := by
        rw [← hbuffer, ← hbytes]
        exact hposted
      rw [hslot]
      exact isMark_disposedBit
  | done hgone hfree hmarked =>
    have hsame := hkept fun q hq => hfree _ (claim_of_mem_postings (mem_postings_of_commit hq))
    refine ⟨hsize, .done hgone (fun c hc => ?_) fun s hs => (hsame s).trans (hmarked s hs),
      hhanded fun _ => ?_⟩
    · refine hfree c ?_
      rw [claims_committed]
      exact Multiset.mem_add.mpr (.inl hc)
    · rw [hsame, hmarked _ hroles.write]
      exact isMark_disposedBit

/-- A flush marks the status buffers that were set aside, each in the write slot. -/
theorem Marks.retiring (h : r.Marks k e) (hwired : r.IsWired) : r.retiring.Marks k e := by
  have hshape := hwired.sameShape_retiring
  have hroles : (r.framesAt k).flags.IsRotation := hwired.turning k
  have hne (s : Nat) (hs : s ≠ (r.framesAt k).flags.writeSlot) :
      r.retiring.slotAt k e.status s = r.slotAt k e.status s :=
    hwired.slot_retiring_of_ne hs h.allocated
  have hkept (hnot : ∀ q ∈ r.flushPosts, q.cell ≠ (k, e.status)) (s : Nat) :
      r.retiring.slotAt k e.status s = r.slotAt k e.status s :=
    hwired.slot_retiring_of_not_mem h.allocated hnot s
  refine ⟨?_, ?_, ?_⟩
  · rw [hshape.size]
    exact h.allocated
  · cases h.marking with
    | live hres hbinding hcell hclear =>
      have hsame := hkept fun q hq =>
        hcell ▸ hwired.statusCell_apart hres hbinding (mem_postings_of_flush hq)
      exact .live hres hbinding hcell fun s hs => (hsame s).trans (hclear s hs)
    | aside hgone hf hclear =>
      refine .retired hgone (f := r.refreshed ⟨k, e.status, [disposedBit], {}⟩) ?_ rfl fun s hs => ?_
      · rw [retired_retiring]
        exact List.mem_append_right _ (List.mem_map_of_mem hf)
      · have hwrite := (SlotSet.of_contains_insert hs).resolve_right (by simp)
        rw [hwrite]
        exact hwired.slot_retiring_of_mem (List.mem_map_of_mem hf) rfl rfl
    | @retired f hgone hf hpost hwritten =>
      have hcommit : f.post ∈ r.commitPosts := List.mem_append_right _ (List.mem_map_of_mem hf)
      have hsame := hkept fun q hq hcell =>
        hwired.posts_apart hcommit hq (by rw [hcell, hpost]; rfl)
      refine .retired hgone (f := f) ?_ hpost fun s hs => (hsame s).trans (hwritten s hs)
      rw [retired_retiring]
      exact List.mem_append_left _ hf
    | done hgone hfree hmarked =>
      have hsame := hkept fun q hq => hfree _ (claim_of_mem_postings (mem_postings_of_flush hq))
      exact .done hgone (r.claims_retiring ▸ hfree) fun s hs => (hsame s).trans (hmarked s hs)
  · rw [hshape.flags, hne _ hroles.write_ne_read.symm, hne _ hroles.write_ne_temp.symm]
    exact h.handed

end Registry

/-- What has come into the outbox of a link since an earlier state has status buffers that are marked
as they should be. -/
structure Registry.NewlyMarks (r r' : Registry) (k : Nat) : Prop where
  /-- Every buffer has one owner. -/
  wired : r'.IsWired
  /-- What is newly announced is marked. -/
  marks : ∀ e tick, .create e tick ∈ r'.outboxAt k → .create e tick ∉ r.outboxAt k →
    e.id.toNat ≤ r'.supply.issued ∧ r'.Marks k e

namespace Broadcast

variable {b : Broadcast} {action : Action} {k : Nat} {e : Envelope}

/-- Every action leaves the status buffer of what was announced before marked as it should be. -/
theorem marks_step (h : b.registry.Marks k e) (hwired : b.registry.IsWired) (hc : action.IsCompiled)
    (hw : b.registry.WellFormed) (hl : (b.step action).2.registry.supply.Lasts)
    (hissued : e.id.toNat ≤ b.registry.supply.issued) :
    (b.step action).2.registry.Marks k e := by
  cases hinternal : action.isInternal with
  | true =>
    exact ((changes_step hinternal hc hw hl).keep
      (P := fun r => e.id.toNat ≤ r.supply.issued ∧ r.Marks k e) hw hl
      (fun _ _ _ _ hw₁ _ hl₂ hedit h₁ =>
        ⟨h₁.1.trans hedit.issued_le, hedit.marks hw₁ hl₂ h₁.1 h₁.2⟩) ⟨hissued, h⟩).2.2
  | false =>
    have hbodies : ∀ id, ((b.step action).2.registry.resource? id).map Resource.bindings =
        (b.registry.resource? id).map Resource.bindings := by
      intro id
      have hbody := congrArg (Option.map Resource.bindings)
        ((sameBodies_step (b := b) hinternal).resources id)
      rw [Option.map_map, Option.map_map] at hbody
      exact hbody
    by_cases hcommit : action = .commit
    · subst hcommit
      rw [step_commit hwired]
      exact h.committed hwired
    · by_cases hflush : action = .flush
      · subst hflush
        have hquiet := Registry.quiet_processAcks b.registry
        have hacks : b.registry.processAcks.Marks k e := by
          refine h.congr (fun id => ?_) hquiet.disposed hquiet.retired hquiet.claims
            (.inl (hquiet.framesAt k))
          have hbody := congrArg (Option.map Resource.bindings) (hquiet.resources id)
          rw [Option.map_map, Option.map_map] at hbody
          exact hbody
        obtain ⟨links, hstep, -⟩ := step_flush_eq hwired
        refine (hacks.retiring hwired.processAcks).congr (fun id => ?_) ?_ ?_ ?_
          (.inl (framesAt_flush hwired k))
        all_goals rw [hstep]
        all_goals rfl
      · obtain ⟨links, tick, hstep⟩ := registry_step (b := b) hinternal hcommit hflush
        exact h.congr hbodies (by rw [hstep]) (by rw [hstep]) (by rw [hstep]; rfl)
          (framesAt_step_or hinternal hcommit hflush k)

/-- What an action announces has a clear status buffer. -/
theorem marks_queued {log : List Outgoing} (h : b.Heralds k log) (hwired : b.registry.IsWired)
    (hmarks : ∀ e tick, .create e tick ∈ log → b.registry.Marks k e) (hc : action.IsCompiled)
    (hw : b.registry.WellFormed) (hl : (b.step action).2.registry.supply.Lasts) :
    ∀ e tick, .create e tick ∈ log ++ Moment.queues ⟨b, action⟩ k →
      (b.step action).2.registry.Marks k e := by
  have hissued {e : Envelope} {tick : Tick} (he : .create e tick ∈ log) :
      e.id.toNat ≤ b.registry.supply.issued :=
    (h.logs.created e.id (Outgoing.mem_created.mpr ⟨e, tick, he, rfl⟩)).1
  intro e tick he
  by_cases hold : .create e tick ∈ log
  · exact marks_step (hmarks e tick hold) hwired hc hw hl (hissued hold)
  cases hinternal : action.isInternal with
  | false =>
    rw [b.queues_eq_nil_of_external hinternal, List.append_nil] at he
    exact absurd he hold
  | true =>
    have hchanges := changes_step hinternal hc hw hl
    have hedits : ∀ strict writer b₁ b₂, b₁.registry.WellFormed → b₂.registry.WellFormed →
        b₂.registry.supply.Lasts → Edit strict writer b₁ b₂ → b.registry.NewlyMarks b₁.registry k →
          b.registry.NewlyMarks b₂.registry k := by
      intro _ _ b₁ b₂ hw₁ _ hl₂ hedit h₁
      have hwired₂ := hedit.isWired hw₁.isKeyed h₁.wired
      refine ⟨hwired₂, fun e tick he hnot => ?_⟩
      by_cases hearlier : .create e tick ∈ b₁.registry.outboxAt k
      · obtain ⟨hissued₁, hmarks₁⟩ := h₁.marks e tick hearlier hnot
        exact ⟨hissued₁.trans hedit.issued_le, hedit.marks hw₁ hl₂ hissued₁ hmarks₁⟩
      · exact hedit.marks_announced hw₁ (hwired₂.turning k) he hearlier
    have hnew := (hchanges.keep (P := fun r => b.registry.NewlyMarks r k) hw hl hedits
      ⟨hwired, fun e tick he hnot => absurd he hnot⟩).2
    obtain ⟨sent, hsent⟩ := h.waits
    refine (hnew.marks e tick ?_ fun hmem => hold ?_).2
    · rw [(Moment.outboxAt_internal b hinternal k).1]
      exact List.mem_append_right _ ((List.mem_append.mp he).resolve_left hold)
    · rw [hsent]
      exact List.mem_append_right _ hmem

end Broadcast

/-- In every run the status buffer of all that was ever announced is marked as it should be. -/
theorem Run.marks {config : Config} {supply : Supply} {past : List Moment} {b : Broadcast}
    (h : Run (.opened config supply) past b) (hc : ∀ m ∈ past, m.action.IsCompiled)
    (hl : b.registry.supply.Lasts) (k : Nat) :
    ∀ e tick, .create e tick ∈ queued k past → b.registry.Marks k e := by
  refine h.keeps (P := fun past b => ∀ e tick, .create e tick ∈ queued k past →
    b.registry.Marks k e) hc hl ?_ ?_
  · intro e tick he
    cases he
  · intro past b action h hc hone hlasts hl hmarks
    exact Broadcast.marks_queued (h.heralds hc hlasts k) h.isWired hmarks hone
      (h.wellFormed hc hlasts) hl

/-- Once a consumer reads a mark, it goes on reading one. -/
theorem Run.isMark_read {config : Config} {supply : Supply} {later earlier : List Moment}
    {b b₁ : Broadcast} {k : Nat} {e : Envelope} {tick : Tick}
    (h : Run (.opened config supply) (later ++ earlier) b)
    (hc : ∀ m ∈ later ++ earlier, m.action.IsCompiled) (hl : b.registry.supply.Lasts)
    (h₁ : Run (.opened config supply) earlier b₁) (he : .create e tick ∈ queued k earlier)
    (hmark : IsMark ((b₁.registry.framesAt k).read e.status)) :
    IsMark ((b.registry.framesAt k).read e.status) := by
  induction later generalizing b with
  | nil =>
    obtain rfl := h.end_unique h₁
    exact hmark
  | cons m later ih =>
    obtain ⟨hcbefore, hlbefore⟩ := h.init_lasts hc hl
    have hbefore : Run (.opened config supply) (later ++ earlier) m.before := h.init
    have hread := ih hbefore hcbefore hlbefore
    have hmarks := hbefore.marks hcbefore hlbefore k e tick (queued_subset_append k later earlier he)
    obtain rfl : b = (m.before.step m.action).2 := h.end_eq
    rcases Broadcast.read_step hbefore.isWired
      hbefore.sizes (hc m List.mem_cons_self)
      (hbefore.wellFormed hcbefore hlbefore) hl hmarks.allocated with hsame | ⟨hchanged, hnew⟩
    · rw [hsame]
      exact hread
    · rw [hnew]
      exact hmarks.handed hread hchanged

end Framecast
