import Framecast.Proofs.Frames.Marking
import Framecast.Proofs.Frames.Opening
import Framecast.Proofs.Frames.Recency

/-!
# What a consumer finds when it first looks

The slots of a buffer are filled when its instance is sent, which is when it is created
and not when the envelope leaves. From then on only commits hand over anything. So a
consumer that looks reads what there was to be shown at the last commit, or else what
the instance was created with. It reads the instance as of the flush or later exactly
if a commit was made since the flush, or if nothing differed before.
-/

namespace Framecast

/-- What buffer `i` of link `k` was first to be written with: the bytes that its instance was sent
with. -/
def opening (k i : Nat) : List Moment → Option Bytes
  | [] => none
  | m :: past => (opening k i past).or (m.after.registry.due? k i)

/-- What is found in buffer `i` of link `k` once all that was handed over is picked up: what there
was to be shown at the last commit, or what the buffer was opened with if it is newer. -/
def shown (k i : Nat) (past : List Moment) : Option Bytes :=
  (contentsAt k i (commits past) past).or (opening k i past)

section History

variable {k i n : Nat} {m : Moment} {past later earlier : List Moment} {x : Bytes}

/-- A buffer that is to show something is to show something ever after. -/
theorem isSome_contents_append (h : (contents k i earlier).isSome) (later : List Moment) :
    (contents k i (later ++ earlier)).isSome := by
  induction later with
  | nil => exact h
  | cons m later ih =>
    rw [List.cons_append, contents, Option.isSome_or, ih, Bool.or_true]

/-- A buffer that was opened is to show something. -/
theorem isSome_contents_of_opening (h : (opening k i past).isSome) :
    (contents k i past).isSome := by
  induction past with
  | nil => cases h
  | cons m past ih =>
    rw [contents, Option.isSome_or]
    rw [opening, Option.isSome_or, Bool.or_eq_true] at h
    rcases h with h | h
    · rw [ih h, Bool.or_true]
    · rw [h, Bool.true_or]

theorem isSome_contents_of_shown (h : shown k i past = some x) : (contents k i past).isSome := by
  rcases Option.or_eq_some_iff.mp h with h | ⟨-, h⟩
  · exact contents_of_contentsAt h
  · exact isSome_contents_of_opening (by rw [h]; rfl)

theorem shown_of_contentsAt (h : contentsAt k i (commits past) past = some x) :
    shown k i past = some x := by
  rw [shown, h, Option.some_or]

theorem shown_of_commit (hm : m.action = .commit) (h : contents k i past = some x) :
    contentsAt k i (commits (m :: past)) (m :: past) = some x := by
  rw [contentsAt_of_commit hm, commits_of_commit hm, if_pos rfl, h]

theorem shown_of_ne (hm : m.action ≠ .commit) (h : shown k i past = some x) :
    shown k i (m :: past) = some x := by
  rw [shown] at *
  rw [contentsAt_of_ne hm, commits_of_ne hm, opening, ← Option.or_assoc, h, Option.some_or]

/-- Without a commit there goes on being found what was found, and no commit is counted. -/
theorem shown_append_of_ne (hlater : ∀ m ∈ later, m.action ≠ .commit)
    (h : shown k i earlier = some x) :
    shown k i (later ++ earlier) = some x ∧ commits (later ++ earlier) = commits earlier := by
  induction later with
  | nil => exact ⟨h, rfl⟩
  | cons m later ih =>
    obtain ⟨hshown, hcommits⟩ := ih fun m' hm' => hlater m' (List.mem_cons_of_mem _ hm')
    have hm := hlater m List.mem_cons_self
    exact ⟨shown_of_ne hm hshown, (commits_of_ne hm).trans hcommits⟩

/-- No commit is taken back. -/
theorem commits_le_append (later earlier : List Moment) :
    commits earlier ≤ commits (later ++ earlier) := by
  induction later with
  | nil => exact Nat.le_refl _
  | cons m later ih =>
    rw [List.cons_append]
    by_cases hm : m.action = .commit
    · rw [commits_of_commit hm]
      exact ih.trans (Nat.le_succ _)
    · rw [commits_of_ne hm]
      exact ih

/-- Once a commit was made, there is found what was to be shown at this or a later commit. -/
theorem shown_append_of_commit (hcommit : ∃ m ∈ later, m.action = .commit)
    (h : (contents k i earlier).isSome) :
    ∃ x, ∃ n > commits earlier, contentsAt k i n (later ++ earlier) = some x ∧
      shown k i (later ++ earlier) = some x := by
  induction later with
  | nil =>
    obtain ⟨m, hm, -⟩ := hcommit
    cases hm
  | cons m later ih =>
    by_cases hm : m.action = .commit
    · obtain ⟨x, hx⟩ := Option.isSome_iff_exists.mp (isSome_contents_append h later)
      have hlast := shown_of_commit hm hx
      refine ⟨x, _, ?_, hlast, shown_of_contentsAt hlast⟩
      rw [commits_of_commit hm]
      exact Nat.lt_succ_of_le (commits_le_append later earlier)
    · obtain ⟨m', hm', hcommit'⟩ := hcommit
      have hin : m' ∈ later := (List.mem_cons.mp hm').resolve_left fun heq => hm (heq ▸ hcommit')
      obtain ⟨x, n, hn, hcontents, hshown⟩ := ih ⟨m', hin, hcommit'⟩
      exact ⟨x, n, hn, contentsAt_append hcontents [m], shown_of_ne hm hshown⟩

end History

/-- What is read of a buffer once all that was handed over is picked up. -/
theorem Snapshot.FrameLink.read_pickUp (link : FrameLink) (i : Nat) :
    link.pickUp.2.read i =
      link.slot i (if link.flags.changed then link.flags.tempSlot else link.flags.readSlot) := by
  rw [read_eq_slot]
  exact congrArg (link.slot i) (Flags.readSlot_pickUp link.flags)

/-- Whether buffer `i` of link `k` shows what it should to a consumer that picks up all there is. -/
def Broadcast.Displays (b : Broadcast) (k i : Nat) (past : List Moment) : Prop :=
  ∃ x, shown k i past = some x ∧ (b.registry.framesAt k).pickUp.2.read i = x

namespace Broadcast

variable {b : Broadcast} {action : Action} {k i : Nat} {past : List Moment}

/-- A buffer that was just opened shows what it was opened with. -/
theorem Displays.of_opens {p : Post} (hsettles : b.Settles p.link p.buffer past)
    (hwired : (b.step action).2.registry.IsWired)
    (hopens : b.registry.Opens (b.step action).2.registry p)
    (hp : p ∈ (b.step action).2.registry.postings) :
    (b.step action).2.Displays p.link p.buffer (⟨b, action⟩ :: past) := by
  have hnone : contents p.link p.buffer past = none := by
    rw [← Option.not_isSome_iff_eq_none]
    exact fun hsome => Nat.not_lt.mpr hopens.fresh (hsettles.allocated hsome)
  have hopening : opening p.link p.buffer past = none := by
    rw [← Option.not_isSome_iff_eq_none]
    exact fun hsome => by simpa [hnone] using isSome_contents_of_opening hsome
  have hat (n : Nat) : contentsAt p.link p.buffer n (⟨b, action⟩ :: past) = none := by
    have hbefore : contentsAt p.link p.buffer n past = none := by
      rw [← Option.not_isSome_iff_eq_none, Option.isSome_iff_exists]
      rintro ⟨x, hx⟩
      simpa [hnone] using contents_of_contentsAt hx
    by_cases hcommit : action = .commit
    · rw [contentsAt_of_commit hcommit, hnone, hbefore, ite_self]
    · rw [contentsAt_of_ne hcommit, hbefore]
  have hdue : (Moment.after ⟨b, action⟩).registry.due? p.link p.buffer = some p.bytes :=
    hwired.due?_eq_some.mpr hp
  refine ⟨p.bytes, ?_, ?_⟩
  · rw [shown, hat, Option.none_or, opening, hopening, Option.none_or, hdue]
  · have hroles : ((b.step action).2.registry.framesAt p.link).flags.IsRotation :=
      hwired.turning p.link
    rw [Snapshot.FrameLink.read_pickUp]
    split
    · exact hopens.slots _ hroles.temp
    · exact hopens.slots _ hroles.read

/-- A buffer goes on showing what it should, as long as it is settled. -/
theorem Displays.step (h : b.Displays k i past) (hsettles : b.Settles k i past)
    (hsettles' : (b.step action).2.Settles k i (⟨b, action⟩ :: past))
    (hwired : b.registry.IsWired) (hsizes : b.replicas.size = b.registry.links.length)
    (hc : action.IsCompiled) (hw : b.registry.WellFormed)
    (hl : (b.step action).2.registry.supply.Lasts) :
    (b.step action).2.Displays k i (⟨b, action⟩ :: past) := by
  obtain ⟨x, hx, hread⟩ := h
  have hsome := isSome_contents_of_shown hx
  have hi := hsettles.allocated hsome
  by_cases hcommit : action = .commit
  · subst hcommit
    obtain ⟨y, hy⟩ := Option.isSome_iff_exists.mp hsome
    have hlast := shown_of_commit (m := ⟨b, .commit⟩) rfl hy
    have hchanged : ((b.step .commit).2.registry.framesAt k).flags.changed = true := by
      rw [step_commit hwired, Registry.flags_committed hwired (Registry.lt_of_allocated hi),
        Snapshot.Flags.changed_publish]
    refine ⟨y, shown_of_contentsAt hlast, ?_⟩
    rw [Snapshot.FrameLink.read_pickUp, if_pos hchanged]
    exact hsettles'.handed hchanged y hlast
  · refine ⟨x, shown_of_ne hcommit hx, ?_⟩
    rw [← hread]
    have hroles : (b.registry.framesAt k).flags.IsRotation := hwired.turning k
    have hturn := turn_step hwired hsizes hc hw hl k
    generalize (b.step action).2.registry.framesAt k = frames at hturn
    cases hturn with
    | committed => exact absurd rfl hcommit
    | flushed =>
      have hacks : b.registry.processAcks.IsWired := hwired.processAcks
      have hsame := (Registry.quiet_processAcks b.registry).framesAt k
      rw [Snapshot.FrameLink.read_pickUp, Snapshot.FrameLink.read_pickUp,
        hacks.sameShape_retiring.flags k, hsame, hacks.slot_retiring_of_ne, hsame]
      · rw [hsame]
        split
        · exact hroles.write_ne_temp.symm
        · exact hroles.write_ne_read.symm
      · rw [hsame]
        exact hi
    | pickedUp tick =>
      have hchanged : (b.registry.framesAt k).pickUp.2.flags.changed = false :=
        Snapshot.Flags.changed_pickUp _
      rw [Snapshot.FrameLink.read_pickUp, hchanged, Snapshot.FrameLink.read_eq_slot]
      rfl
    | grown _ _ _ hextends =>
      rw [Snapshot.FrameLink.read_pickUp, Snapshot.FrameLink.read_pickUp, hextends.flags]
      exact hextends.slot hi _

/-- No buffer is taken away. -/
theorem size_le_step (hwired : b.registry.IsWired)
    (hsizes : b.replicas.size = b.registry.links.length) (hc : action.IsCompiled)
    (hw : b.registry.WellFormed) (hl : (b.step action).2.registry.supply.Lasts) (k : Nat) :
    (b.registry.framesAt k).buffers.size ≤
      ((b.step action).2.registry.framesAt k).buffers.size := by
  have hturn := turn_step hwired hsizes hc hw hl k
  generalize (b.step action).2.registry.framesAt k = frames at hturn
  cases hturn with
  | committed hk => exact Nat.le_of_eq (hwired.size_committed hk).symm
  | flushed =>
    rw [hwired.processAcks.sameShape_retiring.size k,
      (Registry.quiet_processAcks b.registry).framesAt k]
  | pickedUp => exact Nat.le_refl _
  | grown _ _ _ hextends => exact hextends.size

end Broadcast

/-- An instance has one buffer on a link. -/
theorem Resource.HasBuffer.unique {res : Resource} {k i j : Nat}
    (hnodup : (res.bindings.map Binding.link).Nodup) (hi : res.HasBuffer k i)
    (hj : res.HasBuffer k j) : i = j := by
  obtain ⟨binding, hbinding, hlink, hdata⟩ := hi
  obtain ⟨binding', hbinding', hlink', hdata'⟩ := hj
  obtain rfl : binding = binding' :=
    List.inj_on_of_nodup_map hnodup hbinding hbinding' (hlink.trans hlink'.symm)
  exact Option.some.inj (hdata.symm.trans hdata')

/-- An instance serves the buffer that it has on a link. -/
theorem Registry.serves_of_hasBuffer {r : Registry} {id : ResourceId} {res : Resource}
    {schema : Schema} {bytes : Bytes} {k i : Nat} (hres : r.resource? id = some res)
    (hs : res.storage = .fields schema bytes) (hbuffer : res.HasBuffer k i) :
    r.Serves (k, i) := by
  obtain ⟨binding, hbinding, rfl, hdata⟩ := hbuffer
  have hp := Resource.mem_posts.mpr ⟨schema, bytes, hs, binding, hbinding, i, hdata, rfl⟩
  exact ⟨id, res, hres, List.mem_map_of_mem hp⟩

namespace Run

variable {config : Config} {supply : Supply} {past later earlier : List Moment} {m : Moment}
  {b b₁ : Broadcast} {k i : Nat}

/-- A buffer that a live instance posts to, and that was there earlier, was posted to then. -/
theorem serves_of_lt (h : Run (.opened config supply) (later ++ earlier) b)
    (hc : ∀ m ∈ later ++ earlier, m.action.IsCompiled) (hl : b.registry.supply.Lasts)
    (h₁ : Run (.opened config supply) earlier b₁) (hserves : b.registry.Serves (k, i))
    (hi : i < (b₁.registry.framesAt k).buffers.size) : b₁.registry.Serves (k, i) := by
  have hkept : (b₁.registry.framesAt k).buffers.size ≤ (b.registry.framesAt k).buffers.size ∧
      (b.registry.Serves (k, i) → b₁.registry.Serves (k, i)) := by
    clear hserves
    induction later generalizing b with
    | nil =>
      obtain rfl := h.end_unique h₁
      exact ⟨Nat.le_refl _, id⟩
    | cons m later ih =>
      obtain ⟨hcbefore, hlbefore⟩ := h.init_lasts hc hl
      have hbefore : Run (.opened config supply) (later ++ earlier) m.before := h.init
      obtain ⟨hsize, hserved⟩ := ih hbefore hcbefore hlbefore
      have hone := hc m List.mem_cons_self
      have hwired := hbefore.isWired
      have hw := hbefore.wellFormed hcbefore hlbefore
      obtain rfl : b = (m.before.step m.action).2 := h.end_eq
      refine ⟨hsize.trans (Broadcast.size_le_step hwired
        hbefore.sizes hone hw hl k), ?_⟩
      rintro ⟨id, res, hres, hcell⟩
      obtain ⟨p, hp, hpcell⟩ := List.mem_map.mp hcell
      obtain ⟨rfl, rfl⟩ := Prod.mk.inj hpcell
      rcases Broadcast.renews_step hone hw hl id res hres p hp with hold | hopens
      · exact hserved hold
      · exact absurd (Nat.lt_of_lt_of_le hi hsize) (Nat.not_lt.mpr hopens.fresh)
  exact hkept.2 hserves

/-- The buffer of a live instance was never set aside. -/
theorem not_setsAside (h : Run (.opened config supply) past b)
    (hc : ∀ m ∈ past, m.action.IsCompiled) (hl : b.registry.supply.Lasts)
    (hserves : b.registry.Serves (k, i)) (hm : m ∈ past) : ¬m.before.registry.SetsAside k i := by
  rintro ⟨f, hf, rfl, rfl⟩
  obtain ⟨later, earlier, rfl, hbefore, -⟩ := h.before_of_mem hc hm
  have hwired := hbefore.isWired
  have hflush : f.post ∈ m.before.registry.flushPosts := List.mem_map_of_mem hf
  have hi := hwired.allocated (Registry.mem_postings_of_flush hflush)
  have hrun : Run (.opened config supply) ((later ++ [m]) ++ earlier) b := by simpa using h
  obtain ⟨id, res, hres, hcell⟩ := hrun.serves_of_lt (fun m' hm' => hc m' (by simpa using hm')) hl
    hbefore hserves hi
  obtain ⟨p, hp, hpcell⟩ := List.mem_map.mp hcell
  have hcommit : p ∈ m.before.registry.commitPosts :=
    List.mem_append_left _ (List.mem_flatMap.mpr ⟨res, Registry.mem_live.mpr ⟨id, hres⟩, hp⟩)
  exact hwired.posts_apart hcommit hflush hpcell

/-- The buffer of a live instance shows what it should. -/
theorem displays_live (h : Run (.opened config supply) past b)
    (hc : ∀ m ∈ past, m.action.IsCompiled) (hl : b.registry.supply.Lasts)
    (hserves : b.registry.Serves (k, i)) : b.Displays k i past := by
  refine h.keeps (P := fun past b => b.registry.Serves (k, i) → b.Displays k i past) hc hl ?_ ?_
    hserves
  · rintro ⟨id, res, hres, -⟩
    cases hres
  · intro past b action h hc hone hlasts hl hdisplays hserves
    have hafter : Run (.opened config supply) (⟨b, action⟩ :: past) (b.step action).2 :=
      h.snoc action
    have hcafter : ∀ m ∈ ⟨b, action⟩ :: past, m.action.IsCompiled :=
      List.forall_mem_cons.mpr ⟨hone, hc⟩
    have hnot : ∀ m ∈ ⟨b, action⟩ :: past, ¬m.before.registry.SetsAside k i :=
      fun m hm => hafter.not_setsAside hcafter hl hserves hm
    have hsettles := h.settles hc hlasts fun m hm _ => hnot m (List.mem_cons_of_mem _ hm)
    have hw := h.wellFormed hc hlasts
    obtain ⟨id, res, hres, hcell⟩ := hserves
    obtain ⟨p, hp, hpcell⟩ := List.mem_map.mp hcell
    obtain ⟨rfl, rfl⟩ := Prod.mk.inj hpcell
    rcases Broadcast.renews_step hone hw hl id res hres p hp with hold | hopens
    · exact (hdisplays hold).step hsettles (hafter.settles hcafter hl fun m hm _ => hnot m hm)
        h.isWired h.sizes hone hw hl
    · exact .of_opens hsettles hafter.isWired hopens
        (Registry.mem_postings.mpr (.inl ⟨id, res, hres, hp⟩))

/-- A buffer that showed what it should goes on doing so, if no commit is made while it is set
aside. -/
theorem displays_append (h : Run (.opened config supply) (later ++ earlier) b)
    (hc : ∀ m ∈ later ++ earlier, m.action.IsCompiled) (hl : b.registry.supply.Lasts)
    (h₁ : Run (.opened config supply) earlier b₁) (hdisplays : b₁.Displays k i earlier)
    (hnot : ∀ m ∈ later ++ earlier, m.action = .commit → ¬m.before.registry.SetsAside k i) :
    b.Displays k i (later ++ earlier) := by
  induction later generalizing b with
  | nil =>
    obtain rfl := h.end_unique h₁
    exact hdisplays
  | cons m later ih =>
    obtain ⟨hcbefore, hlbefore⟩ := h.init_lasts hc hl
    have hbefore : Run (.opened config supply) (later ++ earlier) m.before := h.init
    have hnotbefore : ∀ m' ∈ later ++ earlier, m'.action = .commit →
        ¬m'.before.registry.SetsAside k i := fun m' hm' => hnot m' (List.mem_cons_of_mem _ hm')
    have hsettles := h.settles hc hl hnot
    obtain rfl : b = (m.before.step m.action).2 := h.end_eq
    exact (ih hbefore hcbefore hlbefore hnotbefore).step
      (hbefore.settles hcbefore hlbefore hnotbefore) hsettles
      hbefore.isWired hbefore.sizes
      (hc m List.mem_cons_self) (hbefore.wellFormed hcbefore hlbefore) hl

/-- What a consumer reads of an instance that was announced over its link is in the buffer that was
announced. -/
theorem read_announced (h : Run (.opened config supply) past b)
    (hc : ∀ m ∈ past, m.action.IsCompiled) (hl : b.registry.supply.Lasts)
    {c : Connection} (hconn : b.connection? k = some c) {e : Envelope} {tick : Tick}
    (he : .create e tick ∈ queued k past) {schema : Schema} (hcargo : e.cargo = .fields schema i)
    {y : Bytes} (hread : c.view.bytes? e.id = some y) : (b.registry.framesAt k).read i = y := by
  obtain ⟨found, hfound, hbytes⟩ := Option.bind_eq_some_iff.mp hread
  unfold Connection.bytesOf? at hbytes
  rw [h.cargo_of_queued hc hl hconn he hfound, hcargo] at hbytes
  rw [(Broadcast.framesAt_of_connection? hconn).2]
  exact Option.some.inj hbytes

/-- What a consumer reads after an update of an instance that was live before is what was found for
it at the update, if no commit was made while the buffer of the instance was set aside. -/
theorem shown_of_read {before : Broadcast} {tick : Tick}
    (h : Run (.opened config supply) (⟨before, .update k tick⟩ :: (later ++ earlier)) b)
    (hc : ∀ m ∈ (⟨before, .update k tick⟩ :: (later ++ earlier) : List Moment),
      m.action.IsCompiled)
    (hl : b.registry.supply.Lasts) (h₁ : Run (.opened config supply) earlier b₁) {id : ResourceId}
    {res : Resource} {schema : Schema} {bytes y : Bytes}
    (hres : b₁.registry.resource? id = some res) (hs : res.storage = .fields schema bytes)
    (hbuffer : res.HasBuffer k i) {c : Connection} (hconn : b.connection? k = some c)
    (hread : c.view.bytes? id = some y)
    (hnot : ∀ m ∈ later, m.action = .commit → ¬m.before.registry.SetsAside k i) :
    shown k i (later ++ earlier) = some y := by
  obtain ⟨hcbefore, hlbefore⟩ := h.init_lasts hc hl
  have hbefore : Run (.opened config supply) (later ++ earlier) before := h.init
  obtain ⟨b₂, h₂, hissued⟩ := hbefore.beginning hcbefore
  obtain rfl := h₁.end_unique h₂
  have hc₁ : ∀ m ∈ earlier, m.action.IsCompiled :=
    fun m hm => hcbefore m (List.mem_append_right _ hm)
  have hl₁ := hlbefore.mono hissued
  have hserves := Registry.serves_of_hasBuffer hres hs hbuffer
  have hvalue : (b.registry.framesAt k).read i = y := by
    have hbound : res.IsBoundTo k := hbuffer.imp fun binding hb => ⟨hb.1, hb.2.1⟩
    obtain ⟨e, tick', buffer, he, rfl, hcargo, hbuffer'⟩ :=
      h₁.announced_buffer hc₁ hl₁ hres hs hbound
    obtain rfl : i = buffer := Resource.HasBuffer.unique
      ((h₁.heralds hc₁ hl₁ k).linked _ res hres).1 hbuffer hbuffer'
    have hqueued := queued_subset_append k (⟨before, .update k tick⟩ :: later) earlier he
    exact h.read_announced hc hl hconn hqueued hcargo hread
  obtain ⟨x, hx, hpicked⟩ := hbefore.displays_append hcbefore hlbefore h₁
    (h₁.displays_live hc₁ hl₁ hserves) fun m hm hcommit => by
      rcases List.mem_append.mp hm with hm | hm
      · exact hnot m hm hcommit
      · exact h₁.not_setsAside hc₁ hl₁ hserves hm
  obtain rfl : b = (before.step (.update k tick)).2 := h.end_eq
  have hturn := Broadcast.turn_step hbefore.isWired
    hbefore.sizes (hc _ List.mem_cons_self)
    (hbefore.wellFormed hcbefore hlbefore) hl k
  generalize (before.step (.update k tick)).2.registry.framesAt k = frames at hturn hvalue
  cases hturn with
  | pickedUp tick => rw [hx, ← hpicked, hvalue]
  | grown _ _ hupdate _ => exact absurd rfl (hupdate tick)

/-- What an instance holds at a flush is found by a consumer that is updated later exactly if a
commit was made in between, or if it was found before the flush already. A consumer reads what is
found, whenever it is updated, if no commit is made while the buffer of the instance is set aside.
-/
theorem reads_flushed_iff {before flushed : Broadcast} {tick : Tick} {between : List Moment}
    (h : Run (.opened config supply)
      (⟨before, .update k tick⟩ :: (between ++ ⟨flushed, .flush⟩ :: earlier)) b)
    (hc : ∀ m ∈ (⟨before, .update k tick⟩ :: (between ++ ⟨flushed, .flush⟩ :: earlier) :
      List Moment), m.action.IsCompiled)
    (hl : b.registry.supply.Lasts) {id : ResourceId} {res : Resource} {schema : Schema}
    {bytes y : Bytes} (hres : flushed.registry.resource? id = some res)
    (hs : res.storage = .fields schema bytes) (hbuffer : res.HasBuffer k i)
    {c : Connection} (hconn : b.connection? k = some c) (hread : c.view.bytes? id = some y)
    (hnot : ∀ m ∈ between, m.action = .commit → ¬m.before.registry.SetsAside k i) :
    shown k i (between ++ ⟨flushed, .flush⟩ :: earlier) = some y ∧
    ((y = bytes ∨ ∃ n > commits earlier,
        contentsAt k i n (between ++ ⟨flushed, .flush⟩ :: earlier) = some y) ↔
      (∃ m ∈ between, m.action = .commit) ∨ shown k i earlier = some bytes) := by
  obtain ⟨hcbefore, hlbefore⟩ := h.init_lasts hc hl
  have hbefore : Run (.opened config supply) (between ++ ⟨flushed, .flush⟩ :: earlier) before :=
    h.init
  obtain ⟨b₁, h₁, hissued⟩ := hbefore.beginning hcbefore
  have hflushed : Run (.opened config supply) earlier flushed := h₁.init
  obtain ⟨hcflushed, hlflushed⟩ := h₁.init_lasts
    (fun m hm => hcbefore m (List.mem_append_right _ hm)) (hlbefore.mono hissued)
  have hserves := Registry.serves_of_hasBuffer hres hs hbuffer
  have hfound : shown k i (between ++ ⟨flushed, .flush⟩ :: earlier) = some y := by
    rw [List.append_cons] at h hc ⊢
    refine h.shown_of_read hc hl hflushed hres hs hbuffer hconn hread fun m hm hcommit => ?_
    rcases List.mem_append.mp hm with hm | hm
    · exact hnot m hm hcommit
    · rw [List.mem_singleton.mp hm] at hcommit
      cases hcommit
  refine ⟨hfound, ?_⟩
  obtain ⟨x, hx, -⟩ := hflushed.displays_live hcflushed hlflushed hserves
  have hflush : shown k i (⟨flushed, .flush⟩ :: earlier) = some x :=
    shown_of_ne (by simp) hx
  have hcommits : commits (⟨flushed, .flush⟩ :: earlier) = commits earlier :=
    commits_of_ne (by simp)
  by_cases hcommit : ∃ m ∈ between, m.action = .commit
  · obtain ⟨z, n, hn, hcontents, hz⟩ :=
      shown_append_of_commit hcommit (isSome_contents_of_shown hflush)
    obtain rfl : z = y := Option.some.inj (hz.symm.trans hfound)
    rw [hcommits] at hn
    exact iff_of_true (.inr ⟨n, hn, hcontents⟩) (.inl hcommit)
  · obtain ⟨hsame, hcount⟩ := shown_append_of_ne
      (fun m hm heq => hcommit ⟨m, hm, heq⟩) hflush
    obtain rfl : x = y := Option.some.inj (hsame.symm.trans hfound)
    rw [hx, Option.some_inj, or_iff_right hcommit, or_iff_left]
    rintro ⟨n, hn, hcontents⟩
    have hle := le_commits_of_contentsAt hcontents
    rw [hcount, hcommits] at hle
    exact absurd hn (Nat.not_lt.mpr hle)

end Run

namespace Samples

/-- A lamp that is turned up before it is sent. -/
def turnedLamp : List Moment × Broadcast :=
  (Broadcast.opened ⟨.game, 4⟩ ⟨0, .initial⟩).play
    [.connect .render, .createInstance ⟨0, lamp⟩ [] {}, .setProp 1 "level" (.word 7)]

/-- The lamp after a commit. -/
def postedLamp : List Moment × Broadcast := turnedLamp.2.play [.commit]

/-- The lamp after the flush that sends it. -/
def sentLamp (flushed : Broadcast) : Broadcast := (flushed.step .flush).2

/-- The lamp after the update of its consumer. -/
def receivedLamp (flushed : Broadcast) : Broadcast := ((sentLamp flushed).step (.update 0 0)).2

theorem isCompiled_turnedLamp : ∀ m ∈ turnedLamp.1, m.action.IsCompiled :=
  Broadcast.isCompiled_play _ (by simp [Action.IsCompiled, isCompiled_lamp])

/-- If a commit was made before the lamp is sent, the consumer reads it as it is sent. -/
theorem reads_flushed_postedLamp :
    (receivedLamp postedLamp.2).registry.supply.Lasts ∧
    (∃ res, postedLamp.2.registry.resource? 1 = some res ∧
      res.storage = .fields ⟨0, lamp⟩ [7, 0, 0, 0] ∧ res.HasBuffer 0 1) ∧
    (∃ c, (receivedLamp postedLamp.2).connection? 0 = some c ∧
      c.view.bytes? 1 = some [7, 0, 0, 0]) ∧
    shown 0 1 (⟨postedLamp.2, .flush⟩ :: (postedLamp.1 ++ turnedLamp.1)) = some [7, 0, 0, 0] ∧
    shown 0 1 (postedLamp.1 ++ turnedLamp.1) = some [7, 0, 0, 0] := by
  have hlasts : (receivedLamp postedLamp.2).registry.supply.Lasts := by decide +kernel
  have hres : (postedLamp.2.registry.resource? 1).map (fun res => (res.storage,
      res.bindings.map fun binding => (binding.link, binding.data?))) =
        some (.fields ⟨0, lamp⟩ [7, 0, 0, 0], [(0, some 1)]) := by decide +kernel
  have hread : ((receivedLamp postedLamp.2).connection? 0).map (fun c => c.view.bytes? 1) =
      some (some [7, 0, 0, 0]) := by decide +kernel
  obtain ⟨res, hres, hheld⟩ := Option.map_eq_some_iff.mp hres
  obtain ⟨hs, hbindings⟩ := Prod.mk.inj hheld
  obtain ⟨binding, hbindings, hbinding⟩ := List.map_eq_singleton_iff.mp hbindings
  obtain ⟨hlink, hdata⟩ := Prod.mk.inj hbinding
  have hbuffer : res.HasBuffer 0 1 :=
    ⟨binding, hbindings ▸ List.mem_singleton_self binding, hlink, hdata⟩
  obtain ⟨c, hconn, hbytes⟩ := Option.map_eq_some_iff.mp hread
  have hturned : Run (.opened ⟨.game, 4⟩ ⟨0, .initial⟩) turnedLamp.1 turnedLamp.2 := .play _ _
  have hposted : Run turnedLamp.2 postedLamp.1 postedLamp.2 := .play _ _
  have hrun : Run (.opened ⟨.game, 4⟩ ⟨0, .initial⟩)
      (⟨sentLamp postedLamp.2, .update 0 0⟩ ::
        ([] ++ ⟨postedLamp.2, .flush⟩ :: (postedLamp.1 ++ turnedLamp.1)))
      (receivedLamp postedLamp.2) := ((hturned.append hposted).snoc .flush).snoc (.update 0 0)
  have hc : ∀ m ∈ (⟨sentLamp postedLamp.2, .update 0 0⟩ ::
      ([] ++ ⟨postedLamp.2, .flush⟩ :: (postedLamp.1 ++ turnedLamp.1)) : List Moment),
      m.action.IsCompiled := by
    refine List.forall_mem_cons.mpr ⟨trivial, List.forall_mem_cons.mpr ⟨trivial, fun m hm => ?_⟩⟩
    rcases List.mem_append.mp hm with hm | hm
    · exact Broadcast.isCompiled_play turnedLamp.2 (by simp [Action.IsCompiled]) m hm
    · exact isCompiled_turnedLamp m hm
  have hnot : ∀ m ∈ ([] : List Moment), m.action = .commit → ¬m.before.registry.SetsAside 0 1 :=
    List.forall_mem_nil _
  obtain ⟨hshown, hiff⟩ := Run.reads_flushed_iff hrun hc hlasts hres hs hbuffer hconn hbytes hnot
  exact ⟨hlasts, ⟨res, hres, hs, hbuffer⟩, ⟨c, hconn, hbytes⟩, hshown,
    (hiff.mp (.inl rfl)).resolve_left (by simp)⟩

/-- Without a commit the consumer reads the lamp as it was created, although it was turned up before
it was sent. -/
theorem reads_older_turnedLamp :
    Run (.opened ⟨.game, 4⟩ ⟨0, .initial⟩)
      (⟨sentLamp turnedLamp.2, .update 0 0⟩ :: ⟨turnedLamp.2, .flush⟩ :: turnedLamp.1)
      (receivedLamp turnedLamp.2) ∧
    (∀ m ∈ (⟨sentLamp turnedLamp.2, .update 0 0⟩ :: ⟨turnedLamp.2, .flush⟩ :: turnedLamp.1 :
      List Moment), m.action.IsCompiled) ∧
    (receivedLamp turnedLamp.2).registry.supply.Lasts ∧
    (turnedLamp.2.registry.resource? 1).map Resource.storage =
      some (.fields ⟨0, lamp⟩ [7, 0, 0, 0]) ∧
    ((sentLamp turnedLamp.2).connection? 0).map (fun c => c.view.bytes? 1) = some none ∧
    ((receivedLamp turnedLamp.2).connection? 0).map (fun c => c.view.bytes? 1) =
      some (some [0, 0, 0, 0]) ∧
    commits (⟨sentLamp turnedLamp.2, .update 0 0⟩ :: ⟨turnedLamp.2, .flush⟩ :: turnedLamp.1) = 0 := by
  have hturned : Run (.opened ⟨.game, 4⟩ ⟨0, .initial⟩) turnedLamp.1 turnedLamp.2 := .play _ _
  refine ⟨(hturned.snoc .flush).snoc (.update 0 0), ?_, by decide +kernel, by decide +kernel,
    by decide +kernel, by decide +kernel, by decide +kernel⟩
  exact List.forall_mem_cons.mpr
    ⟨trivial, List.forall_mem_cons.mpr ⟨trivial, isCompiled_turnedLamp⟩⟩

end Samples

end Framecast
