import Framecast.Proofs.Frames.Publishing
import Framecast.Proofs.Operation.Shifts

/-!
# Every buffer has one owner

A live resource owns its buffers on the links it was sent over, and what was set
aside or retired owns its own. No two owners share a buffer, and every owned buffer
is as long as what is to be copied into it. Removing a resource hands its buffers
on, and sending one allocates new ones, so this is never lost.
-/

namespace Framecast

/-- A buffer of a certain length on a link, as someone owns it. -/
structure Claim where
  /-- The position of the link. -/
  link : Nat
  /-- The number of the buffer on that link. -/
  buffer : Nat
  /-- The length of its slots. -/
  length : Nat
  deriving DecidableEq

/-- Where the buffer is. -/
def Claim.cell (c : Claim) : Nat × Nat := (c.link, c.buffer)

/-- The claim of a buffer that was set aside or retired. -/
def RetiredBuffer.claim (f : RetiredBuffer) : Claim := ⟨f.link, f.buffer, f.bytes.length⟩

/-- The claims of a live resource through one binding. -/
def Binding.claims (b : Binding) (storage : Storage) : List Claim :=
  (b.finals storage).map RetiredBuffer.claim

/-- The claims of a live resource. -/
def Resource.claims (res : Resource) : List Claim := res.bindings.flatMap (·.claims res.storage)

/-- An instance claims a status buffer and a buffer for its bytes. -/
theorem Binding.claims_fields (b : Binding) (schema : Schema) (bytes : Bytes) :
    b.claims (.fields schema bytes) = ⟨b.link, b.status, 1⟩ ::
      (b.data?.map fun buffer => (⟨b.link, buffer, bytes.length⟩ : Claim)).toList := by
  unfold claims finals
  cases b.data? <;> rfl

/-- Claims depend on the bindings and the length of the bytes only. -/
theorem Binding.claims_of_evolves (b : Binding) {storage storage' : Storage}
    (h : storage.Evolves storage') : b.claims storage' = b.claims storage := by
  cases storage with
  | payload p =>
    rw [show storage' = .payload p from h]
  | fields schema bytes =>
    obtain ⟨bytes', rfl, hlength⟩ := h
    rw [claims_fields, claims_fields, hlength]

/-- Resources with the same bindings and bytes of the same length have the same claims. -/
theorem Resource.claims_of_evolves {res res' : Resource} (h : res.Evolves res')
    (hb : res'.bindings = res.bindings) : res'.claims = res.claims := by
  unfold claims
  rw [hb]
  congr 1
  exact funext fun b => b.claims_of_evolves h.storage

namespace Registry

variable {r r' : Registry}

/-- All claims on buffers. -/
def claims (r : Registry) : Multiset Claim :=
  Resources.gather Resource.claims r.resources + (r.disposed.toList.map RetiredBuffer.claim : List _) +
    (r.retired.toList.map RetiredBuffer.claim : List _)

/-- Whether the buffer of a claim was allocated as it says. -/
def Provides (r : Registry) (c : Claim) : Prop :=
  c.buffer < (r.framesAt c.link).buffers.size ∧ (r.framesAt c.link).length c.buffer = c.length

/-- A registry in which every buffer has one owner at most and the length that its owner needs. -/
structure IsWired (r : Registry) : Prop where
  /-- No two claims are on the same buffer. -/
  apart : (r.claims.map Claim.cell).Nodup
  /-- Every claim is on a buffer that was allocated. -/
  provided : ∀ c ∈ r.claims, r.Provides c
  /-- The roles of the slots of every link are apart. -/
  turning : ∀ k, (r.framesAt k).IsRotation

/-- The same look-ups and buffers make the same claims. -/
theorem claims_congr
    (h : ∀ id, (r'.resource? id).map Resource.claims = (r.resource? id).map Resource.claims)
    (hdisposed : r'.disposed = r.disposed) (hretired : r'.retired = r.retired) :
    r'.claims = r.claims := by
  unfold claims
  rw [hdisposed, hretired, Resources.gather_congr h]

/-- The claims are the same after a change of one resource that keeps its own. -/
theorem claims_of_replace {id : ResourceId} {res res' : Resource} (h : r.resource? id = some res)
    (hlookup : ∀ x, r'.resource? x = if x = id then some res' else r.resource? x)
    (hclaims : res'.claims = res.claims) (hdisposed : r'.disposed = r.disposed)
    (hretired : r'.retired = r.retired) : r'.claims = r.claims := by
  apply claims_congr _ hdisposed hretired
  intro x
  rw [hlookup]
  split
  · rename_i hx
    rw [hx, h, Option.map_some, Option.map_some, hclaims]
  · rfl

theorem Provides.of_extends {c : Claim} (h : r.Provides c)
    (hextends : (r.framesAt c.link).Extends (r'.framesAt c.link)) : r'.Provides c :=
  ⟨Nat.lt_of_lt_of_le h.1 hextends.size, (hextends.length h.1).trans h.2⟩

/-- A quiet change keeps all claims. -/
theorem Quiet.claims (h : r.Quiet r') : r'.claims = r.claims := by
  apply claims_congr _ h.disposed h.retired
  intro x
  have hbody := congrArg (Option.map Resource.claims) (h.resources x)
  rw [Option.map_map, Option.map_map] at hbody
  exact hbody

theorem Quiet.framesAt (h : r.Quiet r') (k : Nat) : r'.framesAt k = r.framesAt k := by
  apply framesAt_congr
  have hbodies := congrArg (fun links => links[k]?.map (·.wire.frames)) h.links
  simpa [Function.comp_def, Link.body] using hbodies

end Registry

/-- A sending allocates new buffers and claims these and no others. -/
theorem Link.ship_claims (link : Link) (k : Nat) (res : Resource) (tick : Tick) :
    link.wire.frames.Extends (link.ship k res tick).2.wire.frames ∧
      (((link.ship k res tick).1.claims res.storage).map Claim.cell).Nodup ∧
      ∀ c ∈ (link.ship k res tick).1.claims res.storage, c.link = k ∧
        link.wire.frames.buffers.size ≤ c.buffer ∧
        c.buffer < (link.ship k res tick).2.wire.frames.buffers.size ∧
        (link.ship k res tick).2.wire.frames.length c.buffer = c.length := by
  unfold ship Binding.claims Binding.finals
  cases res.storage with
  | payload p =>
    refine ⟨.allocate _ _, by simp, ?_⟩
    simp [RetiredBuffer.claim, Snapshot.FrameLink.length_allocate]
    simp [Snapshot.FrameLink.allocate]
  | fields schema bytes =>
    refine ⟨(Snapshot.FrameLink.Extends.allocate _ _).trans (.allocate _ _), ?_, ?_⟩
    · simp [RetiredBuffer.claim, Storage.bytes?, Claim.cell, Snapshot.FrameLink.allocate]
    · simp [RetiredBuffer.claim, Storage.bytes?, Snapshot.FrameLink.length_allocate]
      simp [Snapshot.FrameLink.allocate, Nat.add_assoc]

/-- Nothing has been written yet of what a removal sets aside. -/
theorem Binding.written_of_finals {binding : Binding} {storage : Storage} {f : RetiredBuffer}
    (hf : f ∈ binding.finals storage) : f.written = {} := by
  unfold finals at hf
  rcases List.mem_cons.mp hf with rfl | hf
  · rfl
  · split at hf
    · rw [List.mem_singleton.mp hf]
    · cases hf

namespace Registry

variable {r r' r'' : Registry}

namespace Shift

/-- Links only get more buffers. -/
theorem framesAt (h : r.Shift r') (k : Nat) : (r.framesAt k).Extends (r'.framesAt k) := by
  have hsame {s s' : Registry} (hlinks : (s'.links[k]?).map (·.wire.frames) =
      (s.links[k]?).map (·.wire.frames)) : (s.framesAt k).Extends (s'.framesAt k) := by
    rw [framesAt_congr hlinks]
    exact .refl _
  cases h with
  | quiet h =>
    rw [h.framesAt]
    exact .refl _
  | touch | enter => exact .refl _
  | @ship id res j link load h hlink =>
    have hj : j < r.links.length := (List.getElem?_eq_some_iff.mp hlink).1
    by_cases hjk : j = k
    · subst hjk
      unfold Registry.framesAt
      rw [hlink]
      simp only [List.getElem?_set_self hj]
      exact (link.ship_claims j res r.tick).1
    · exact hsame (by simp [List.getElem?_set_ne hjk])
  | @remove id res =>
    obtain ⟨_, heq⟩ := remove_eq res r
    exact hsame (by simp [heq, Link.enqueue, Function.comp_def])

/-- Claims are kept or given up, and new ones are on new buffers. -/
theorem claims (h : r.Shift r') (hkeyed : r.IsKeyed) :
    ∃ fresh : Multiset Claim, r'.claims ≤ r.claims + fresh ∧ (fresh.map Claim.cell).Nodup ∧
      ∀ c ∈ fresh, (r.framesAt c.link).buffers.size ≤ c.buffer ∧ r'.Provides c := by
  have hfewer (hle : r'.claims ≤ r.claims) :
      ∃ fresh : Multiset Claim, r'.claims ≤ r.claims + fresh ∧ (fresh.map Claim.cell).Nodup ∧
        ∀ c ∈ fresh, (r.framesAt c.link).buffers.size ≤ c.buffer ∧ r'.Provides c :=
    ⟨0, by rwa [add_zero], by simp, by simp⟩
  cases h with
  | quiet h => exact hfewer h.claims.le
  | @touch id res res' h hev hbindings =>
    apply hfewer
    apply le_of_eq
    refine claims_of_replace h (fun x => ?_) (Resource.claims_of_evolves hev hbindings) rfl rfl
    exact getElem?_insert r.resources id x res'
  | enter type storage options =>
    apply hfewer
    show Resources.gather Resource.claims (r.resources.insert r.supply.nextId _) + _ + _ ≤ _
    unfold Registry.claims
    gcongr ?_ + _ + _
    exact Resources.gather_insert_le rfl
  | @ship id res j link load h hlink =>
    have hj : j < r.links.length := (List.getElem?_eq_some_iff.mp hlink).1
    obtain ⟨-, hnodup, hfresh⟩ := link.ship_claims j res r.tick
    refine ⟨((link.ship j res r.tick).1.claims res.storage : List Claim), ?_, ?_, ?_⟩
    · have hnew : ({ res with
          bindings := res.bindings ++ [(link.ship j res r.tick).1], load } : Resource).claims =
            res.claims ++ (link.ship j res r.tick).1.claims res.storage := by
        unfold Resource.claims
        simp
      have hinsert := @Resources.gather_insert _ Resource.claims _ _ _ h
        { res with bindings := res.bindings ++ [(link.ship j res r.tick).1], load }
      rw [hnew, ← Multiset.coe_add, add_left_comm, add_comm, add_right_inj] at hinsert
      apply le_of_eq
      unfold Registry.claims
      rw [hinsert]
      abel
    · exact hnodup
    · intro c hc
      obtain ⟨hlinked, hlow, hhigh, hlength⟩ := hfresh c hc
      unfold Provides Registry.framesAt
      rw [hlinked, hlink]
      simp only [List.getElem?_set_self hj]
      exact ⟨hlow, hhigh, hlength⟩
  | @remove id res h =>
    obtain ⟨_, heq⟩ := remove_eq res r
    have hgather := @Resources.gather_eq_add _ Resource.claims _ _ _ h
    have hfinals : (res.bindings.flatMap (·.finals res.storage)).map RetiredBuffer.claim =
        res.claims := List.map_flatMap
    apply hfewer
    apply le_of_eq
    unfold Registry.claims
    rw [heq, hgather, hkeyed id res h]
    simp only [Array.toList_append, List.map_append, hfinals, ← Multiset.coe_add]
    abel

/-- Every buffer goes on having one owner. -/
theorem isWired (h : r.Shift r') (hkeyed : r.IsKeyed) (hwired : r.IsWired) :
    r'.IsWired := by
  obtain ⟨fresh, hle, hnodup, hfresh⟩ := h.claims hkeyed
  refine ⟨?_, ?_, fun k => ?_⟩
  · refine Multiset.nodup_of_le (Multiset.map_le_map hle) ?_
    rw [Multiset.map_add, Multiset.nodup_add]
    refine ⟨hwired.apart, hnodup, ?_⟩
    rw [Multiset.disjoint_left]
    intro cell hold hnew
    obtain ⟨c, hc, rfl⟩ := Multiset.mem_map.mp hold
    obtain ⟨c', hc', hcell⟩ := Multiset.mem_map.mp hnew
    obtain ⟨hlink, hbuffer⟩ := Prod.mk.inj hcell
    have hlow := (hwired.provided c hc).1
    have hhigh := (hfresh c' hc').1
    rw [hlink, hbuffer] at hhigh
    omega
  · intro c hc
    rcases Multiset.mem_add.mp (Multiset.mem_of_le hle hc) with hc | hc
    · exact (hwired.provided c hc).of_extends (h.framesAt c.link)
    · exact (hfresh c hc).2
  · have hturning := hwired.turning k
    unfold Snapshot.FrameLink.IsRotation at *
    rwa [(h.framesAt k).flags]

/-- Nothing is retired, and what is set aside was not written since. -/
theorem setAside (h : r.Shift r') : r'.retired = r.retired ∧
    ∃ gone, r'.disposed.toList = r.disposed.toList ++ gone ∧ ∀ f ∈ gone, f.written = {} := by
  cases h with
  | quiet h => exact ⟨h.retired, [], by rw [h.disposed, List.append_nil], by simp⟩
  | touch | enter | ship => exact ⟨rfl, [], (List.append_nil _).symm, by simp⟩
  | @remove id res =>
    obtain ⟨_, heq⟩ := remove_eq res r
    rw [heq]
    refine ⟨rfl, _, Array.toList_append, fun f hf => ?_⟩
    obtain ⟨binding, -, hf⟩ := List.mem_flatMap.mp hf
    exact Binding.written_of_finals hf

end Shift

/-- A change after which links have more buffers at most, nothing else is retired, what else was set
aside was not written since, and whoever owns a buffer that was there owned it before. -/
structure KeepsBuffers (r r' : Registry) : Prop where
  /-- The same buffers are retired. -/
  retired : r'.retired = r.retired
  /-- More buffers may be set aside, and no slot of these has been written. -/
  disposed : ∃ gone, r'.disposed.toList = r.disposed.toList ++ gone ∧ ∀ f ∈ gone, f.written = {}
  /-- Links only get more buffers. -/
  frames : ∀ k, (r.framesAt k).Extends (r'.framesAt k)
  /-- New owners own new buffers. -/
  owners : ∀ c ∈ r'.claims, c ∈ r.claims ∨ (r.framesAt c.link).buffers.size ≤ c.buffer

namespace KeepsBuffers

/-- A quiet change keeps every buffer. -/
theorem of_quiet (h : r.Quiet r') : r.KeepsBuffers r' := by
  refine ⟨h.retired, ⟨[], by rw [h.disposed, List.append_nil], by simp⟩, fun k => ?_, fun c hc => ?_⟩
  · rw [h.framesAt]
    exact .refl _
  · rw [h.claims] at hc
    exact .inl hc

/-- Two changes are one. -/
protected theorem trans (h : r.KeepsBuffers r') (h' : r'.KeepsBuffers r'') : r.KeepsBuffers r'' := by
  obtain ⟨gone, heq, hgone⟩ := h.disposed
  obtain ⟨gone', heq', hgone'⟩ := h'.disposed
  refine ⟨h'.retired.trans h.retired, ⟨gone ++ gone', by rw [heq', heq, List.append_assoc],
    fun f hf => ?_⟩, fun k => (h.frames k).trans (h'.frames k), fun c hc => ?_⟩
  · rcases List.mem_append.mp hf with hf | hf
    · exact hgone f hf
    · exact hgone' f hf
  · rcases h'.owners c hc with hc | hnew
    · exact h.owners c hc
    · exact .inr ((h.frames c.link).size.trans hnew)

end KeepsBuffers

/-- A shift keeps every buffer. -/
theorem Shift.keepsBuffers (h : r.Shift r') (hkeyed : r.IsKeyed) :
    r.KeepsBuffers r' := by
  obtain ⟨hretired, hdisposed⟩ := h.setAside
  obtain ⟨fresh, hle, -, hfresh⟩ := h.claims hkeyed
  refine ⟨hretired, hdisposed, h.framesAt, fun c hc => ?_⟩
  rcases Multiset.mem_add.mp (Multiset.mem_of_le hle hc) with hc | hc
  · exact .inl hc
  · exact .inr (hfresh c hc).1

/-- A chain of shifts keeps every buffer and leaves each one owner. -/
theorem Shifts.keepsBuffers (h : r.Shifts r') (hkeyed : r.IsKeyed) :
    r.KeepsBuffers r' ∧ (r.IsWired → r'.IsWired) := by
  induction h with
  | refl => exact ⟨.of_quiet (.refl r), fun hwired => hwired⟩
  | tail hchain hstep ih =>
    have hkeyed' := Shifts.isKeyed hchain hkeyed
    exact ⟨ih.1.trans (hstep.keepsBuffers hkeyed'), fun hwired => hstep.isWired hkeyed' (ih.2 hwired)⟩

end Registry

/-- Where a snapshot goes. -/
def Post.cell (p : Post) : Nat × Nat := (p.link, p.buffer)

/-- What is posted of a resource goes to buffers that it claims. -/
theorem Resource.cells_posts (res : Resource) :
    (res.posts.map Post.cell).Sublist (res.claims.map Claim.cell) := by
  unfold posts claims
  cases res.storage with
  | payload p => exact List.nil_sublist _
  | fields schema bytes =>
    dsimp only
    induction res.bindings with
    | nil => exact .slnil
    | cons b rest ih =>
      rw [List.flatMap_cons, List.map_append, Binding.claims_fields]
      cases hb : b.data? with
      | none =>
        rw [List.filterMap_cons_none (by rw [hb]; rfl)]
        exact ih.trans (List.sublist_append_right _ _)
      | some buffer =>
        rw [List.filterMap_cons_some (by rw [hb]; rfl)]
        exact .cons _ (.cons_cons _ ih)

/-- What is posted of a resource is as long as it claims. -/
theorem Resource.claim_of_mem_posts {res : Resource} {p : Post} (h : p ∈ res.posts) :
    (⟨p.link, p.buffer, p.bytes.length⟩ : Claim) ∈ res.claims := by
  unfold posts at h
  cases hs : res.storage with
  | payload _ =>
    rw [hs] at h
    cases h
  | fields schema bytes =>
    rw [hs] at h
    obtain ⟨b, hb, hpost⟩ := List.mem_filterMap.mp h
    obtain ⟨buffer, hbuffer, rfl⟩ := Option.map_eq_some_iff.mp hpost
    refine List.mem_flatMap.mpr ⟨b, hb, ?_⟩
    rw [hs, Binding.claims_fields, hbuffer]
    exact List.mem_cons_of_mem _ List.mem_cons_self

namespace Registry

variable {r r' : Registry} {p q : Post}

/-- Every snapshot that is to be written before long. -/
def postings (r : Registry) : List Post := r.commitPosts ++ r.flushPosts

/-- The claimed buffers are those of live resources and those that are to be written again. -/
theorem cells_claims (r : Registry) : r.claims.map Claim.cell =
    ((r.live.flatMap Resource.claims).map Claim.cell : List _) +
      ((r.disposed.toList.map RetiredBuffer.post).map Post.cell : List _) +
      ((r.retired.toList.map RetiredBuffer.post).map Post.cell : List _) := by
  have hgather : Resources.gather Resource.claims r.resources =
      (r.live.flatMap Resource.claims : List Claim) := by
    unfold Resources.gather Resources.entries live
    rw [List.flatMap_map, List.flatMap_map]
  have hcells (fs : List RetiredBuffer) : (fs.map RetiredBuffer.claim).map Claim.cell =
      (fs.map RetiredBuffer.post).map Post.cell := by
    rw [List.map_map, List.map_map]
    rfl
  unfold claims
  rw [hgather, Multiset.map_add, Multiset.map_add, Multiset.map_coe, Multiset.map_coe,
    Multiset.map_coe, hcells, hcells]

/-- What is to be written goes to buffers that are claimed. -/
theorem cells_postings (r : Registry) :
    ((r.postings.map Post.cell : List _) : Multiset (Nat × Nat)) ≤ r.claims.map Claim.cell := by
  have hlive : ((r.live.flatMap Resource.posts).map Post.cell).Sublist
      ((r.live.flatMap Resource.claims).map Claim.cell) := by
    induction r.live with
    | nil => exact .slnil
    | cons res rest ih =>
      rw [List.flatMap_cons, List.flatMap_cons, List.map_append, List.map_append]
      exact res.cells_posts.append ih
  unfold postings commitPosts flushPosts
  rw [cells_claims, List.map_append, List.map_append, ← Multiset.coe_add, ← Multiset.coe_add,
    add_right_comm]
  gcongr
  exact hlive.subperm

/-- Buffers are claimed by live resources, and by what was set aside or retired. -/
theorem mem_claims {c : Claim} : c ∈ r.claims ↔
    (∃ id res, r.resource? id = some res ∧ c ∈ res.claims) ∨
      (∃ f ∈ r.disposed.toList, f.claim = c) ∨ ∃ f ∈ r.retired.toList, f.claim = c := by
  unfold claims
  rw [Multiset.mem_add, Multiset.mem_add, Resources.mem_gather, Multiset.mem_coe,
    Multiset.mem_coe, List.mem_map, List.mem_map, or_assoc]
  rfl

/-- What is to be written is as long as claimed. -/
theorem claim_of_mem_postings (h : p ∈ r.postings) :
    (⟨p.link, p.buffer, p.bytes.length⟩ : Claim) ∈ r.claims := by
  rw [mem_claims]
  rcases List.mem_append.mp h with h | h
  · rcases List.mem_append.mp h with h | h
    · obtain ⟨res, hres, hp⟩ := List.mem_flatMap.mp h
      obtain ⟨id, hid⟩ := mem_live.mp hres
      exact .inl ⟨id, res, hid, Resource.claim_of_mem_posts hp⟩
    · obtain ⟨f, hf, rfl⟩ := List.mem_map.mp h
      exact .inr (.inr ⟨f, hf, rfl⟩)
  · obtain ⟨f, hf, rfl⟩ := List.mem_map.mp h
    exact .inr (.inl ⟨f, hf, rfl⟩)

namespace IsWired

theorem fits (h : r.IsWired) (hp : p ∈ r.postings) : r.Fits p :=
  (h.provided _ (claim_of_mem_postings hp)).2.symm

theorem allocated (h : r.IsWired) (hp : p ∈ r.postings) :
    p.buffer < (r.framesAt p.link).buffers.size :=
  (h.provided _ (claim_of_mem_postings hp)).1

/-- Nothing else is to be written to the same buffer. -/
theorem eq_of_cell (h : r.IsWired) (hp : p ∈ r.postings) (hq : q ∈ r.postings)
    (hcell : p.cell = q.cell) : p = q := by
  have hnodup : (r.postings.map Post.cell).Nodup :=
    Multiset.coe_nodup.mp (Multiset.nodup_of_le r.cells_postings h.apart)
  exact List.inj_on_of_nodup_map hnodup hp hq hcell

theorem mono (h : r.IsWired) (hclaims : r'.claims ≤ r.claims)
    (hsize : ∀ k, (r'.framesAt k).buffers.size = (r.framesAt k).buffers.size)
    (hlength : ∀ k i, (r'.framesAt k).length i = (r.framesAt k).length i)
    (hturning : ∀ k, (r'.framesAt k).IsRotation) : r'.IsWired := by
  refine ⟨Multiset.nodup_of_le (Multiset.map_le_map hclaims) h.apart, fun c hc => ?_, hturning⟩
  have hprovided := h.provided c (Multiset.mem_of_le hclaims hc)
  unfold Provides at *
  rwa [hsize, hlength]

/-- Only what shows in claims and snapshots matters. -/
theorem congr (h : r.IsWired) (hclaims : r'.claims = r.claims)
    (hframes : ∀ k, r'.framesAt k = r.framesAt k) : r'.IsWired := by
  apply h.mono hclaims.le
  · intro k
    rw [hframes]
  · intro k i
    rw [hframes]
  · intro k
    rw [hframes]
    exact h.turning k

end IsWired

end Registry

namespace Edit

variable {strict : Prop} {writer : ResourceId} {b b' : Book}

/-- An elementary change is quiet, or a chain of shifts. -/
theorem quiet_or_shifts (h : Edit strict writer b b') :
    b.registry.Quiet b'.registry ∨ b.registry.Shifts b'.registry := by
  cases h with
  | quiet h => exact .inl h
  | drop => exact .inl (.refl _)
  | enter type options => exact .inr (.single (.enter type _ options))
  | retain => exact .inr (Registry.shifts_retained _ _)
  | release => exact .inr (Registry.shifts_released _ _)
  | store h hstorage hprop hpart =>
    refine .inr (Registry.shifts_storeBytes fun res schema bytes hres hs => ?_)
    obtain rfl := Option.some.inj (h.symm.trans hres)
    rw [hstorage] at hs
    cases hs
    exact hpart
  | ship load h hlink => exact .inr (.single (.ship load h hlink))
  | remove h => exact .inr (.single (.remove h))

/-- An elementary change keeps every buffer. -/
theorem keepsBuffers (h : Edit strict writer b b') (hkeyed : b.registry.IsKeyed) :
    b.registry.KeepsBuffers b'.registry := by
  rcases h.quiet_or_shifts with hquiet | hshifts
  · exact .of_quiet hquiet
  · exact (hshifts.keepsBuffers hkeyed).1

/-- Every buffer goes on having one owner. -/
theorem isWired (h : Edit strict writer b b') (hkeyed : b.registry.IsKeyed)
    (hwired : b.registry.IsWired) : b'.registry.IsWired := by
  rcases h.quiet_or_shifts with hquiet | hshifts
  · exact hwired.congr hquiet.claims hquiet.framesAt
  · exact (hshifts.keepsBuffers hkeyed).2 hwired

end Edit

end Framecast
