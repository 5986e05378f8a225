import Framecast.Proofs.Frames.Wiring
import Framecast.Proofs.Operation.Making
import Framecast.Proofs.Run.Steps

/-!
# What a new buffer holds

When an instance is sent over a link, it gets a buffer there that is new and holds
its bytes in all three slots. This is the last thing its creation does. Nothing else
gives a live instance a buffer: whatever is done, an instance posts to the buffers
that it had, or to those that it was just given and that hold what it holds.
-/

namespace Framecast

/-- The buffer that a sending allocates for the bytes of an instance is new and holds them in every
slot. -/
theorem Link.slots_ship (link : Link) (k : Nat) {res : Resource} (tick : Tick) {schema : Schema}
    {bytes : Bytes} (hs : res.storage = .fields schema bytes) {i : Nat}
    (hi : (link.ship k res tick).1.data? = some i) :
    link.wire.frames.buffers.size ≤ i ∧
      i < (link.ship k res tick).2.wire.frames.buffers.size ∧
      ∀ s < 3, (link.ship k res tick).2.wire.frames.slot i s = bytes := by
  have hone : (link.wire.frames.allocate [0]).2.buffers.size = link.wire.frames.buffers.size + 1 :=
    Array.size_push _
  unfold ship at *
  rw [hs] at *
  obtain rfl : (link.wire.frames.allocate [0]).2.buffers.size = i := Option.some.inj hi
  have htwo : ((link.wire.frames.allocate [0]).2.allocate bytes).2.buffers.size =
      (link.wire.frames.allocate [0]).2.buffers.size + 1 := Array.size_push _
  refine ⟨hone ▸ Nat.le_succ _, htwo ▸ Nat.lt_succ_self _, fun s hslot => ?_⟩
  exact (Snapshot.FrameLink.slot_allocate _ bytes _ hslot).trans (if_pos rfl)

/-- What is posted of a resource is the bytes of an instance, to one of its buffers. -/
theorem Resource.mem_posts {res : Resource} {p : Post} :
    p ∈ res.posts ↔ ∃ schema bytes, res.storage = .fields schema bytes ∧
      ∃ binding ∈ res.bindings, ∃ i, binding.data? = some i ∧ p = ⟨binding.link, i, bytes⟩ := by
  unfold posts
  cases res.storage with
  | payload _ => simp
  | fields schema bytes =>
    simp only [List.mem_filterMap, Option.map_eq_some_iff, Storage.fields.injEq]
    constructor
    · rintro ⟨binding, hbinding, i, hdata, rfl⟩
      exact ⟨schema, bytes, ⟨rfl, rfl⟩, binding, hbinding, i, hdata, rfl⟩
    · rintro ⟨_, _, ⟨rfl, rfl⟩, binding, hbinding, i, hdata, rfl⟩
      exact ⟨binding, hbinding, i, hdata, rfl⟩

theorem Resource.posts_payload {res : Resource} {p : Payload} (hs : res.storage = .payload p) :
    res.posts = [] := by
  unfold posts
  rw [hs]

theorem Mould.IsIncidental.payload {mould : Mould} (h : mould.IsIncidental) :
    ∃ p, mould.frame = .payload p := by
  cases h <;> exact ⟨_, rfl⟩

theorem Resource.posts_unsent {res : Resource} (h : res.bindings = []) : res.posts = [] := by
  unfold posts
  rw [h]
  cases res.storage <;> rfl

/-- Resources that differ in their count and their bytes only post to the same buffers. -/
theorem Resource.cells_of_standing {res res' : Resource} (h : res'.standing = res.standing) :
    res'.posts.map Post.cell = res.posts.map Post.cell := by
  obtain ⟨-, hbindings, -, -⟩ := Resource.of_standing h
  have hframe : res'.storage.frame = res.storage.frame :=
    congrArg Mould.frame (Resource.mould_of_standing h)
  cases hs : res.storage with
  | payload p =>
    rw [hs] at hframe
    rw [Resource.posts_payload hs, Resource.posts_payload (Storage.frame_eq_payload.mp hframe)]
  | fields schema bytes =>
    cases hs' : res'.storage with
    | payload p =>
      rw [hs, hs'] at hframe
      cases hframe
    | fields schema' bytes' =>
      unfold posts
      rw [hs, hs', hbindings]
      simp only [List.map_filterMap, Option.map_map]
      rfl

namespace Registry

variable {r s after : Registry} {id : ResourceId} {res : Resource} {p : Post}

/-- A buffer that was not there before and holds a snapshot in every slot. -/
structure Opens (r after : Registry) (p : Post) : Prop where
  /-- The buffer is new. -/
  fresh : (r.framesAt p.link).buffers.size ≤ p.buffer
  /-- It is there now. -/
  allocated : p.buffer < (after.framesAt p.link).buffers.size
  /-- Every slot holds the snapshot. -/
  slots : ∀ s < 3, (after.framesAt p.link).slot p.buffer s = p.bytes

theorem Opens.mono (h : s.Opens after p) {later : Registry}
    (hbefore : (r.framesAt p.link).Extends (s.framesAt p.link))
    (hlater : (after.framesAt p.link).Extends (later.framesAt p.link)) : r.Opens later p :=
  ⟨hbefore.size.trans h.fresh, Nat.lt_of_lt_of_le h.allocated hlater.size,
    fun slot hslot => (hlater.slot h.allocated slot).trans (h.slots slot hslot)⟩

/-- Sending an instance over one more link opens the buffers that it is given. -/
theorem opens_bindOne (r : Registry) (id : ResourceId) (res : Resource) (tick : Tick)
    (state : List Binding × List Link) (k : Nat) :
    (∀ j, ((r.sending id res state).framesAt j).Extends
      ((r.sending id res (bindOne res tick state k)).framesAt j)) ∧
    ∀ p ∈ ({ res with bindings := (bindOne res tick state k).1 } : Resource).posts,
      p ∈ ({ res with bindings := state.1 } : Resource).posts ∨
        (r.sending id res state).Opens (r.sending id res (bindOne res tick state k)) p := by
  cases hlink : state.2[k]? with
  | none =>
    have hsame : bindOne res tick state k = state := by
      unfold bindOne
      rw [updateLink_of_none _ hlink]
      exact Prod.ext (List.append_nil _) rfl
    rw [hsame]
    exact ⟨fun _ => .refl _, fun p hp => .inl hp⟩
  | some link =>
    have hsent : bindOne res tick state k = (state.1 ++ [(link.ship k res tick).1],
        state.2.set k (link.ship k res tick).2) := by
      unfold bindOne
      rw [updateLink_of_some _ hlink]
      rfl
    rw [hsent]
    have hk : k < state.2.length := (List.getElem?_eq_some_iff.mp hlink).1
    have hbefore : (r.sending id res state).framesAt k = link.wire.frames := by
      unfold framesAt sending
      simp only [hlink]
    have hafter (bindings : List Binding) : (r.sending id res
        (bindings, state.2.set k (link.ship k res tick).2)).framesAt k =
          (link.ship k res tick).2.wire.frames := by
      unfold framesAt sending
      simp only [List.getElem?_set_self hk]
    refine ⟨fun j => ?_, fun p hp => ?_⟩
    · by_cases hjk : j = k
      · subst hjk
        rw [hbefore, hafter]
        exact (link.ship_claims j res tick).1
      · have hother : (r.sending id res (state.1 ++ [(link.ship k res tick).1],
            state.2.set k (link.ship k res tick).2)).framesAt j =
              (r.sending id res state).framesAt j := by
          apply framesAt_congr
          unfold sending
          rw [List.getElem?_set_ne (Ne.symm hjk)]
        rw [hother]
        exact .refl _
    · obtain ⟨schema, bytes, hs, binding, hbinding, i, hdata, rfl⟩ := Resource.mem_posts.mp hp
      rcases List.mem_append.mp hbinding with hold | hnew
      · exact .inl (Resource.mem_posts.mpr ⟨schema, bytes, hs, binding, hold, i, hdata, rfl⟩)
      · obtain rfl : binding = (link.ship k res tick).1 := List.mem_singleton.mp hnew
        obtain ⟨hfresh, hallocated, hslots⟩ := link.slots_ship k tick hs hdata
        refine .inr ⟨?_, ?_, fun slot hslot => ?_⟩
        · exact hbefore ▸ hfresh
        · exact (hafter _).symm ▸ hallocated
        · exact (hafter _).symm ▸ hslots slot hslot

/-- Sending an instance over links one after another opens the buffers that it is given. -/
theorem opens_foldl_bindOne (r : Registry) (id : ResourceId) (res : Resource) (tick : Tick)
    (positions : List Nat) (state : List Binding × List Link) :
    (∀ j, ((r.sending id res state).framesAt j).Extends
      ((r.sending id res (positions.foldl (bindOne res tick) state)).framesAt j)) ∧
    ∀ p ∈ ({ res with
        bindings := (positions.foldl (bindOne res tick) state).1 } : Resource).posts,
      p ∈ ({ res with bindings := state.1 } : Resource).posts ∨
        (r.sending id res state).Opens
          (r.sending id res (positions.foldl (bindOne res tick) state)) p := by
  induction positions generalizing state with
  | nil => exact ⟨fun _ => .refl _, fun p hp => .inl hp⟩
  | cons k rest ih =>
    obtain ⟨hone, hfirst⟩ := opens_bindOne r id res tick state k
    obtain ⟨hmore, hrest⟩ := ih (bindOne res tick state k)
    refine ⟨fun j => (hone j).trans (hmore j), fun p hp => ?_⟩
    rcases hrest p hp with hp | hopens
    · exact (hfirst p hp).imp_right fun hopens => hopens.mono (.refl _) (hmore p.link)
    · exact .inr (hopens.mono (hone p.link) (.refl _))

/-- Binding an instance to links opens the buffers that it is given there, and no other instance is
given any. -/
theorem ends_bind_opens (h : r.resource? id = some res) (positions : List Nat) :
    Ends (bind id positions) r
      (fun _ after => ∀ x found, after.resource? x = some found → ∀ p ∈ found.posts,
        (∃ old, r.resource? x = some old ∧ p ∈ old.posts) ∨ r.Opens after p)
      (fun _ _ => False) := by
  unfold bind find
  simp only [Ends.bind_iff, Ends.get_iff, h, Ends.pure_iff, Ends.modify_iff]
  obtain ⟨-, hopens⟩ := opens_foldl_bindOne r id res r.tick positions (res.bindings, r.links)
  intro x found hfound p hp
  have hlookup := (getElem?_insert _ _ _ _).symm.trans hfound
  split at hlookup
  · rename_i hx
    cases hlookup
    rcases hopens p hp with hold | hopened
    · exact .inl ⟨res, hx ▸ h, hold⟩
    · exact .inr ⟨hopened.fresh, hopened.allocated, hopened.slots⟩
  · exact .inl ⟨found, hlookup, hp⟩

/-- Whether a live instance posts its bytes to a buffer. -/
def Serves (r : Registry) (cell : Nat × Nat) : Prop :=
  ∃ id res, r.resource? id = some res ∧ cell ∈ res.posts.map Post.cell

/-- A registry in which live instances post to no buffers but those that some did before. -/
def Inherits (r after : Registry) : Prop := ∀ cell, after.Serves cell → r.Serves cell

namespace Inherits

protected theorem refl (r : Registry) : r.Inherits r := fun _ h => h

/-- Whatever posts anywhere may have posted there before. -/
theorem of_origin (h : r.Inherits s)
    (horigin : ∀ x res', after.resource? x = some res' → res'.posts ≠ [] →
      ∃ res, s.resource? x = some res ∧ res'.posts.map Post.cell = res.posts.map Post.cell) :
    r.Inherits after := by
  rintro cell ⟨x, res', hres', hcell⟩
  obtain ⟨res, hres, heq⟩ := horigin x res' hres' fun hnil => by
    rw [hnil] at hcell
    cases hcell
  exact h cell ⟨x, res, hres, heq ▸ hcell⟩

/-- What posts nothing may be placed anywhere. -/
theorem place (h : r.Inherits s) (hplaces : s.Places after id res) (hnone : res.posts = []) :
    r.Inherits after := by
  refine h.of_origin fun x found hfound hposts => ?_
  by_cases hx : x = id
  · rw [hx, hplaces.found] at hfound
    cases hfound
    exact absurd hnone hposts
  · rw [hplaces.others x hx] at hfound
    exact ⟨found, hfound, rfl⟩

/-- A stroke gives no instance a buffer. -/
theorem stroke (h : r.Inherits s) (hstroke : s.Stroke after) : r.Inherits after := by
  cases hstroke with
  | declare => exact h
  | touch id hf =>
    refine h.of_origin fun x res' hres' _ => ?_
    have hstanding := standing_modifyResource s id hf x
    rw [hres', Option.map_some] at hstanding
    obtain ⟨res, hres, heq⟩ := Option.map_eq_some_iff.mp hstanding.symm
    exact ⟨res, hres, Resource.cells_of_standing heq.symm⟩
  | @add _ res hadds _ hmould =>
    obtain ⟨p, hframe⟩ := hmould.payload
    exact h.place hadds.toPlaces (Resource.posts_payload (Storage.frame_eq_payload.mp hframe))
  | remove hgone =>
    refine h.of_origin fun x res hres _ => ?_
    rw [resource?_remove] at hres
    split at hres
    · cases hres
    · exact ⟨res, hres, rfl⟩

theorem strokes (h : r.Inherits s) (hstrokes : s.Strokes after) : r.Inherits after := by
  induction hstrokes with
  | refl => exact h
  | tail _ hone ih => exact ih.stroke hone

/-- Where resources have their bodies, they post to the same buffers. -/
theorem of_body (hbody : ∀ x, (after.resource? x).map Resource.body =
    (r.resource? x).map Resource.body) : r.Inherits after := by
  refine (Inherits.refl r).of_origin fun x res' hres' _ => ?_
  have hx := hbody x
  rw [hres', Option.map_some] at hx
  obtain ⟨res, hres, heq⟩ := Option.map_eq_some_iff.mp hx.symm
  refine ⟨res, hres, congrArg (List.map Post.cell) ?_⟩
  unfold Resource.posts
  rw [Resource.bindings_of_body heq, Resource.storage_of_body heq]

end Inherits

/-- A registry in which live instances post to the buffers that they or others had, or to new ones
that hold what is posted. -/
def Renews (r after : Registry) : Prop :=
  ∀ x res, after.resource? x = some res → ∀ p ∈ res.posts, r.Serves p.cell ∨ r.Opens after p

theorem Inherits.renews (h : r.Inherits after) : r.Renews after :=
  fun x res hres _ hp => .inl (h _ ⟨x, res, hres, List.mem_map_of_mem hp⟩)

/-- An operation that is a chain of acts gives no instance a buffer. -/
theorem Within.renews {α : Type} {m : RegistryM α} (hm : Traced m) (r : Registry) :
    Ends m r (fun _ after => r.Renews after) (fun _ after => r.Renews after) :=
  (hm r).imp
    (fun _ _ h => ((Inherits.refl r).strokes (Acts.strokes h)).renews)
    fun _ _ h => ((Inherits.refl r).strokes (Acts.strokes h)).renews

/-- Giving an instance a hook gives none a buffer. -/
theorem Inherits.hook (h : r.Inherits s) {old : Resource} (hold : s.resource? id = some old)
    (hook? : Option String) :
    r.Inherits (s.modifyResource id fun resource => { resource with hook? }) := by
  have hhooked := places_hook hold hook?
  refine h.of_origin fun x found hfound _ => ?_
  by_cases hx : x = id
  · rw [hx, hhooked.found] at hfound
    cases hfound
    exact ⟨old, hx ▸ hold, rfl⟩
  · rw [hhooked.others x hx] at hfound
    exact ⟨found, hfound, rfl⟩

/-- Sending an instance opens the buffers that it is given. -/
theorem ends_sendInstance_renews (hinherits : r.Inherits s)
    (hextends : ∀ k, (r.framesAt k).Extends (s.framesAt k)) (id : ResourceId)
    (hook? : Option String) :
    Ends (do
        modify (·.modifyResource id fun resource => { resource with hook? })
        bind id (← get).allLinks
        return id) s
      (fun _ after => r.Renews after) (fun _ after => r.Renews after) := by
  rw [Ends.bind_iff, Ends.modify_iff, Ends.bind_iff, Ends.get_iff, Ends.bind_iff]
  cases hold : s.resource? id with
  | none =>
    rw [modifyResource_of_none hold]
    refine (ends_bind_of_none hold _).imp (fun _ _ h => h.elim) ?_
    rintro _ after rfl
    exact hinherits.renews
  | some old =>
    refine (ends_bind_opens (places_hook hold hook?).found _).imp ?_ fun _ _ h => h.elim
    intro _ after hopens
    rw [Ends.pure_iff]
    intro x found hfound p hp
    have hlinks : (s.modifyResource id fun resource => { resource with hook? }).framesAt p.link =
        s.framesAt p.link := framesAt_congr (by rw [links_modifyResource])
    rcases hopens x found hfound p hp with ⟨old', hold', hp⟩ | hopened
    · exact .inl (hinherits.hook hold hook? p.cell ⟨x, old', hold', List.mem_map_of_mem hp⟩)
    · exact .inr (hopened.mono (hlinks ▸ hextends p.link) (.refl _))

/-- Filling an instance and sending it opens the buffers that it is given. -/
theorem ends_fillInstance_renews {schema : Schema} (hw : s.WellFormed) (hf : s.Filling id schema)
    (hsound : schema.layout.IsSound) (hinherits : r.Inherits s)
    (hextends : ∀ k, (r.framesAt k).Extends (s.framesAt k)) {values : List (Property × Value)}
    (hvalues : ∀ given ∈ values, given.1 ∈ schema.layout.props) (options : Options) :
    Ends (fillInstance id values options) s
      (fun _ after => after.supply.Lasts → r.Renews after)
      (fun _ after => after.supply.Lasts → r.Renews after) := by
  unfold fillInstance
  rw [Ends.bind_iff, ends_writeAll_iff]
  refine ((spans_acts.writeEach id values s).and (ends_writeEach hw hf hsound hvalues)).imp ?_ ?_
  · rintro _ filled ⟨hacts, hwrites⟩
    apply (grows_sendInstance id options.hook?).ends_of_lasts
    intro hl
    obtain ⟨limit, hwrites⟩ := hwrites hl
    have hframes (k : Nat) : (r.framesAt k).Extends (filled.framesAt k) :=
      (hwrites.keepsOutside.changes.keep (P := fun after => (r.framesAt k).Extends (after.framesAt k))
        hw hl (fun _ _ _ _ hw₁ _ _ hedit h => h.trans ((hedit.keepsBuffers hw₁.isKeyed).frames k)) (hextends k)).2
    exact (ends_sendInstance_renews (hinherits.strokes (Acts.strokes hacts)) hframes id
      options.hook?).imp (fun _ _ h _ => h) fun _ _ h _ => h
  · rintro _ filled ⟨hacts, -⟩ _
    exact ((hinherits.strokes (Acts.strokes hacts)).strokes (strokes_destroy filled id)).renews

/-- Creating an instance opens the buffers that it is given. -/
theorem ends_createInstance_renews {schema : Schema} (hw : r.WellFormed)
    (hsound : schema.layout.IsSound) (props : List (String × Value)) (options : Options) :
    Ends (createInstance schema props options) r
      (fun _ after => after.supply.Lasts → r.Renews after)
      (fun _ after => after.supply.Lasts → r.Renews after) := by
  have hnone (schemas : Std.TreeMap String Schema) : r.Inherits { r with schemas } := .refl r
  apply ends_createInstance_filling hw hsound
  · exact fun _ schemas _ => (hnone schemas).renews
  · exact fun _ schemas => (hnone schemas).renews
  · rintro schemas bytes values hdrafted _ rfl - hwentered hf
    have hplaces := places_insert { r with schemas } schema.name (.fields schema bytes)
      { options with hook? := none }
    exact ends_fillInstance_renews hwentered hf hsound
      ((hnone schemas).place hplaces (Resource.posts_unsent rfl)) (fun _ => .refl _)
      hdrafted.mem_props options

end Registry

/-- Whatever is done, a live instance posts to buffers that were posted to before, or to new ones
that hold what is posted. -/
theorem Broadcast.renews_step {b : Broadcast} {action : Action} (hc : action.IsCompiled)
    (hw : b.registry.WellFormed) (hl : (b.step action).2.registry.supply.Lasts) :
    b.registry.Renews (b.step action).2.registry := by
  have htraced {α : Type} {m : RegistryM α} (hm : Registry.Traced m) (answer : α → Answer) :
      b.registry.Renews (b.onRegistry m answer).2.registry :=
    onRegistry_after (hm.renews b.registry) answer
  cases hinternal : action.isInternal with
  | false => exact (Registry.Inherits.of_body (sameBodies_step hinternal).resources).renews
  | true =>
    cases action with
    | registerType type =>
      exact (Registry.Inherits.of_body
        (Registry.quiet_registerType b.registry type).resources).renews
    | createOpaque thread type p options =>
      apply onRegistry_after (P := fun after => b.registry.Renews after)
      refine (Registry.ends_createOpaque_adds thread type p options b.registry).imp ?_ ?_
      · rintro _ after (⟨rfl, -⟩ | ⟨-, res, hadds, -, hmould⟩)
        · exact (Registry.Inherits.refl _).renews
        · refine ((Registry.Inherits.refl _).place hadds.toPlaces
            (Resource.posts_payload (p := p) ?_)).renews
          exact Storage.frame_eq_payload.mp (congrArg Mould.frame hmould)
      · rintro _ after rfl
        exact (Registry.Inherits.refl _).renews
    | createInstance schema props options =>
      exact (onRegistry_after (P := fun after => after.supply.Lasts → b.registry.Renews after)
        (Registry.ends_createInstance_renews hw hc.isSound props options) .created) hl
    | createString text => exact htraced (Registry.spans_acts.createString text) _
    | createBuffer buffer => exact htraced (Registry.spans_acts.createBuffer buffer) _
    | retain id => exact htraced (Registry.spans_acts.retain id) _
    | dispose id => exact htraced (Registry.spans_acts.dispose id) _
    | setProp id name value => exact htraced (Registry.spans_acts.put .host) _
    | setPropFromScript id name value => exact htraced (Registry.spans_acts.put .script) _
    | await id =>
      exact (Registry.Inherits.of_body (Registry.quiet_await b.registry id).resources).renews
    | processAcks =>
      exact (Registry.Inherits.of_body (Registry.quiet_processAcks b.registry).resources).renews
    | elsewhere drawn pool =>
      have hinherits : b.registry.Inherits (b.step (.elsewhere drawn pool)).2.registry :=
        .of_body fun _ => rfl
      exact hinherits.renews
    | setTick | connect | commit | flush | registerLoader | update | hangUp => cases hinternal

end Framecast
