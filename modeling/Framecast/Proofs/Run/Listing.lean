import Framecast.Proofs.Operation.Making
import Framecast.Proofs.Registry.Listing
import Framecast.Proofs.Run.Segments

/-!
# What a run makes and lists

Everything that is live in a run is as it was asked for when it was created, or was
made on the way of a write, and the indexes of the registry show exactly what is live.
Numbers are listed in the order of creation.
-/

namespace Framecast

namespace Action

/-- The mould of what is asked for. -/
def mould? : Action → Option Mould
  | .createOpaque _ type p options => some ⟨type, options.cacheKey?, .payload p⟩
  | .createInstance schema _ options => some ⟨schema.name, options.cacheKey?, .fields schema []⟩
  | _ => none

end Action

/-- What an action answers to have made, under its number. It may have been there before. -/
def Moment.made? (m : Moment) : Option (ResourceId × Mould) :=
  match m.answer with
  | .created id => m.action.mould?.map fun mould => (id, mould)
  | _ => none

/-- A resource that evolves keeps its mould. -/
theorem Resource.Evolves.mould_eq {res res' : Resource} (h : res.Evolves res') :
    res'.mould = res.mould := by
  have hframe : res'.storage.frame = res.storage.frame := by
    have hstorage := h.storage
    cases hs : res.storage with
    | payload p =>
      rw [hs] at hstorage
      rw [show res'.storage = .payload p from hstorage]
    | fields schema bytes =>
      rw [hs] at hstorage
      obtain ⟨bytes', heq, -⟩ := hstorage
      rw [heq]
      rfl
  unfold mould
  rw [h.type, h.key, hframe]

theorem Resource.frame_mould {res : Resource} {schema : Schema} {bytes : Bytes}
    (h : res.storage = .fields schema bytes) : res.mould.frame = .fields schema [] :=
  congrArg Storage.frame h

namespace Broadcast

variable {b : Broadcast} {action : Action}

/-- Every action makes what it was asked for, and what is incidental. -/
theorem makes_step (hc : action.IsCompiled) (hw : b.registry.WellFormed)
    (hi : b.registry.IndexesLive) (hl : (b.step action).2.registry.supply.Lasts) :
    b.registry.Makes (b.step action).2.registry (Moment.made? ⟨b, action⟩) := by
  have hbody (h : ∀ id, ((b.step action).2.registry.resource? id).map Resource.body =
      (b.registry.resource? id).map Resource.body) :
      b.registry.Makes (b.step action).2.registry (Moment.made? ⟨b, action⟩) := by
    intro x res hres hnew
    have hx := h x
    rw [hres, Option.map_some] at hx
    obtain ⟨old, hold, -⟩ := Option.map_eq_some_iff.mp hx.symm
    exact absurd (hw.numbered hold).2 (Nat.not_le_of_lt hnew)
  have hasked {m : RegistryM ResourceId} {mould : Mould} (hmould : action.mould? = some mould)
      (hstep : b.step action = b.onRegistry m .created)
      (hm : Ends m b.registry
        (fun id after => after.supply.Lasts → b.registry.Makes after (some (id, mould)))
        (fun _ after => after.supply.Lasts → b.registry.Makes after none)) :
      b.registry.Makes (b.step action).2.registry (Moment.made? ⟨b, action⟩) := by
    unfold Moment.made? Moment.answer
    rcases (onRegistry_ends hm .created).1 with ⟨id, hanswer, h⟩ | ⟨e, hanswer, h⟩
    all_goals
      rw [← hstep] at hanswer h
      rw [hanswer]
      dsimp only
    · rw [hmould]
      exact h hl
    · exact h hl
  have htraced {α : Type} {m : RegistryM α} {answer : α → Answer} (hm : Registry.Traced m)
      (hmould : action.mould? = none) (hstep : b.step action = b.onRegistry m answer) :
      b.registry.Makes (b.step action).2.registry (Moment.made? ⟨b, action⟩) := by
    have hmade : Moment.made? ⟨b, action⟩ = none := by
      unfold Moment.made?
      rw [hmould]
      split <;> rfl
    rw [hmade]
    rw [hstep] at hl ⊢
    exact onRegistry_after (P := fun after => after.supply.Lasts → b.registry.Makes after none)
      (hm.makes hw) answer hl
  cases hinternal : action.isInternal with
  | false => exact hbody (sameBodies_step hinternal).resources
  | true =>
    cases action with
    | registerType type => exact hbody (Registry.quiet_registerType b.registry type).resources
    | createOpaque thread type p options =>
      exact hasked rfl rfl ((Registry.ends_createOpaque_makes hw hi thread type p options).imp
        (fun _ _ h _ => h) fun _ _ h _ => h)
    | createInstance schema props options =>
      exact hasked rfl rfl (Registry.ends_createInstance_makes hw hi hc.isSound props options)
    | createString text => exact htraced (Registry.spans_acts.createString text) rfl rfl
    | createBuffer buffer => exact htraced (Registry.spans_acts.createBuffer buffer) rfl rfl
    | retain id => exact htraced (Registry.spans_acts.retain id) rfl rfl
    | dispose id => exact htraced (Registry.spans_acts.dispose id) rfl rfl
    | setProp id name value => exact htraced (Registry.spans_acts.put .host) rfl rfl
    | setPropFromScript id name value =>
      exact htraced (Registry.spans_acts.put .script) rfl rfl
    | await id => exact hbody (Registry.quiet_await b.registry id).resources
    | processAcks => exact hbody (Registry.quiet_processAcks b.registry).resources
    | elsewhere drawn pool => exact hbody fun _ => rfl
    | setTick | connect | commit | flush | registerLoader | update | hangUp => cases hinternal

end Broadcast

/-- How what is live at the end of a run came to be. -/
structure Makings (past : List Moment) (b : Broadcast) : Prop where
  /-- It was made at the moment at which its number was given out: as it was asked for, if the answer
  was this number, and on the way of something else if not. -/
  made : ∀ x res, b.registry.resource? x = some res →
    ∃ m ∈ past, m.Draws x ∧ res.mould.Suits x m.made?
  /-- Of two resources, the one that was created earlier has the lower number. -/
  ordered : ∀ m ∈ past, ∀ x y res res', m.before.registry.resource? x = some res →
    m.before.registry.resource? y = none → b.registry.resource? y = some res' → x < y

namespace Run

variable {config : Config} {supply : Supply} {past : List Moment} {b : Broadcast}

/-- In every run, what is live is in the indexes. -/
theorem indexesFull (h : Run (.opened config supply) past b)
    (hc : ∀ m ∈ past, m.action.IsCompiled) (hl : b.registry.supply.Lasts) :
    b.registry.IndexesFull := by
  refine h.keeps (P := fun _ b => b.registry.IndexesFull) hc hl ?_ ?_
  · refine ⟨fun x res hres => ?_, fun x res slot hres => ?_, fun type => .nil, List.nodup_nil⟩
    all_goals
      rw [Broadcast.resource?_opened] at hres
      cases hres
  · intro past b action h hrest hone hlasts hl ih
    have hw := h.wellFormed hrest hlasts
    cases hinternal : action.isInternal with
    | true =>
      exact (Broadcast.changes_step hinternal hone hw hl).indexesFull hw hl
        (h.indexesLive hrest hlasts) ih
    | false =>
      have hsame := Broadcast.sameBodies_step (b := b) hinternal
      exact ih.congr hsame.indexes (.of_body hsame.resources)

/-- Whatever is live in a run was made when its number was given out. -/
theorem makings (h : Run (.opened config supply) past b)
    (hc : ∀ m ∈ past, m.action.IsCompiled) (hl : b.registry.supply.Lasts) :
    Makings past b := by
  constructor
  · refine h.keeps (P := fun past b => ∀ x res, b.registry.resource? x = some res →
      ∃ m ∈ past, m.Draws x ∧ res.mould.Suits x m.made?) hc hl ?_ ?_
    · intro x res hres
      rw [Broadcast.resource?_opened] at hres
      cases hres
    · intro past b action h hrest hone hlasts hl ih x res' hres'
      have hw := h.wellFormed hrest hlasts
      by_cases hx : x.toNat ≤ b.registry.supply.issued
      · obtain ⟨res, hres, hevolves⟩ := Broadcast.origin_step hone hw hl hx hres'
        obtain ⟨m, hm, hdraws, hsuits⟩ := ih x res hres
        exact ⟨m, List.mem_cons_of_mem _ hm, hdraws, hevolves.mould_eq ▸ hsuits⟩
      · have hnew := Nat.not_le.mp hx
        have hw' := Broadcast.wellFormed_step hone hw hl
        exact ⟨⟨b, action⟩, List.mem_cons_self, ⟨hnew, (hw'.numbered hres').2⟩,
          Broadcast.makes_step hone hw (h.indexesLive hrest hlasts) hl x res' hres' hnew⟩
  · intro m hm x y res res' hres hnone hres'
    have hnew := h.issued_lt_of_none hc hl hm hres' hnone
    obtain ⟨later, earlier, rfl, hbefore, hissued⟩ := h.before_of_mem hc hm
    have hrest : ∀ m' ∈ earlier, m'.action.IsCompiled := fun m' hm' =>
      hc m' (List.mem_append_right _ (List.mem_cons_of_mem _ hm'))
    have hw := hbefore.wellFormed hrest (hl.mono hissued)
    exact UInt32.lt_iff_toNat_lt.mpr (Nat.lt_of_le_of_lt (hw.numbered hres).2 hnew)

/-- In every run the indexes show exactly what is live: by type, in the order of creation, and by
key, where everything has the type and the key that it was made with. -/
theorem lists_live (h : Run (.opened config supply) past b)
    (hc : ∀ m ∈ past, m.action.IsCompiled) (hl : b.registry.supply.Lasts) :
    b.registry.IndexesAgree ∧ Makings past b :=
  ⟨(h.indexesFull hc hl).agree (h.indexesLive hc hl), h.makings hc hl⟩

end Run

namespace Samples

/-- A node that is created under a key and asked for again, two nodes that refer to it, and the removal
of one of them, which takes its text along and leaves the node to the host. -/
def keyedNodes : List Moment × Broadcast :=
  (Broadcast.opened ⟨.game, 8⟩ ⟨0, .initial⟩).play
    [.createInstance ⟨0, node⟩ [("name", .text "a")] { cacheKey? := some (.number 7) },
      .createInstance ⟨0, node⟩ [("name", .text "b"), ("next", .ref (some 1))] {},
      .createInstance ⟨0, node⟩ [] { cacheKey? := some (.number 7) },
      .retain 1,
      .createInstance ⟨0, node⟩ [("name", .text "a"), ("next", .ref (some 1))] {},
      .dispose 3]

theorem isCompiled_keyedNodes : ∀ m ∈ keyedNodes.1, m.action.IsCompiled :=
  Broadcast.isCompiled_play _ (by simp [Action.IsCompiled, isCompiled_node])

/-- Two nodes and a text are left, in the order of creation and under their keys. -/
theorem lists_live_keyedNodes :
    keyedNodes.2.registry.IndexesAgree ∧ Makings keyedNodes.1 keyedNodes.2 ∧
      keyedNodes.2.registry.idsOfType "node" = [1, 5] ∧
      keyedNodes.2.registry.cached? "node" (some (.number 7)) = some 1 ∧
      keyedNodes.2.registry.cached? stringType (some (.text "a")) = some 2 ∧
      keyedNodes.2.registry.cached? stringType (some (.text "b")) = none := by
  obtain ⟨hagree, hmakings⟩ :=
    Run.lists_live (.play _ _) isCompiled_keyedNodes (by decide +kernel)
  exact ⟨hagree, hmakings, by decide +kernel, by decide +kernel, by decide +kernel,
    by decide +kernel⟩

end Samples

end Framecast
