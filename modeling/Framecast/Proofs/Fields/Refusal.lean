import Framecast.Proofs.Fields.Density
import Framecast.Proofs.Operation.Interning
import Framecast.Proofs.Run.Segments

/-!
# Writes that fail

A write checks everything that it names before it changes anything. From then on it
cannot fail: what was checked is there until it is retained, a text is there once it was
interned, and nothing that is done on the way removes the instance. So a write that
fails has changed nothing at all.
-/

namespace Framecast

namespace Registry

variable {r : Registry} {id : ResourceId} {prop : Property} {schema : Schema} {res : Resource}
  {bytes : Bytes}

/-- Storing references in an instance does not fail where all of them are there. -/
theorem ends_replaceRefs_live (hres : r.resource? id = some res)
    (hstorage : res.storage = .fields schema bytes) (prop : Property) {targets : List ResourceId}
    (hlive : ∀ x ∈ targets.filter (· != 0), ∃ target, r.resource? x = some target) :
    Ends (replaceRefs id prop targets) r (fun _ _ => True) (fun _ _ => False) := by
  apply (ends_replaceRefs_of_fields hres hstorage prop targets).imp
  · exact fun _ _ _ => trivial
  · rintro _ _ ⟨⟨x, hx, hnone⟩, -⟩
    obtain ⟨target, htarget⟩ := hlive x hx
    rw [hnone] at htarget
    cases htarget

/-- Writing a text to an instance does not fail: there is nothing to retain of the empty text, and
any other is there once it was interned. -/
theorem ends_writeText_live (hi : r.IndexesLive) (hres : r.resource? id = some res)
    (hstorage : res.storage = .fields schema bytes) (hne : id ≠ r.supply.nextId) (prop : Property)
    (text : String) :
    Ends (do let target ← createString text; replaceRefs id prop [target]) r
      (fun _ _ => True) (fun _ _ => False) := by
  by_cases hfull : text = ""
  · subst hfull
    exact ends_replaceRefs_live hres hstorage prop fun x hx => nomatch hx
  · rw [Ends.bind_iff]
    apply (ends_createString_interned hi hfull).imp
    · rintro _ interned ⟨rfl, target, hinterned⟩
      have hres' : interned.resource? id = some res := by
        rw [hinterned.interns.others id hne, hres]
      refine ends_replaceRefs_live hres' hstorage prop fun x hx => ⟨target, ?_⟩
      rw [List.mem_singleton.mp (List.mem_filter.mp hx).1]
      exact hinterned.found
    · exact fun _ _ h => h

/-- Writing a value to an instance changes nothing if it fails. -/
theorem ends_writeProp_refused (hw : r.WellFormed) (hi : r.IndexesLive) (hl : r.supply.Lasts)
    (hres : r.resource? id = some res) (hstorage : res.storage = .fields schema bytes)
    (hprop : prop ∈ schema.layout.props) (value : Value) :
    Ends (writeProp id prop value) r (fun _ _ => True) (fun _ after => after = r) := by
  have hsound := hw.sound hres
  rw [hstorage] at hsound
  have hown := hsound.1.sound prop hprop
  have hne : id ≠ r.supply.nextId := ne_nextId (hw.numbered hres).2 hl
  have hinst : r.IsInstance id schema := by
    intro found hfound
    rw [hres] at hfound
    cases hfound
    exact ⟨bytes, hstorage⟩
  unfold writeProp
  rw [Ends.bind_iff]
  apply (ends_liftSchema _ r).imp
  · rintro _ after ⟨rfl, hvalid⟩
    rw [Ends.bind_iff]
    apply (ends_checkTargets prop value after).imp
    · rintro _ r ⟨rfl, htargets⟩
      cases value with
      | text s =>
        exact (ends_writeText_live hi hres hstorage hne prop s).imp (fun _ _ h => h)
          fun _ _ h => h.elim
      | buffer b =>
        exact (ends_writeBuffer_of_fields hres hstorage hne prop b).imp (fun _ _ _ => trivial)
          fun _ _ h => h
      | ref target =>
        dsimp only
        split
        · exact (ends_updateSlice hres hstorage prop _).imp (fun _ _ _ => trivial)
            fun _ _ h => h.elim
        · exact (ends_replaceRefs_of_fields hres hstorage prop _).imp (fun _ _ _ => trivial)
            fun _ _ h => h.2 (Nat.le_refl 1)
      | refs slots =>
        have howning := prop.isOwningRef_of_validate_refs hown hvalid
        have hcount := (prop.kind_of_validate_refs hvalid).2
        exact (ends_replaceRefs_targets hw hinst hprop hown howning (by simpa using hcount)
          (filter_map_getD slots) htargets).imp (fun _ _ _ => trivial) fun _ _ h => h
      | bool | word | float | floats =>
        exact (ends_writePlain hinst hprop _ 0).imp (fun _ _ _ => trivial) fun _ _ h => h
    · exact fun _ _ h => h
  · exact fun _ _ h => h

/-- A write changes nothing if it fails. -/
theorem ends_put_refused (hw : r.WellFormed) (hi : r.IndexesLive) (hl : r.supply.Lasts)
    {name : String} {value : Value} {m : RegistryM Unit} (hm : IsPut id name value m) :
    Ends m r (fun _ _ => True) (fun _ after => after = r) :=
  hm.ends_of (fun _ => rfl) fun _ _ _ _ hres hstorage hprop =>
    ends_writeProp_refused hw hi hl hres hstorage (Layout.mem_of_prop? hprop).1 value

end Registry

/-- An operation that changes nothing if it fails leaves everything as it was then. -/
theorem Broadcast.eq_of_refused {b : Broadcast} {α : Type} {m : RegistryM α} {answer : α → Answer}
    (hm : Ends m b.registry (fun _ _ => True) (fun _ after => after = b.registry))
    (hanswer : ∀ a e, answer a ≠ .failed e) {e : ResourceError}
    (hfailed : (b.onRegistry m answer).1 = .failed e) : (b.onRegistry m answer).2 = b := by
  unfold onRegistry at hfailed ⊢
  split
  · rename_i a _ hrun
    rw [hrun] at hfailed
    exact absurd hfailed (hanswer a e)
  · rename_i hrun
    rw [show _ = b.registry from hm.of_error hrun]

namespace Run

variable {config : Config} {supply : Supply} {past : List Moment} {b : Broadcast}

/-- Whatever was done, while fewer than `2 ^ 32 - 1` numbers have been given out, a write of the host or
of a script that fails leaves everything as it was: all resources with their bytes and counts, the
indexes, the links with what is queued on them, the numbers that are still to be given out, and the
consumers. -/
theorem unchanged_of_refused (h : Run (.opened config supply) past b)
    (hc : ∀ m ∈ past, m.action.IsCompiled) (hl : b.registry.supply.Lasts) {id : ResourceId}
    {name : String} {value : Value} {action : Action}
    (haction : action = .setProp id name value ∨ action = .setPropFromScript id name value)
    {e : ResourceError} (hfailed : (b.step action).1 = .failed e) : (b.step action).2 = b := by
  have hw := h.wellFormed hc hl
  have hi := h.indexesLive hc hl
  rcases haction with rfl | rfl
  · exact Broadcast.eq_of_refused (Registry.ends_put_refused hw hi hl .host) nofun hfailed
  · exact Broadcast.eq_of_refused (Registry.ends_put_refused hw hi hl .script) nofun hfailed

end Run

namespace Samples

/-- A hub that has a link is given two others, of which the second leads nowhere. The first is not
counted, and the hub keeps the link that it has. -/
theorem unchanged_linked :
    ((linked [1]).2.step (.setProp 2 "links" (.refs [some 2, some 9]))).1 = .failed (.notFound 9) ∧
      ((linked [1]).2.step (.setProp 2 "links" (.refs [some 2, some 9]))).2 = (linked [1]).2 :=
  ⟨by decide +kernel, Run.unchanged_of_refused (.play _ _) (isCompiled_linked [1])
    (by decide +kernel) (.inl rfl) (by decide +kernel : _ = Answer.failed (.notFound 9))⟩

/-- A node, after which all other numbers were drawn elsewhere. -/
def agedNode : List Moment × Broadcast :=
  (Broadcast.opened ⟨.game, 4⟩ ⟨0, .initial⟩).play
    [.createInstance ⟨0, node⟩ [] {},
      .elsewhere (2 ^ 32 - 1) .initial]

/-- The node is given a name. -/
def namesNode : Action := .setProp 1 "name" (.text "a")

theorem isCompiled_agedNode : ∀ m ∈ agedNode.1, m.action.IsCompiled :=
  Broadcast.isCompiled_play _ (by simp [Action.IsCompiled, isCompiled_node])

/-- Where the numbers have come around, the text gets the number of the node that it is to name and
takes its place. The write fails, and a text is live where the node was. -/
theorem changed_agedNode :
    Run (.opened ⟨.game, 4⟩ ⟨0, .initial⟩) agedNode.1 agedNode.2 ∧
      (∀ m ∈ agedNode.1, m.action.IsCompiled) ∧
      (agedNode.2.step namesNode).1 = .failed (.typeMismatch 1 "schema instance" "string") ∧
      (agedNode.2.registry.resource? 1).map Resource.type = some "node" ∧
      ((agedNode.2.step namesNode).2.registry.resource? 1).map Resource.type = some "string" ∧
      (agedNode.2.step namesNode).2 ≠ agedNode.2 := by
  have hbefore : (agedNode.2.registry.resource? 1).map Resource.type = some "node" := by
    decide +kernel
  have hafter : ((agedNode.2.step namesNode).2.registry.resource? 1).map Resource.type =
      some "string" := by decide +kernel
  refine ⟨.play _ _, isCompiled_agedNode, by decide +kernel, hbefore, hafter, fun heq => ?_⟩
  rw [heq, hbefore] at hafter
  exact absurd hafter (by decide)

end Samples

end Framecast
