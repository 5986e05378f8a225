import Framecast.Proofs.Operation.Instance

/-!
# Taking answers in is quiet

What consumers answer changes how far the loading of a resource has come, and
ends waits. No resource, no link and no buffer shows a difference.
-/

namespace Framecast

namespace Registry

variable {r : Registry}

/-- What one answer can change: how far the loading of a resource has come and who waits for it, the
waits, and what the host is warned of. -/
inductive Learns (r : Registry) : Registry → Prop
  /-- The answer is not heard. -/
  | unheard : Learns r r
  /-- The answer is told to a resource. -/
  | told {after : Registry} (id : ResourceId) {f : Resource → Resource} (warnings : List Warning)
      (hf : ∀ res, ∃ load waiters, f res = { res with load, waiters })
      (h : ∃ waits, after = { r.modifyResource id f with
        waits, journal := r.journal ++ (warnings.map Notice.warning).toArray }) : Learns r after

/-- Taking one answer in changes only what an answer can change. -/
theorem learns_takeAck (r : Registry) (ack : Ack) : r.Learns (r.takeAck ack) := by
  have hsettled {id : ResourceId} {f : Resource → Resource} {journal : Array Notice}
      (warnings : List Warning) (hf : ∀ res, ∃ load waiters, f res = { res with load, waiters })
      (hjournal : journal = r.journal ++ (warnings.map Notice.warning).toArray)
      (outcome : Outcome) (tickets : List Ticket) :
      r.Learns (tickets.foldl (resolve outcome)
        (({ r with journal } : Registry).modifyResource id f)) := by
    refine .told id warnings hf ?_
    obtain ⟨waits, hwaits⟩ := foldl_resolve outcome tickets
      (({ r with journal } : Registry).modifyResource id f)
    refine ⟨waits, hwaits.trans ?_⟩
    rw [hjournal]
    unfold modifyResource
    dsimp only
    split <;> rfl
  unfold takeAck
  split
  · rename_i resource _
    unfold acknowledge
    split
    · rename_i remaining _ _
      split
      · exact hsettled (f := fun res => { res with load := .pending (remaining - 1) }) []
          (fun _ => ⟨_, _, rfl⟩) (by simp) (.ready resource.id) []
      · exact hsettled (f := fun res => { res with load := .loaded, waiters := [] }) []
          (fun _ => ⟨_, _, rfl⟩) (by simp) _ _
    · rename_i reason _ _
      exact hsettled (f := fun res => { res with load := .failed reason, waiters := [] })
        [.loadFailed ack.thread resource.id reason] (fun _ => ⟨_, _, rfl⟩) (by simp) _ _
    · exact .unheard
  · exact .unheard

/-- Taking one answer in gives no number out. -/
theorem Learns.supply {after : Registry} (h : r.Learns after) : after.supply = r.supply := by
  cases h with
  | unheard => rfl
  | told id warnings hf h =>
    obtain ⟨waits, rfl⟩ := h
    exact supply_modifyResource r id _

/-- Taking one answer in declares nothing. -/
theorem Learns.schemas {after : Registry} (h : r.Learns after) : after.schemas = r.schemas := by
  cases h with
  | unheard => rfl
  | told id warnings hf h =>
    obtain ⟨waits, rfl⟩ := h
    exact schemas_modifyResource r id _

/-- Taking one answer in leaves the links alone. -/
theorem Learns.links {after : Registry} (h : r.Learns after) : after.links = r.links := by
  cases h with
  | unheard => rfl
  | told id warnings hf h =>
    obtain ⟨waits, rfl⟩ := h
    exact links_modifyResource r id _

/-- Taking one answer in is quiet. -/
theorem Learns.quiet {after : Registry} (h : r.Learns after) : r.Quiet after := by
  cases h with
  | unheard => exact .refl r
  | told id warnings hf h =>
    obtain ⟨waits, rfl⟩ := h
    refine (quiet_modifyResource r id fun res => ?_).trans
      ⟨fun _ => rfl, rfl, rfl, rfl, rfl, rfl, rfl, Nat.le_refl _⟩
    obtain ⟨load, waiters, heq⟩ := hf res
    rw [heq]
    rfl

/-- What one answer keeps, all of them keep. -/
theorem processAcks_keep {P : Registry → Prop} (r : Registry)
    (hstep : ∀ s after, s.Learns after → P s → P after)
    (hP : P { r with
      links := r.links.map fun link => { link with wire := { link.wire with acks := #[] } } }) :
    P r.processAcks := by
  have hall (acks : List Ack) (s : Registry) (hs : P s) : P (acks.foldl takeAck s) := by
    induction acks generalizing s with
    | nil => exact hs
    | cons ack rest ih => exact ih _ (hstep s _ (learns_takeAck s ack) hs)
  exact hall _ _ hP

theorem quiet_processAcks (r : Registry) : r.Quiet r.processAcks := by
  apply processAcks_keep r fun s after h (hs : r.Quiet s) => hs.trans h.quiet
  refine ⟨fun _ => rfl, rfl, ?_, rfl, rfl, rfl, rfl, Nat.le_refl _⟩
  simp [Function.comp_def, Link.body]

theorem supply_processAcks (r : Registry) : r.processAcks.supply = r.supply :=
  processAcks_keep (P := fun s => s.supply = r.supply) r (fun _ _ h hs => h.supply.trans hs) rfl

theorem schemas_processAcks (r : Registry) : r.processAcks.schemas = r.schemas :=
  processAcks_keep (P := fun s => s.schemas = r.schemas) r (fun _ _ h hs => h.schemas.trans hs) rfl

/-- Declaring a type to be loadable is quiet. -/
theorem quiet_registerType (r : Registry) (type : String) : r.Quiet (r.registerType type) := by
  unfold registerType
  split
  · exact .refl r
  · exact ⟨fun _ => rfl, rfl, rfl, rfl, rfl, rfl, rfl, Nat.le_refl _⟩

/-- Waiting for a resource is quiet. -/
theorem quiet_await (r : Registry) (id : ResourceId) : r.Quiet (r.await id).2 := by
  have hwait (r : Registry) (wait : Wait) : r.Quiet (r.addWait wait).2 :=
    ⟨fun _ => rfl, rfl, rfl, rfl, rfl, rfl, rfl, Nat.le_refl _⟩
  unfold await
  refine (quiet_processAcks r).trans ?_
  dsimp only
  split
  · exact hwait _ _
  · split
    · exact hwait _ _
    · exact hwait _ _
    · exact (hwait _ _).trans (quiet_modifyResource _ _ fun _ => rfl)

/-- Waiting for a resource declares nothing. -/
theorem schemas_await (r : Registry) (id : ResourceId) : (r.await id).2.schemas = r.schemas := by
  unfold await
  dsimp only
  split
  · exact schemas_processAcks r
  · split
    · exact schemas_processAcks r
    · exact schemas_processAcks r
    · exact (schemas_modifyResource _ _ _).trans (schemas_processAcks r)

end Registry

end Framecast
