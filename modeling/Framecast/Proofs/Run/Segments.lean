import Framecast.Proofs.Registry.Indexes
import Framecast.Proofs.Run.Steps

/-!
# Parts of a run

A run that was made of compiled schemas and in which numbers lasted was so at every
moment on the way. Every beginning of a run is a run, and what is live at the end
under a number that was given out earlier was live then.
-/

namespace Framecast

/-- A number that was given out at some moment. -/
def Moment.Draws (m : Moment) (x : ResourceId) : Prop :=
  m.before.registry.supply.issued < x.toNat ∧ x.toNat ≤ m.after.registry.supply.issued

namespace Run

variable {config : Config} {supply : Supply} {past later earlier : List Moment} {m : Moment}
  {b b₁ : Broadcast}

/-- In every run, what is in an index is live. -/
theorem indexesLive (h : Run (.opened config supply) past b)
    (hc : ∀ m ∈ past, m.action.IsCompiled) (hl : b.registry.supply.Lasts) :
    b.registry.IndexesLive := by
  refine h.kept (P := fun b => b.registry.IndexesLive) hc hl ?_ ?_
  · have hnone (type : String) : (Broadcast.opened config supply).registry.listed type = [] := rfl
    refine ⟨fun type => ?_, fun type x hx => ?_, fun slot x hx => ?_⟩
    · rw [hnone]
      exact List.nodup_nil
    · rw [hnone] at hx
      cases hx
    · cases hx
  · intro b action hw hone hl ih
    cases hinternal : action.isInternal with
    | true => exact (Broadcast.changes_step hinternal hone hw hl).indexesLive hw hl ih
    | false =>
      have hsame := Broadcast.sameBodies_step (b := b) hinternal
      exact ih.of_body hsame.indexes hsame.resources

theorem end_eq {start : Broadcast} (h : Run start (m :: past) b) : b = m.after := by
  cases h with
  | snoc h action => rfl

theorem append {start : Broadcast} (h₁ : Run start earlier b₁) (h : Run b₁ later b) :
    Run start (later ++ earlier) b := by
  induction h with
  | nil => exact h₁
  | snoc _ action ih => exact .snoc ih action

theorem init {start : Broadcast} (h : Run start (m :: past) b) : Run start past m.before := by
  cases h with
  | snoc h action => exact h

/-- Numbers had lasted before the last action of a run. -/
theorem init_lasts {start : Broadcast} (h : Run start (m :: past) b)
    (hc : ∀ m' ∈ m :: past, m'.action.IsCompiled) (hl : b.registry.supply.Lasts) :
    (∀ m' ∈ past, m'.action.IsCompiled) ∧ m.before.registry.supply.Lasts := by
  refine ⟨fun m' hm => hc m' (List.mem_cons_of_mem _ hm), hl.mono ?_⟩
  rw [h.end_eq]
  exact m.before.issued_le_step (hc m List.mem_cons_self)

/-- Actions lead to one end. -/
theorem end_unique {start : Broadcast} (h : Run start past b) (h₁ : Run start past b₁) :
    b₁ = b := by
  cases h with
  | nil =>
    cases h₁
    rfl
  | snoc h action => exact h₁.end_eq

/-- The beginning of a run is a run, and fewer numbers were given out in it. -/
theorem beginning (h : Run (.opened config supply) (later ++ earlier) b)
    (hc : ∀ m ∈ later ++ earlier, m.action.IsCompiled) :
    ∃ b₁, Run (.opened config supply) earlier b₁ ∧
      b₁.registry.supply.issued ≤ b.registry.supply.issued := by
  induction later generalizing b with
  | nil => exact ⟨b, h, Nat.le_refl _⟩
  | cons m later ih =>
    have hrest : ∀ m' ∈ later ++ earlier, m'.action.IsCompiled :=
      fun m' hm => hc m' (List.mem_cons_of_mem _ hm)
    obtain ⟨b₁, h₁, hissued⟩ := ih h.init hrest
    refine ⟨b₁, h₁, hissued.trans ?_⟩
    rw [h.end_eq]
    exact m.before.issued_le_step (hc m List.mem_cons_self)

/-- A run leads to each of its moments. -/
theorem before_of_mem (h : Run (.opened config supply) past b)
    (hc : ∀ m ∈ past, m.action.IsCompiled) (hm : m ∈ past) :
    ∃ later earlier, past = later ++ m :: earlier ∧
      Run (.opened config supply) earlier m.before ∧
        m.before.registry.supply.issued ≤ b.registry.supply.issued := by
  obtain ⟨later, earlier, rfl⟩ := List.append_of_mem hm
  refine ⟨later, earlier, rfl, ?_⟩
  obtain ⟨b₁, h₁, hissued⟩ := h.beginning hc
  have hone : m.action.IsCompiled := hc m (List.mem_append_right _ List.mem_cons_self)
  rw [h₁.end_eq] at hissued
  exact ⟨h₁.init, (m.before.issued_le_step hone).trans hissued⟩

/-- What is live under a number that was given out in the beginning of a run was live then. -/
theorem origin (h : Run (.opened config supply) (later ++ earlier) b)
    (hc : ∀ m ∈ later ++ earlier, m.action.IsCompiled) (hl : b.registry.supply.Lasts)
    (h₁ : Run (.opened config supply) earlier b₁) {x : ResourceId}
    (hx : x.toNat ≤ b₁.registry.supply.issued) {res : Resource}
    (hres : b.registry.resource? x = some res) :
    ∃ res₁, b₁.registry.resource? x = some res₁ ∧ res₁.Evolves res := by
  induction later generalizing b res with
  | nil =>
    obtain rfl := h.end_unique h₁
    exact ⟨res, hres, .refl res⟩
  | cons m later ih =>
    have hone : m.action.IsCompiled := hc m List.mem_cons_self
    have hrest : ∀ m' ∈ later ++ earlier, m'.action.IsCompiled :=
      fun m' hm => hc m' (List.mem_cons_of_mem _ hm)
    have hlast : Run (.opened config supply) (later ++ earlier) m.before := h.init
    obtain rfl := h.end_eq
    have hlasts : m.before.registry.supply.Lasts := hl.mono (m.before.issued_le_step hone)
    have hissued : b₁.registry.supply.issued ≤ m.before.registry.supply.issued := by
      obtain ⟨b₂, h₂, hissued⟩ := hlast.beginning hrest
      obtain rfl := h₂.end_unique h₁
      exact hissued
    obtain ⟨res', hres', hevolves⟩ := Broadcast.origin_step hone (hlast.wellFormed hrest hlasts) hl
      (hx.trans hissued) hres
    obtain ⟨res₁, hres₁, hevolves₁⟩ := ih hlast hrest hlasts hres'
    exact ⟨res₁, hres₁, hevolves₁.trans hevolves⟩

/-- What is live at the end of a run and was not live at some moment has a number that was given out
later. -/
theorem issued_lt_of_none (h : Run (.opened config supply) past b)
    (hc : ∀ m ∈ past, m.action.IsCompiled) (hl : b.registry.supply.Lasts) (hm : m ∈ past)
    {x : ResourceId} {res : Resource} (hres : b.registry.resource? x = some res)
    (hnone : m.before.registry.resource? x = none) :
    m.before.registry.supply.issued < x.toNat := by
  obtain ⟨later, earlier, rfl, hbefore, -⟩ := h.before_of_mem hc hm
  by_contra hold
  have hrun : Run (.opened config supply) ((later ++ [m]) ++ earlier) b := by simpa using h
  obtain ⟨res₁, hres₁, -⟩ := hrun.origin (fun m' hm' => hc m' (by simpa using hm')) hl hbefore
    (Nat.not_lt.mp hold) hres
  rw [hnone] at hres₁
  cases hres₁

end Run

end Framecast
