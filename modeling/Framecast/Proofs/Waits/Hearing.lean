import Framecast.Proofs.Waits.Answering
import Framecast.Proofs.Waits.Telling

/-!
# What was heard in a run

The answers that were taken in, in the order in which they were, determine how far
the loading of each live resource has come. Of each link that a resource was sent to
at most one of them is about it, and none is of any other link.
-/

namespace Framecast

open Outgoing (created)

/-- The answers that an action takes in, link by link. -/
def Moment.takesIn (m : Moment) : List Ack :=
  if m.action.takesAcks then m.before.registry.acks.flatMap Array.toList else []

/-- The answers that were taken in, oldest first. -/
def heard : List Moment → List Ack
  | [] => []
  | m :: past => heard past ++ m.takesIn

namespace Broadcast

variable {b : Broadcast} {action : Action} {acks : List Ack}

/-- Whatever is done, the registry knows what follows from the answers, and waits go on. -/
theorem minds_step (hm : b.registry.Minds none acks)
    (hheard : ∀ ack ∈ acks, ack.id.toNat ≤ b.registry.supply.issued) (hc : action.IsCompiled)
    (hw : b.registry.WellFormed) (hl : (b.step action).2.registry.supply.Lasts) :
    (b.step action).2.registry.Minds none (acks ++ Moment.takesIn ⟨b, action⟩) ∧
      b.registry.Heeds (b.step action).2.registry := by
  have hnone (htakes : action.takesAcks = false) :
      acks ++ Moment.takesIn ⟨b, action⟩ = acks := by
    have hnil : Moment.takesIn ⟨b, action⟩ = [] := if_neg (by rw [htakes]; decide)
    rw [hnil, List.append_nil]
  cases hinternal : action.isInternal with
  | true =>
    cases htakes : action.takesAcks with
    | false =>
      rw [hnone htakes]
      obtain ⟨new?, hdeed, -⟩ := deed_step hinternal htakes hc hw hl
      obtain ⟨hminds, hpauses⟩ := hdeed.minds hl hm hheard
      exact ⟨hminds, hpauses.heeds hdeed.issued_le hminds⟩
    | true =>
      cases action with
      | await id =>
        obtain ⟨hminds, hheeds, -⟩ := hm.await id
        exact ⟨hminds, hheeds⟩
      | processAcks =>
        obtain ⟨hminds, hheeds, -⟩ := hm.processAcks
        exact ⟨hminds, hheeds⟩
      | flush => cases hinternal
      | setTick | connect | registerType | createOpaque | createInstance | createString |
        createBuffer | retain | dispose | setProp | setPropFromScript | elsewhere | commit |
        registerLoader | update | hangUp => cases htakes
  | false =>
    have hrests := rests_step (b := b) hinternal
    cases htakes : action.takesAcks with
    | false =>
      rw [hnone htakes]
      rw [htakes, if_neg Bool.false_ne_true] at hrests
      exact ⟨hm.congr (fun x => congrArg _ (hrests.lookup x)) hrests.waits
          (hrests.supply ▸ Nat.le_refl _),
        (Registry.Heeds.refl hm).congr hrests.lookup hrests.waits hrests.supply⟩
    | true =>
      obtain ⟨hminds, hheeds, -⟩ := hm.processAcks
      have htaken : Moment.takesIn ⟨b, action⟩ = b.registry.acks.flatMap Array.toList :=
        if_pos htakes
      rw [htakes, if_pos rfl] at hrests
      rw [htaken]
      exact ⟨hminds.congr (fun x => congrArg _ (hrests.lookup x)) hrests.waits
          (hrests.supply ▸ Nat.le_refl _),
        hheeds.congr hrests.lookup hrests.waits hrests.supply⟩

end Broadcast

namespace Registry

variable {r : Registry}

/-- All answers that are under way, gathered link by link. -/
theorem flatMap_acksAt (r : Registry) {n : Nat} (h : r.links.length ≤ n) :
    (List.range n).flatMap r.acksAt = r.acks.flatMap Array.toList := by
  have hlist (lists : List (Array Ack)) (n : Nat) (h : lists.length ≤ n) :
      ((List.range n).flatMap fun k => (lists[k]?.map Array.toList).getD []) =
        lists.flatMap Array.toList := by
    induction lists generalizing n with
    | nil => simp
    | cons first rest ih =>
      obtain ⟨n, rfl⟩ : ∃ m, n = m + 1 := ⟨n - 1, by simp at h; omega⟩
      rw [List.range_succ_eq_map, List.flatMap_cons, List.flatMap_map, List.flatMap_cons]
      exact congrArg (first.toList ++ ·) (ih n (by simpa using h))
  refine hlist r.acks n ?_
  unfold acks
  rwa [List.length_map]

end Registry

/-- What is gathered from all numbers comes from some of them, if there is nothing at the others. -/
theorem flatMap_range_perm {α : Type} {f : Nat → List α} {numbers : List Nat} {n : Nat}
    (hnodup : numbers.Nodup) (hlt : ∀ k ∈ numbers, k < n) (hother : ∀ k, k ∉ numbers → f k = []) :
    ((List.range n).flatMap f).Perm (numbers.flatMap f) := by
  have hsome : ((List.range n).filter fun k => decide (k ∈ numbers)).Perm numbers := by
    rw [List.perm_ext_iff_of_nodup (List.nodup_range.filter _) hnodup]
    intro k
    simp only [List.mem_filter, List.mem_range, decide_eq_true_eq, and_iff_right_iff_imp]
    exact hlt k
  have hrest : ((List.range n).filter fun k => !decide (k ∈ numbers)).flatMap f = [] := by
    rw [List.flatMap_eq_nil_iff]
    intro k hk
    exact hother k (by simpa using (List.mem_filter.mp hk).2)
  have hsplit := (List.filter_append_perm (fun k => decide (k ∈ numbers))
    (List.range n)).symm.flatMap_right f
  rw [List.flatMap_append, hrest, List.append_nil] at hsplit
  exact hsplit.trans (hsome.flatMap_right f)

namespace Run

variable {config : Config} {supply : Supply} {past : List Moment} {b : Broadcast}

/-- Links stay. -/
theorem length_links_mono (h : Run (.opened config supply) past b)
    (hc : ∀ m ∈ past, m.action.IsCompiled) (hl : b.registry.supply.Lasts) :
    ∀ m ∈ past, m.before.registry.links.length ≤ b.registry.links.length := by
  refine h.keeps (P := fun past b =>
    ∀ m ∈ past, m.before.registry.links.length ≤ b.registry.links.length) hc hl ?_ ?_
  · intro m hm
    cases hm
  · intro past b action h hrest hone hlasts hl ih m hm
    have hlength := b.length_links_le action
    rcases List.mem_cons.mp hm with rfl | hm
    · exact hlength
    · exact (ih m hm).trans hlength

/-- What was heard is what the links answered, put together. -/
theorem heard_perm {n : Nat} (h : ∀ m ∈ past, m.before.registry.links.length ≤ n) :
    (heard past).Perm ((List.range n).flatMap fun k => answered k past) := by
  induction past with
  | nil => simp [heard, answered]
  | cons m past ih =>
    have hm := h m List.mem_cons_self
    have htaken : m.takesIn = (List.range n).flatMap m.takes := by
      unfold Moment.takesIn Moment.takes
      split
      · exact (m.before.registry.flatMap_acksAt hm).symm
      · simp
    unfold heard answered
    rw [htaken]
    exact ((ih fun m' hm' => h m' (List.mem_cons_of_mem _ hm')).append_right _).trans
      (List.flatMap_append_perm _ _ _)

/-- What was heard was announced before. -/
theorem heard_announced (h : Run (.opened config supply) past b)
    (hc : ∀ m ∈ past, m.action.IsCompiled) (hl : b.registry.supply.Lasts) :
    ∀ ack ∈ heard past, ack.id.toNat ≤ b.registry.supply.issued := by
  intro ack hack
  obtain ⟨k, -, hk⟩ := List.mem_flatMap.mp
    ((heard_perm (h.length_links_mono hc hl)).mem_iff.mp hack)
  exact ((h.heralds hc hl k).logs.created _
    ((h.answers_once hc hl k).2 ack (List.mem_append_left _ hk))).1

/-- In every run the registry knows what follows from what was heard. -/
theorem minds (h : Run (.opened config supply) past b) (hc : ∀ m ∈ past, m.action.IsCompiled)
    (hl : b.registry.supply.Lasts) : b.registry.Minds none (heard past) := by
  refine h.keeps (P := fun past b => b.registry.Minds none (heard past)) hc hl ?_ ?_
  · have hdead {x : ResourceId} {res : Resource}
        (hx : (Broadcast.opened config supply).registry.resource? x = some res) : False := by
      rw [Broadcast.resource?_opened] at hx
      cases hx
    refine ⟨fun _ _ hx => (hdead hx).elim, fun _ _ hx => (hdead hx).elim,
      fun _ _ _ hx => (hdead hx).elim, fun _ _ hx => (hdead hx).elim,
      fun ticket x => ⟨fun hx => ?_, fun ⟨_, hx, _⟩ => (hdead hx).elim⟩,
      fun _ _ hx => (hdead hx).elim⟩
    cases hx
  · intro past b action h hrest hone hlasts hl ih
    exact (Broadcast.minds_step ih (h.heard_announced hrest hlasts) hone
      (h.wellFormed hrest hlasts) hl).1

/-- What was heard of a live resource is what the links that it was sent to answered. -/
theorem reports_perm (h : Run (.opened config supply) past b)
    (hc : ∀ m ∈ past, m.action.IsCompiled) (hl : b.registry.supply.Lasts) {id : ResourceId}
    {res : Resource} (hres : b.registry.resource? id = some res) :
    (reports id (heard past)).Perm
      (res.bindings.flatMap fun binding => reports id (answered binding.link past)) := by
  obtain ⟨hnodup, hlinked⟩ := (h.heralds hc hl 0).linked id res hres
  have hother {k : Nat} (hk : k ∉ res.bindings.map Binding.link) :
      reports id (answered k past) = [] := by
    refine reports_eq_nil_iff.mpr fun ack hack hid => hk ?_
    have hcreated := (h.answers_once hc hl k).2 ack (List.mem_append_left _ hack)
    obtain ⟨binding, hbinding, hlink⟩ := ((h.heralds hc hl k).logs.created _ hcreated).2 res
      (hid.symm ▸ hres)
    exact List.mem_map.mpr ⟨binding, hbinding, hlink⟩
  have hdistributes : reports id
      ((List.range b.registry.links.length).flatMap fun k => answered k past) =
        (List.range b.registry.links.length).flatMap fun k => reports id (answered k past) := by
    unfold reports
    rw [List.filter_flatMap, List.map_flatMap]
  have hheard : (reports id (heard past)).Perm
      (reports id ((List.range b.registry.links.length).flatMap fun k => answered k past)) :=
    ((heard_perm (h.length_links_mono hc hl)).filter _).map _
  have hlinks := flatMap_range_perm hnodup (n := b.registry.links.length)
    (fun k hk => by
      obtain ⟨binding, hbinding, rfl⟩ := List.mem_map.mp hk
      exact hlinked binding hbinding)
    fun k => hother (k := k)
  rw [List.flatMap_map] at hlinks
  exact (hdistributes ▸ hheard).trans hlinks

/-- In every run waits have gone on from each of its moments. -/
theorem heeds (h : Run (.opened config supply) past b) (hc : ∀ m ∈ past, m.action.IsCompiled)
    (hl : b.registry.supply.Lasts) {m : Moment} (hm : m ∈ past) :
    m.before.registry.Heeds m.after.registry := by
  obtain ⟨later, earlier, rfl, h₁, hissued⟩ := h.before_of_mem hc hm
  have hc₁ : ∀ m' ∈ earlier, m'.action.IsCompiled := fun m' hm' =>
    hc m' (List.mem_append_right _ (List.mem_cons_of_mem _ hm'))
  have hl₁ := hl.mono hissued
  obtain ⟨b₂, h₂, hissued₂⟩ := h.beginning hc
  obtain rfl := h₂.end_eq
  exact (Broadcast.minds_step (h₁.minds hc₁ hl₁) (h₁.heard_announced hc₁ hl₁) (hc m hm)
    (h₁.wellFormed hc₁ hl₁) (hl.mono hissued₂)).2

end Run

end Framecast
