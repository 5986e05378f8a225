import Framecast.Proofs.Cascade.Hooks
import Framecast.Proofs.Cascade.Traces
import Framecast.Proofs.Waits.Hearing

/-!
# How resources end in a run

In every run the indexes, the links and the waits of the registry agree with what is
live, so every disposal that takes the last reference away removes a least closed set.
A hook is given by the creation that adds a resource: by none that fails, and by none
that answers with what was cached. It runs when its resource is removed, and never
again.
-/

namespace Framecast

/-- A creation that gives the resource that it adds a hook. What answers with a number that was given
out before gives none. -/
def Moment.Hooks (m : Moment) (x : ResourceId) (label : String) : Prop :=
  m.answer = .created x ∧ m.action.hook? = some label ∧ m.before.registry.supply.issued < x.toNat

namespace Broadcast

variable {b : Broadcast} {action : Action} {given : ResourceId → String → Prop}

/-- Whatever goes over the wires runs no hook, and neither does taking answers in. -/
theorem sameHooks_step (h : action.isInternal = false ∨ action.takesAcks = true) :
    b.registry.SameHooks (b.step action).2.registry := by
  cases hinternal : action.isInternal with
  | false =>
    have hrests := rests_step (b := b) hinternal
    refine .trans ?_ (.of_eq hrests.resources hrests.journal (by rw [hrests.supply]))
    split
    · exact Registry.SameHooks.processAcks _
    · exact .refl _
  | true =>
    have htakes := h.resolve_left (by rw [hinternal]; decide)
    cases action with
    | await id => exact Registry.SameHooks.await b.registry id
    | processAcks => exact Registry.SameHooks.processAcks b.registry
    | flush => cases hinternal
    | setTick | connect | registerType | createOpaque | createInstance | createString |
      createBuffer | retain | dispose | setProp | setPropFromScript | elsewhere | commit |
      registerLoader | update | hangUp => cases htakes

/-- In every step the hooks run of what is removed, and what is added gets the hook that was asked
for. -/
theorem hooked_step (h : b.registry.Hooked given) (hc : action.IsCompiled)
    (hw : b.registry.WellFormed) (hi : b.registry.IndexesLive)
    (hl : (b.step action).2.registry.supply.Lasts) :
    (b.step action).2.registry.Hooked fun x label =>
      given x label ∨ Moment.Hooks ⟨b, action⟩ x label := by
  by_cases hdeed : action.isInternal = true ∧ action.takesAcks = false
  · obtain ⟨new?, hdeed, hnew, hcached⟩ := deed_step hdeed.1 hdeed.2 hc hw hl
    refine (hdeed.hooked hl h).of_iff fun x label => or_congr_right ⟨?_, ?_⟩
    · rintro ⟨hanswer, hhook, hissued⟩
      cases new? with
      | none =>
        obtain ⟨slot, hmem⟩ := hcached rfl (by rw [hhook]; simp) x hanswer
        obtain ⟨res, hres, -⟩ := hi.cached slot x hmem
        exact absurd (hw.numbered hres).2 (Nat.not_le_of_lt hissued)
      | some new =>
        obtain ⟨hcreated, hasked⟩ := hnew new rfl
        have hself : (b.step action).1 = .created x := hanswer
        rw [hcreated] at hself
        rw [← Answer.created.inj hself, ← hhook, ← hasked]
    · rintro rfl
      obtain ⟨hcreated, hasked⟩ := hnew _ rfl
      exact ⟨hcreated, hasked.symm, hdeed.issued_lt hl⟩
  · have hother : action.isInternal = false ∨ action.takesAcks = true := by
      cases hinternal : action.isInternal with
      | false => exact .inl rfl
      | true => exact .inr (by simpa [hinternal] using hdeed)
    have hnone : action.hook? = none := by
      cases action with
      | createOpaque | createInstance => rcases hother with h | h <;> cases h
      | _ => rfl
    refine (h.congr (sameHooks_step hother)).of_iff fun x label => or_iff_left ?_
    rintro ⟨-, hhook, -⟩
    have hasked : action.hook? = some label := hhook
    rw [hnone] at hasked
    cases hasked

end Broadcast

namespace Run

variable {config : Config} {supply : Supply} {past : List Moment} {b : Broadcast}

/-- In every run the indexes, the links and the waits agree with what is live. -/
theorem consistent (h : Run (.opened config supply) past b)
    (hc : ∀ m ∈ past, m.action.IsCompiled) (hl : b.registry.supply.Lasts) :
    b.registry.Consistent := by
  have hminds := h.minds hc hl
  refine ⟨h.indexesLive hc hl, hminds.keyed, (h.heralds hc hl 0).linked, ?_⟩
  intro id res hres ticket hmem
  exact (hminds.waiting ticket id).mpr ⟨res, hres, hmem⟩

/-- In every run the hooks that were given have run exactly if their resources are gone. -/
theorem hooked (h : Run (.opened config supply) past b)
    (hc : ∀ m ∈ past, m.action.IsCompiled) (hl : b.registry.supply.Lasts) :
    b.registry.Hooked fun x label => ∃ m ∈ past, m.Hooks x label := by
  refine h.keeps (P := fun past b => b.registry.Hooked fun x label =>
    ∃ m ∈ past, m.Hooks x label) hc hl ?_ ?_
  · have hdead {x : ResourceId} {res : Resource}
        (hx : (Broadcast.opened config supply).registry.resource? x = some res) : False := by
      rw [Broadcast.resource?_opened] at hx
      cases hx
    refine ⟨fun _ _ hx => (hdead hx).elim, fun _ _ hx => (hdead hx).elim, fun x label hx => ?_,
      fun _ _ _ hx => (hdead hx).elim, fun x label => ⟨fun hx => ?_, fun hx => ?_⟩,
      List.nodup_nil⟩
    · obtain ⟨m, hm, -⟩ := hx
      cases hm
    · cases hx
    · obtain ⟨⟨m, hm, -⟩, -⟩ := hx
      cases hm
  · intro past b action h hrest hone hlasts hl ih
    refine (Broadcast.hooked_step ih hone (h.wellFormed hrest hlasts) (h.indexesLive hrest hlasts)
      hl).of_iff fun x label => ?_
    simp only [List.mem_cons, or_and_right, exists_or, exists_eq_left, or_comm]

end Run

namespace Samples

end Samples

end Framecast
