import Framecast.Proofs.Frames.Publishing
import Framecast.Proofs.Operation.Deeds

/-!
# Which hooks have run

A resource is given its hook once, when it is added, and its hook runs when it is
removed. So what the host was told of hooks is this: each hook that was given has run
once if its resource is gone, and not yet if it is live. Drafts have no hook, and
nothing but a removal runs one.
-/

namespace Framecast

/-- The hook that a notice says has run, with the number of its resource. -/
def Notice.hook? : Notice → Option (String × ResourceId)
  | .hook label id => some (label, id)
  | _ => none

/-- The number of a resource and its hook. -/
def Resource.hooking (res : Resource) : ResourceId × Option String := (res.id, res.hook?)

namespace Registry

/-- The hooks that have run so far, in turn, with the numbers of their resources. -/
def ran (r : Registry) : List (String × ResourceId) := r.journal.toList.filterMap Notice.hook?

/-- A registry in which the given hooks have run exactly if their resources are gone. -/
structure Hooked (r : Registry) (given : ResourceId → String → Prop) : Prop where
  /-- A live resource is entered under its own number. -/
  keyed : r.IsKeyed
  /-- Its number was given out. -/
  known : ∀ x res, r.resource? x = some res → x.toNat ≤ r.supply.issued
  /-- Hooks were given to what has a number. -/
  issued : ∀ x label, given x label → x.toNat ≤ r.supply.issued
  /-- A live resource has the hook that it was given. -/
  live : ∀ x res label, r.resource? x = some res → (res.hook? = some label ↔ given x label)
  /-- What has run are the hooks of what is gone. -/
  ran : ∀ x label, (label, x) ∈ r.ran ↔ given x label ∧ r.resource? x = none
  /-- For no resource has a hook run twice. -/
  once : (r.ran.map Prod.snd).Nodup

/-- A registry that shows no difference in its hooks. -/
structure SameHooks (r r' : Registry) : Prop where
  /-- The resources have the same hooks. -/
  resources : ∀ x, (r'.resource? x).map Resource.hooking = (r.resource? x).map Resource.hooking
  /-- The same hooks have run. -/
  ran : r'.ran = r.ran
  /-- Numbers may have been given out. -/
  issued : r.supply.issued ≤ r'.supply.issued

variable {r r' r'' s after : Registry} {id : ResourceId} {res : Resource}
  {given given' : ResourceId → String → Prop}

/-- A removal runs the hook of the resource. -/
theorem ran_remove (res : Resource) (r : Registry) :
    (r.remove res).ran = r.ran ++ res.hook?.toList.map fun label => (label, res.id) := by
  unfold ran
  rw [journal_remove, Array.toList_append, List.filterMap_append]
  unfold Resource.hookNotices
  cases res.hook? <;> rfl

namespace SameHooks

protected theorem refl (r : Registry) : r.SameHooks r := ⟨fun _ => rfl, rfl, Nat.le_refl _⟩

protected theorem trans (h : r.SameHooks r') (h' : r'.SameHooks r'') : r.SameHooks r'' :=
  ⟨fun x => (h'.resources x).trans (h.resources x), h'.ran.trans h.ran, h.issued.trans h'.issued⟩

theorem of_eq (hresources : r'.resources = r.resources) (hjournal : r'.journal = r.journal)
    (hissued : r.supply.issued ≤ r'.supply.issued) : r.SameHooks r' := by
  refine ⟨fun x => ?_, ?_, hissued⟩
  · unfold resource?
    rw [hresources]
  · unfold Registry.ran
    rw [hjournal]

/-- Changing a resource otherwise runs no hook. -/
theorem modifyResource (r : Registry) (id : ResourceId) {f : Resource → Resource}
    (hf : ∀ res, (f res).hooking = res.hooking) : r.SameHooks (r.modifyResource id f) := by
  refine ⟨fun x => ?_, ?_, by simp⟩
  · rw [resource?_modifyResource]
    split
    · rename_i hx
      rw [hx, Option.map_map]
      exact congrArg (fun g => (r.resource? id).map g) (funext hf)
    · rfl
  · obtain ⟨_, h⟩ := modifyResource_eq r id f
    rw [h]
    rfl

/-- Taking an answer in runs no hook. -/
theorem learns (h : r.Learns r') : r.SameHooks r' := by
  cases h with
  | unheard => exact .refl r
  | @told _ id f warnings hf h =>
    obtain ⟨waits, rfl⟩ := h
    have hhooking : ∀ res, (f res).hooking = res.hooking := by
      intro res
      obtain ⟨load, waiters, heq⟩ := hf res
      rw [heq]
      rfl
    refine ⟨(modifyResource r id hhooking).resources, ?_, by simp⟩
    unfold Registry.ran
    rw [Array.toList_append, List.filterMap_append]
    have hnone : (warnings.map Notice.warning).filterMap Notice.hook? = [] := by
      simp [List.filterMap_map, Function.comp_def, Notice.hook?]
    rw [hnone, List.append_nil]

theorem processAcks (r : Registry) : r.SameHooks r.processAcks :=
  processAcks_keep r (fun _ _ h (hs : r.SameHooks _) => hs.trans (learns h))
    (of_eq rfl rfl (Nat.le_refl _))

/-- Waiting runs no hook. -/
theorem await (r : Registry) (id : ResourceId) : r.SameHooks (r.await id).2 := by
  have hwait (s : Registry) (wait : Wait) : s.SameHooks (s.addWait wait).2 :=
    of_eq rfl rfl (Nat.le_refl _)
  refine (processAcks r).trans ?_
  unfold Registry.await
  dsimp only
  split
  · exact hwait _ _
  · split
    · exact hwait _ _
    · exact hwait _ _
    · refine .trans ?_ (modifyResource _ _ fun _ => ?_)
      · exact hwait _ _
      · rfl

end SameHooks

/-- Where no difference shows, the same hooks have run of those that were given. -/
theorem Hooked.congr (h : r.Hooked given) (hsame : r.SameHooks r') : r'.Hooked given := by
  have hfound {x : ResourceId} {res' : Resource} (hres' : r'.resource? x = some res') :
      ∃ res, r.resource? x = some res ∧ res'.id = res.id ∧ res'.hook? = res.hook? := by
    have heq := hsame.resources x
    rw [hres', Option.map_some] at heq
    obtain ⟨res, hres, hhooking⟩ := Option.map_eq_some_iff.mp heq.symm
    obtain ⟨hid, hhook⟩ := Prod.mk.inj hhooking
    exact ⟨res, hres, hid.symm, hhook.symm⟩
  have hgone (x : ResourceId) : r'.resource? x = none ↔ r.resource? x = none := by
    have heq := congrArg Option.isNone (hsame.resources x)
    rwa [Option.isNone_map, Option.isNone_map, Bool.eq_iff_iff, Option.isNone_iff_eq_none,
      Option.isNone_iff_eq_none] at heq
  refine ⟨fun x res' hres' => ?_, fun x res' hres' => ?_,
    fun x label hgiven => (h.issued x label hgiven).trans hsame.issued,
    fun x res' label hres' => ?_, fun x label => ?_, hsame.ran ▸ h.once⟩
  · obtain ⟨res, hres, hid, -⟩ := hfound hres'
    exact hid.trans (h.keyed x res hres)
  · obtain ⟨res, hres, -⟩ := hfound hres'
    exact (h.known x res hres).trans hsame.issued
  · obtain ⟨res, hres, -, hhook⟩ := hfound hres'
    rw [hhook]
    exact h.live x res label hres
  · rw [hsame.ran, h.ran, hgone]

theorem Hooked.of_iff (h : r.Hooked given)
    (hiff : ∀ x label, given' x label ↔ given x label) : r.Hooked given' := by
  obtain rfl : given' = given := funext₂ fun x label => propext (hiff x label)
  exact h

/-- A resource that takes its place with its hook is given the hook, and no hook runs. -/
theorem Hooked.place (h : s.Hooked given) (hplaces : s.Places after id res) (hkeyed : res.id = id)
    (hissued : s.supply.issued ≤ after.supply.issued) (hknown : id.toNat ≤ after.supply.issued)
    (hnew : ∀ label, ¬given id label)
    (hgiven : ∀ x label, given' x label ↔ given x label ∨ x = id ∧ res.hook? = some label) :
    after.Hooked given' := by
  have hran : after.ran = s.ran := by
    unfold Registry.ran
    rw [hplaces.journal]
  refine ⟨fun x res' hres' => ?_, fun x res' hres' => ?_, fun x label hx => ?_,
    fun x res' label hres' => ?_, fun x label => ?_, hran ▸ h.once⟩
  all_goals by_cases hself : x = id
  · subst hself
    cases hplaces.found.symm.trans hres'
    exact hkeyed
  · exact h.keyed x res' ((hplaces.others x hself).symm.trans hres')
  · exact hself ▸ hknown
  · exact (h.known x res' ((hplaces.others x hself).symm.trans hres')).trans hissued
  · exact hself ▸ hknown
  · rcases (hgiven x label).mp hx with hx | ⟨rfl, -⟩
    · exact (h.issued x label hx).trans hissued
    · exact absurd rfl hself
  · subst hself
    cases hplaces.found.symm.trans hres'
    rw [hgiven]
    simp [hnew label]
  · rw [hgiven, h.live x res' label ((hplaces.others x hself).symm.trans hres')]
    simp [hself]
  · subst hself
    rw [hran, h.ran, hplaces.found]
    simp [hnew label]
  · rw [hran, h.ran, hplaces.others x hself, hgiven]
    simp [hself]

/-- A resource that takes the next number is given its hook, and no hook runs. -/
theorem Hooked.enter (h : s.Hooked given) (hplaces : s.Places after s.supply.nextId res)
    (hkeyed : res.id = s.supply.nextId) (hsupply : after.supply = s.supply.draw)
    (hl : after.supply.Lasts) (hgiven : ∀ x label, given' x label ↔
      given x label ∨ x = s.supply.nextId ∧ res.hook? = some label) : after.Hooked given' := by
  have hid := Supply.toNat_nextId (hsupply ▸ hl).of_draw
  refine h.place hplaces hkeyed ?_ ?_ (fun label hold => ?_) hgiven
  · rw [hsupply]
    exact Nat.le_succ _
  · rw [hsupply, hid]
    exact Nat.le_refl _
  · have := h.issued _ label hold
    omega

/-- A removal runs the hook of what is removed, which has not run before. -/
theorem Hooked.remove (h : r.Hooked given) (hres : r.resource? id = some res) :
    (r.remove res).Hooked given := by
  obtain rfl := h.keyed id res hres
  have hleft {x : ResourceId} {res' : Resource} (hres' : (r.remove res).resource? x = some res') :
      r.resource? x = some res' := by
    rw [resource?_remove] at hres'
    split at hres'
    · cases hres'
    · exact hres'
  refine ⟨fun x res' hres' => h.keyed x res' (hleft hres'), fun x res' hres' => ?_,
    fun x label hx => ?_, fun x res' label hres' => h.live x res' label (hleft hres'),
    fun x label => ?_, ?_⟩
  · rw [supply_remove]
    exact h.known x res' (hleft hres')
  · rw [supply_remove]
    exact h.issued x label hx
  · have hone : (label, x) ∈ res.hook?.toList.map (fun label => (label, res.id)) ↔
        res.hook? = some label ∧ x = res.id := by
      cases res.hook? <;> simp [eq_comm]
    rw [ran_remove, List.mem_append, hone, h.ran, resource?_remove]
    by_cases hx : x = res.id
    · rw [hx, h.live _ res label hres, hres]
      simp
    · simp [hx]
  · rw [ran_remove, List.map_append, List.map_map]
    refine List.nodup_append.mpr ⟨h.once, ?_, ?_⟩
    · cases res.hook? <;> simp
    · rintro x hx y hy rfl
      obtain ⟨label, -, rfl⟩ := List.mem_map.mp hy
      obtain ⟨⟨label', x⟩, hmem, rfl⟩ := List.mem_map.mp hx
      have hnone := ((h.ran _ _).mp hmem).2
      rw [Function.comp_apply] at hnone
      rw [hres] at hnone
      cases hnone

/-- A stroke gives no hook, and runs the hooks of what it removes. -/
theorem Hooked.stroke (h : s.Hooked given) (hl : after.supply.Lasts) (hstroke : s.Stroke after) :
    after.Hooked given := by
  cases hstroke with
  | declare schemas loaderTypes hissued => exact h.congr (.of_eq rfl rfl hissued)
  | touch id hf =>
    refine h.congr (.modifyResource s id fun res => ?_)
    have hstanding := congrArg Resource.hooking (hf res)
    exact hstanding
  | add hadds hhook =>
    exact h.enter hadds.toPlaces hadds.keyed hadds.supply hl fun x label => by simp [hhook]
  | remove hres => exact h.remove hres

/-- A deed gives what it adds its hook, and runs the hooks of what it removes. -/
theorem Deed.hooked {new? : Option (ResourceId × Option String)} (h : r.Deed after new?)
    (hl : after.supply.Lasts) (hr : r.Hooked given) :
    after.Hooked fun x label => given x label ∨ new? = some (x, some label) := by
  refine h.keep (P := fun _ s => s.Hooked given)
    (Q := fun new? s => s.Hooked fun x label => given x label ∨ new? = some (x, some label)) hl
    ?_ ?_ ?_ ?_ ?_ ?_ hr
  · exact fun _ s s' _ _ hl' hstroke hs => hs.stroke hl' hstroke
  · intro s hs
    simpa using hs
  · intro s' res hl' hadds hs
    exact hs.enter hadds.toPlaces hadds.keyed hadds.supply hl' fun x label => by simp [eq_comm]
  · intro s s' res _ hl' hdrafts hs
    exact hs.enter hdrafts.toPlaces hdrafts.keyed hdrafts.supply hl' fun x label => by
      simp [hdrafts.hook]
  · intro d s _ hs
    simpa using hs
  · intro d s s' old hook? bindings hnew hold hplaces hsupply hs
    refine hs.place hplaces (hs.keyed d old hold) (by rw [hsupply]) ?_ (fun label hgiven => ?_)
      fun x label => ?_
    · rw [hsupply]
      exact hs.known d old hold
    · exact absurd (hr.issued d label hgiven) (Nat.not_le_of_lt hnew)
    · simp [eq_comm]

end Registry

end Framecast
