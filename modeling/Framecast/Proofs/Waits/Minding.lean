import Framecast.Proofs.Waits.Verdict

/-!
# What a registry knows of loading

The load state of a live resource follows from the links that it was sent to and the
answers that were taken in. A wait is open exactly as long as it stands among the
waiters of a live resource, and only a pending resource has waiters. Whatever the host
does keeps this, and so does taking an answer in.
-/

namespace Framecast

/-- What some answers say of a resource, one by one: nothing, or why it could not be loaded. -/
def reports (id : ResourceId) (acks : List Ack) : List (Option String) :=
  (acks.filter (·.id == id)).map Ack.failure?

theorem reports_append (id : ResourceId) (acks acks' : List Ack) :
    reports id (acks ++ acks') = reports id acks ++ reports id acks' := by
  unfold reports
  rw [List.filter_append, List.map_append]

theorem reports_singleton_self (ack : Ack) : reports ack.id [ack] = [ack.failure?] := by
  simp [reports]

theorem reports_eq_nil_iff {id : ResourceId} {acks : List Ack} :
    reports id acks = [] ↔ ∀ ack ∈ acks, ack.id ≠ id := by
  unfold reports
  simp only [List.map_eq_nil_iff, List.filter_eq_nil_iff, beq_iff_eq, ne_eq]

namespace Registry

open LoadState (IsPending)

/-- What those who wait for a resource are told as things stand, given what they are told if it is not
there. -/
def outlook (r : Registry) (id : ResourceId) (gone : ResourceError) : Option Outcome :=
  match r.resource? id with
  | some res => res.load.outcome? id
  | none => some (.failed gone)

/-- What becomes of an open wait for a resource, as things stand. -/
def fate (r : Registry) (id : ResourceId) : Option Outcome := r.outlook id (.disposed id)

variable {r r' after : Registry} {id : ResourceId} {res : Resource} {draft? : Option ResourceId}
  {acks : List Ack}

/-- Those who wait for what is live are told how far its loading has come. -/
theorem outlook_of_some (h : r.resource? id = some res) (gone : ResourceError) :
    r.outlook id gone = res.load.outcome? id := by
  unfold outlook
  rw [h]

theorem outlook_of_none (h : r.resource? id = none) (gone : ResourceError) :
    r.outlook id gone = some (.failed gone) := by
  unfold outlook
  rw [h]

/-- Only how far loading has come counts for those who wait. -/
theorem outlook_congr (h : (after.resource? id).map Resource.load =
    (r.resource? id).map Resource.load) (gone : ResourceError) :
    after.outlook id gone = r.outlook id gone := by
  cases hres : r.resource? id with
  | none =>
    rw [hres, Option.map_none, Option.map_eq_none_iff] at h
    rw [outlook_of_none hres, outlook_of_none h]
  | some res =>
    rw [hres, Option.map_some] at h
    obtain ⟨res', hres', hload⟩ := Option.map_eq_some_iff.mp h
    rw [outlook_of_some hres, outlook_of_some hres', hload]

/-- A registry that has taken some answers in. What is said of loading may not hold of a draft. -/
structure Minds (r : Registry) (draft? : Option ResourceId) (acks : List Ack) : Prop where
  /-- A live resource is entered under its own number. -/
  keyed : ∀ id res, r.resource? id = some res → res.id = id
  /-- Its number was given out. -/
  known : ∀ id res, r.resource? id = some res → id.toNat ≤ r.supply.issued
  /-- Nobody waits for a draft. -/
  unheard : ∀ id res, draft? = some id → r.resource? id = some res → res.waiters = []
  /-- The load state follows from the answers. -/
  load : ∀ id res, r.resource? id = some res → draft? ≠ some id →
    res.load = (reports id acks).foldl LoadState.after (awaiting res.bindings)
  /-- A wait is open as long as it stands among the waiters. -/
  waiting : ∀ ticket id, r.waits[ticket]? = some ⟨id, none⟩ ↔
    ∃ res, r.resource? id = some res ∧ ticket ∈ res.waiters
  /-- Only what is pending is waited for. -/
  pending : ∀ id res, r.resource? id = some res → res.waiters ≠ [] → res.load.IsPending

/-- Ending some waits tells each of them how it ended. -/
theorem waits_foldl_resolve (outcome : Outcome) (tickets : List Ticket) (r : Registry)
    (ticket : Ticket) : (tickets.foldl (resolve outcome) r).waits[ticket]? =
      r.waits[ticket]?.map fun wait =>
        if ticket ∈ tickets then { wait with outcome? := some outcome } else wait := by
  induction tickets generalizing r with
  | nil => simp
  | cons first rest ih =>
    rw [List.foldl_cons, ih]
    unfold resolve
    rw [Array.getElem?_modify]
    by_cases hfirst : first = ticket
    · subst hfirst
      cases r.waits[first]? <;> simp
    · have hne : ticket ≠ first := Ne.symm hfirst
      simp [hfirst, hne]

/-- A removal tells those who wait that the resource is gone. -/
theorem waits_remove (res : Resource) (r : Registry) (ticket : Ticket) :
    (r.remove res).waits[ticket]? = r.waits[ticket]?.map fun wait =>
      if ticket ∈ res.waiters then { wait with outcome? := some (.failed (.disposed res.id)) }
      else wait := by
  unfold remove
  rw [foldl_retireBinding]
  dsimp only
  rw [waits_foldl_resolve]
  unfold unlist uncache runHook note
  cases res.hook? <;> cases res.cacheKey? <;> rfl

@[simp] theorem waits_modifyResource (r : Registry) (id : ResourceId) (f : Resource → Resource) :
    (r.modifyResource id f).waits = r.waits := by
  obtain ⟨_, h⟩ := modifyResource_eq r id f
  rw [h]

namespace Minds

/-- A wait is open only if it is for a resource that is live. -/
theorem live_of_open (h : r.Minds draft? acks) {ticket : Ticket}
    (hopen : r.waits[ticket]? = some ⟨id, none⟩) :
    ∃ res, r.resource? id = some res ∧ ticket ∈ res.waiters ∧ res.load.IsPending := by
  obtain ⟨res, hres, hmem⟩ := (h.waiting ticket id).mp hopen
  exact ⟨res, hres, hmem, h.pending id res hres (List.ne_nil_of_mem hmem)⟩

/-- As long as a resource that is waited for is live, waits for it stay open. -/
theorem fate_of_open (h : r.Minds draft? acks) {ticket : Ticket}
    (hopen : r.waits[ticket]? = some ⟨id, none⟩) : r.fate id = none := by
  obtain ⟨res, hres, -, hpending⟩ := h.live_of_open hopen
  exact (outlook_of_some hres _).trans (LoadState.outcome?_eq_none.mpr hpending)

/-- The counts and the storage of resources are no concern of loading. -/
theorem congr (h : r.Minds draft? acks)
    (hlookup : ∀ x, (after.resource? x).map Resource.standing =
      (r.resource? x).map Resource.standing)
    (hwaits : after.waits = r.waits) (hissued : r.supply.issued ≤ after.supply.issued) :
    after.Minds draft? acks := by
  have hfound {x : ResourceId} {res' : Resource} (hres' : after.resource? x = some res') :
      ∃ res, r.resource? x = some res ∧ res'.id = res.id ∧ res'.bindings = res.bindings ∧
        res'.load = res.load ∧ res'.waiters = res.waiters := by
    have heq := hlookup x
    rw [hres', Option.map_some] at heq
    obtain ⟨res, hres, hstanding⟩ := Option.map_eq_some_iff.mp heq.symm
    exact ⟨res, hres, Resource.of_standing hstanding.symm⟩
  refine ⟨fun x res' hres' => ?_, fun x res' hres' => ?_, fun x res' hdraft hres' => ?_,
    fun x res' hres' hdraft => ?_, fun ticket x => ?_, fun x res' hres' => ?_⟩
  · obtain ⟨res, hres, hid, -⟩ := hfound hres'
    exact hid.trans (h.keyed x res hres)
  · obtain ⟨res, hres, -⟩ := hfound hres'
    exact (h.known x res hres).trans hissued
  · obtain ⟨res, hres, -, -, -, hwaiters⟩ := hfound hres'
    exact hwaiters.trans (h.unheard x res hdraft hres)
  · obtain ⟨res, hres, -, hbindings, hload, -⟩ := hfound hres'
    rw [hload, hbindings]
    exact h.load x res hres hdraft
  · rw [hwaits, h.waiting]
    constructor
    · rintro ⟨res, hres, hmem⟩
      have heq := hlookup x
      rw [hres, Option.map_some] at heq
      obtain ⟨res', hres', hstanding⟩ := Option.map_eq_some_iff.mp heq
      exact ⟨res', hres', (Resource.of_standing hstanding).2.2.2 ▸ hmem⟩
    · rintro ⟨res', hres', hmem⟩
      obtain ⟨res, hres, -, -, -, hwaiters⟩ := hfound hres'
      exact ⟨res, hres, hwaiters ▸ hmem⟩
  · obtain ⟨res, hres, -, -, hload, hwaiters⟩ := hfound hres'
    rw [hload, hwaiters]
    exact h.pending x res hres

/-- A new resource is waited for by nobody and answered for by nobody. -/
theorem place {other? : Option ResourceId} (h : r.Minds other? acks)
    (hheard : ∀ ack ∈ acks, ack.id.toNat ≤ r.supply.issued)
    (hplaces : r.Places after r.supply.nextId res) (hkeyed : res.id = r.supply.nextId)
    (hwaiters : res.waiters = []) (hsupply : after.supply = r.supply.draw)
    (hl : r.supply.Lasts)
    (hload : draft? = some r.supply.nextId ∧ other? = none ∨
      draft? = other? ∧ res.load = awaiting res.bindings) :
    after.Minds draft? acks := by
  have hfresh {x : ResourceId} (hx : x.toNat ≤ r.supply.issued) : x ≠ r.supply.nextId :=
    ne_nextId hx hl
  have hfound {x : ResourceId} {res' : Resource} (hres' : after.resource? x = some res') :
      x = r.supply.nextId ∧ res' = res ∨ r.resource? x = some res' := by
    by_cases hx : x = r.supply.nextId
    · rw [hx, hplaces.found] at hres'
      exact .inl ⟨hx, (Option.some.inj hres').symm⟩
    · rw [hplaces.others x hx] at hres'
      exact .inr hres'
  refine ⟨fun x res' hres' => ?_, fun x res' hres' => ?_, fun x res' hdraft hres' => ?_,
    fun x res' hres' hdraft => ?_, fun ticket x => ?_, fun x res' hres' hwaited => ?_⟩
  · rcases hfound hres' with ⟨rfl, rfl⟩ | hold
    · exact hkeyed
    · exact h.keyed x res' hold
  · rw [hsupply]
    rcases hfound hres' with ⟨rfl, rfl⟩ | hold
    · exact (Supply.toNat_nextId hl).le
    · exact (h.known x res' hold).trans (Nat.le_succ _)
  · rcases hfound hres' with ⟨rfl, rfl⟩ | hold
    · exact hwaiters
    · rcases hload with ⟨hnew, -⟩ | ⟨rfl, -⟩
      · rw [hnew] at hdraft
        cases hdraft
        exact absurd rfl (hfresh (h.known _ res' hold))
      · exact h.unheard x res' hdraft hold
  · rcases hfound hres' with ⟨rfl, rfl⟩ | hold
    · rcases hload with ⟨hnew, -⟩ | ⟨-, hload⟩
      · exact absurd hnew hdraft
      · rw [reports_eq_nil_iff.mpr fun ack hack => hfresh (hheard ack hack)]
        exact hload
    · refine h.load x res' hold ?_
      rcases hload with ⟨-, rfl⟩ | ⟨rfl, -⟩
      · simp
      · exact hdraft
  · rw [hplaces.waits, h.waiting]
    constructor
    · rintro ⟨res', hres', hmem⟩
      exact ⟨res', (hplaces.others x (hfresh (h.known x res' hres'))).trans hres', hmem⟩
    · rintro ⟨res', hres', hmem⟩
      rcases hfound hres' with ⟨rfl, rfl⟩ | hold
      · rw [hwaiters] at hmem
        cases hmem
      · exact ⟨res', hold, hmem⟩
  · rcases hfound hres' with ⟨rfl, rfl⟩ | hold
    · exact absurd hwaiters hwaited
    · exact h.pending x res' hold hwaited

/-- A removal ends the waits for what is removed, and no others. -/
theorem remove (h : r.Minds draft? acks) (hres : r.resource? id = some res) :
    (r.remove res).Minds draft? acks := by
  obtain rfl := h.keyed id res hres
  have hfound {x : ResourceId} {res' : Resource}
      (hres' : (r.remove res).resource? x = some res') :
      x ≠ res.id ∧ r.resource? x = some res' := by
    rw [resource?_remove] at hres'
    split at hres'
    · cases hres'
    · exact ⟨‹_›, hres'⟩
  refine ⟨fun x res' hres' => h.keyed x res' (hfound hres').2,
    fun x res' hres' => ?_, fun x res' hdraft hres' => h.unheard x res' hdraft (hfound hres').2,
    fun x res' hres' hdraft => h.load x res' (hfound hres').2 hdraft, fun ticket x => ?_,
    fun x res' hres' => h.pending x res' (hfound hres').2⟩
  · rw [supply_remove]
    exact h.known x res' (hfound hres').2
  · rw [waits_remove]
    constructor
    · intro hopen
      obtain ⟨wait, hwait, heq⟩ := Option.map_eq_some_iff.mp hopen
      split at heq
      · cases heq
      · rename_i hmem
        subst heq
        obtain ⟨res', hres', hmem'⟩ := (h.waiting ticket x).mp hwait
        refine ⟨res', ?_, hmem'⟩
        rw [resource?_remove, if_neg]
        · exact hres'
        · rintro rfl
          rw [hres] at hres'
          cases hres'
          exact hmem hmem'
    · rintro ⟨res', hres', hmem'⟩
      obtain ⟨hx, hold⟩ := hfound hres'
      have hopen := (h.waiting ticket x).mpr ⟨res', hold, hmem'⟩
      rw [hopen, Option.map_some, if_neg]
      intro hmem
      have hother := (h.waiting ticket res.id).mpr ⟨res, hres, hmem⟩
      rw [hopen] at hother
      cases hother
      exact hx rfl

/-- A draft that is sent awaits its links. -/
theorem sent {old : Resource} {hook? : Option String} {bindings : List Binding}
    (h : r.Minds (some id) acks) (hheard : ∀ ack ∈ acks, ack.id ≠ id)
    (hold : r.resource? id = some old)
    (hplaces : r.Places after id { old with hook?, bindings, load := awaiting bindings })
    (hissued : r.supply.issued ≤ after.supply.issued) : after.Minds none acks := by
  have hwaiters : old.waiters = [] := h.unheard id old rfl hold
  have hfound {x : ResourceId} {res' : Resource} (hres' : after.resource? x = some res') :
      x = id ∧ res' = { old with hook?, bindings, load := awaiting bindings } ∨
        x ≠ id ∧ r.resource? x = some res' := by
    by_cases hx : x = id
    · rw [hx, hplaces.found] at hres'
      exact .inl ⟨hx, (Option.some.inj hres').symm⟩
    · rw [hplaces.others x hx] at hres'
      exact .inr ⟨hx, hres'⟩
  refine ⟨fun x res' hres' => ?_, fun x res' hres' => ?_, fun x res' hdraft => ?_,
    fun x res' hres' _ => ?_, fun ticket x => ?_, fun x res' hres' hwaited => ?_⟩
  · rcases hfound hres' with ⟨rfl, rfl⟩ | ⟨-, hres⟩
    · exact h.keyed x old hold
    · exact h.keyed x res' hres
  · refine le_trans ?_ hissued
    rcases hfound hres' with ⟨rfl, -⟩ | ⟨-, hres⟩
    · exact h.known x old hold
    · exact h.known x res' hres
  · cases hdraft
  · rcases hfound hres' with ⟨rfl, rfl⟩ | ⟨hx, hres⟩
    · rw [reports_eq_nil_iff.mpr hheard]
      rfl
    · exact h.load x res' hres fun heq => hx (Option.some.inj heq).symm
  · rw [hplaces.waits, h.waiting]
    constructor
    · rintro ⟨res', hres', hmem⟩
      refine ⟨res', (hplaces.others x ?_).trans hres', hmem⟩
      rintro rfl
      rw [hold] at hres'
      cases hres'
      rw [hwaiters] at hmem
      cases hmem
    · rintro ⟨res', hres', hmem⟩
      rcases hfound hres' with ⟨rfl, rfl⟩ | ⟨-, hres⟩
      · have hmem : ticket ∈ old.waiters := hmem
        rw [hwaiters] at hmem
        cases hmem
      · exact ⟨res', hres, hmem⟩
  · rcases hfound hres' with ⟨rfl, rfl⟩ | ⟨-, hres⟩
    · exact absurd hwaiters hwaited
    · exact h.pending x res' hres hwaited

/-- A stroke keeps in mind what is said of loading. -/
theorem stroke (h : r.Minds draft? acks) (hheard : ∀ ack ∈ acks, ack.id.toNat ≤ r.supply.issued)
    (hl : after.supply.Lasts) (hstroke : r.Stroke after) : after.Minds draft? acks := by
  cases hstroke with
  | declare schemas loaderTypes hissued => exact h.congr (fun _ => rfl) rfl hissued
  | touch id hf =>
    exact h.congr (standing_modifyResource r id hf) (waits_modifyResource _ _ _)
      (supply_modifyResource r id _ ▸ Nat.le_refl _)
  | add hadds _ =>
    exact h.place hheard hadds.toPlaces hadds.keyed hadds.waiters hadds.supply
      (hadds.supply ▸ hl).of_draw (.inr ⟨rfl, hadds.load⟩)
  | remove hres => exact h.remove hres

end Minds

end Registry

end Framecast
