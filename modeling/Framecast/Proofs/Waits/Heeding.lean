import Framecast.Proofs.Operation.Deeds
import Framecast.Proofs.Waits.Minding

/-!
# Waits are told the truth

A wait that has ended stays as it ended. An open wait ends with the loading of its
resource, or with its removal: after every action it stands as the resource does.
Actions of the host do not change how far loading has come, and taking answers in
removes nothing.
-/

namespace Framecast

namespace Registry

variable {r s s' after : Registry} {id : ResourceId} {res : Resource}
  {draft? : Option ResourceId} {acks : List Ack}

/-- Only waits for what is gone have ended, and loading has come no farther. -/
structure Pauses (r r' : Registry) : Prop where
  /-- What is live has been so, and its loading has come no farther. -/
  load : ∀ (id : ResourceId) (res' : Resource), id.toNat ≤ r.supply.issued →
    r'.resource? id = some res' →
    ∃ res, r.resource? id = some res ∧ res'.load = res.load
  /-- What has ended stays so. -/
  ended : ∀ (ticket : Ticket) (wait : Wait), r.waits[ticket]? = some wait →
    wait.outcome? ≠ none → r'.waits[ticket]? = some wait
  /-- What was open is open as long as the resource is live. -/
  told : ∀ (ticket : Ticket) (id : ResourceId), r.waits[ticket]? = some ⟨id, none⟩ →
    r'.waits[ticket]? = some ⟨id, if (r'.resource? id).isSome then none else some (.failed (.disposed id))⟩

namespace Pauses

protected theorem refl (h : r.Minds draft? acks) : r.Pauses r := by
  refine ⟨fun id res _ hres => ⟨res, hres, rfl⟩, fun ticket wait hwait _ => hwait,
    fun ticket id hopen => ?_⟩
  obtain ⟨res, hres, -⟩ := h.live_of_open hopen
  rw [hres]
  exact hopen

/-- How far the loading of old resources has come does not change, and no wait ends. -/
theorem congr (h : r.Pauses s) (hm : r.Minds draft? acks)
    (hlookup : ∀ x : ResourceId, x.toNat ≤ r.supply.issued →
      (s'.resource? x).map Resource.load = (s.resource? x).map Resource.load)
    (hwaits : s'.waits = s.waits) : r.Pauses s' := by
  refine ⟨fun x res' hx hres' => ?_, ?_, fun ticket x hopen => ?_⟩
  · have heq := hlookup x hx
    rw [hres', Option.map_some] at heq
    obtain ⟨mid, hmid, hload⟩ := Option.map_eq_some_iff.mp heq.symm
    obtain ⟨res, hres, hsame⟩ := h.load x mid hx hmid
    exact ⟨res, hres, hload.symm.trans hsame⟩
  · rw [hwaits]
    exact h.ended
  · obtain ⟨res, hres, -⟩ := hm.live_of_open hopen
    have heq := congrArg Option.isSome (hlookup x (hm.known x res hres))
    rw [Option.isSome_map, Option.isSome_map] at heq
    rw [hwaits, heq]
    exact h.told ticket x hopen

/-- Placing a new resource ends no wait. -/
theorem place (h : r.Pauses s) (hm : r.Minds draft? acks) (hnew : r.supply.issued < id.toNat)
    (hplaces : s.Places s' id res) : r.Pauses s' := by
  refine h.congr hm (fun x hx => ?_) hplaces.waits
  rw [hplaces.others]
  rintro rfl
  omega

/-- A removal ends the waits for what is removed. -/
theorem remove {other? : Option ResourceId} (h : r.Pauses s) (hs : s.Minds other? acks)
    (hres : s.resource? id = some res) : r.Pauses (s.remove res) := by
  obtain rfl := hs.keyed id res hres
  have hopen {ticket : Ticket} (hmem : ticket ∈ res.waiters) :
      s.waits[ticket]? = some ⟨res.id, none⟩ := (hs.waiting ticket res.id).mpr ⟨res, hres, hmem⟩
  refine ⟨fun x res' hx hres' => ?_, fun ticket wait hwait hended => ?_, fun ticket x hx => ?_⟩
  · rw [resource?_remove] at hres'
    split at hres'
    · cases hres'
    · exact h.load x res' hx hres'
  · have hkept := h.ended ticket wait hwait hended
    rw [waits_remove, hkept, Option.map_some, if_neg]
    intro hmem
    rw [hopen hmem] at hkept
    cases hkept
    exact hended rfl
  · have htold := h.told ticket x hx
    rw [waits_remove, htold, Option.map_some, resource?_remove]
    by_cases hself : x = res.id
    · subst hself
      rw [hres] at htold
      obtain ⟨res', hres', hmem⟩ := (hs.waiting ticket res.id).mp htold
      rw [hres] at hres'
      cases hres'
      simp [hmem]
    · rw [if_neg hself, if_neg]
      intro hmem
      rw [hopen hmem] at htold
      exact hself (congrArg Wait.id (Option.some.inj htold)).symm

/-- A stroke ends no wait but those for what it removes. -/
theorem stroke {other? : Option ResourceId} (h : r.Pauses s) (hm : r.Minds draft? acks)
    (hs : s.Minds other? acks) (hgrown : r.supply.issued ≤ s.supply.issued)
    (hl : s'.supply.Lasts) (hstroke : s.Stroke s') : r.Pauses s' := by
  cases hstroke with
  | declare schemas loaderTypes hissued => exact h.congr hm (fun _ _ => rfl) rfl
  | touch id hf =>
    refine h.congr hm (fun x _ => ?_) (waits_modifyResource _ _ _)
    have heq := congrArg (Option.map Resource.load) (standing_modifyResource s id hf x)
    rw [Option.map_map, Option.map_map] at heq
    exact heq
  | add hadds _ =>
    refine h.place hm ?_ hadds.toPlaces
    rw [Supply.toNat_nextId (hadds.supply ▸ hl).of_draw]
    omega
  | remove hres => exact h.remove hs hres

end Pauses

/-- A deed keeps in mind what is said of loading, and ends no wait but those for what it removes. -/
theorem Deed.minds {new? : Option (ResourceId × Option String)} (h : r.Deed after new?)
    (hl : after.supply.Lasts) (hm : r.Minds none acks)
    (hheard : ∀ ack ∈ acks, ack.id.toNat ≤ r.supply.issued) :
    after.Minds none acks ∧ r.Pauses after := by
  refine h.keep (P := fun draft? s => s.Minds draft? acks ∧ r.Pauses s)
    (Q := fun _ s => s.Minds none acks ∧ r.Pauses s) hl ?_ (fun _ h => h) ?_ ?_ ?_ ?_
    ⟨hm, .refl hm⟩
  · rintro draft? s s' hgrown - hl' hstroke ⟨hs, hpauses⟩
    exact ⟨hs.stroke (fun ack hack => (hheard ack hack).trans hgrown) hl' hstroke,
      hpauses.stroke hm hs hgrown hl' hstroke⟩
  · rintro s' res hl' hadds ⟨hs, hpauses⟩
    have hlr := (hadds.supply ▸ hl').of_draw
    refine ⟨hs.place hheard hadds.toPlaces hadds.keyed hadds.waiters hadds.supply hlr
      (.inr ⟨rfl, hadds.load⟩), hpauses.place hm ?_ hadds.toPlaces⟩
    rw [Supply.toNat_nextId hlr]
    omega
  · rintro s s' res hgrown hl' hdrafts ⟨hs, hpauses⟩
    have hlr := (hdrafts.supply ▸ hl').of_draw
    refine ⟨hs.place (fun ack hack => (hheard ack hack).trans hgrown) hdrafts.toPlaces
      hdrafts.keyed hdrafts.waiters hdrafts.supply hlr (.inl ⟨rfl, rfl⟩),
      hpauses.place hm ?_ hdrafts.toPlaces⟩
    rw [Supply.toNat_nextId hlr]
    omega
  · rintro d s hgone ⟨hs, hpauses⟩
    refine ⟨⟨hs.keyed, hs.known, fun x res hdraft => ?_, fun x res hres _ => hs.load x res hres ?_,
      hs.waiting, hs.pending⟩, hpauses⟩
    · cases hdraft
    · rintro heq
      cases heq
      rw [hgone] at hres
      cases hres
  · rintro d s s' old hook? bindings hnew hold hplaces hsupply ⟨hs, hpauses⟩
    refine ⟨hs.sent (fun ack hack => ?_) hold hplaces (by rw [hsupply]),
      hpauses.place hm hnew hplaces⟩
    rintro rfl
    exact absurd (hheard ack hack) (Nat.not_le_of_lt hnew)

/-- Where waits have gone on: what had ended is as it was, and what was open stands as its resource
does. What was settled stays so. -/
structure Heeds (r r' : Registry) : Prop where
  /-- No number was taken back. -/
  grown : r.supply.issued ≤ r'.supply.issued
  /-- What is live has been so, and stays settled if it was. -/
  settled : ∀ (id : ResourceId) (res' : Resource), id.toNat ≤ r.supply.issued →
    r'.resource? id = some res' →
      ∃ res, r.resource? id = some res ∧ (¬res.load.IsPending → res'.load = res.load)
  /-- What has ended stays so. -/
  ended : ∀ (ticket : Ticket) (wait : Wait), r.waits[ticket]? = some wait →
    wait.outcome? ≠ none → r'.waits[ticket]? = some wait
  /-- What was open stands as its resource does. -/
  told : ∀ (ticket : Ticket) (id : ResourceId), r.waits[ticket]? = some ⟨id, none⟩ →
    r'.waits[ticket]? = some ⟨id, r'.fate id⟩

namespace Heeds

protected theorem refl (h : r.Minds draft? acks) : r.Heeds r := by
  refine ⟨Nat.le_refl _, fun id res _ hres => ⟨res, hres, fun _ => rfl⟩,
    fun ticket wait hwait _ => hwait, fun ticket id hopen => ?_⟩
  rw [h.fate_of_open hopen]
  exact hopen

/-- Where nothing is removed any more, what holds of two stretches holds of both together. -/
theorem trans (h : r.Heeds s) (h' : s.Heeds s') (hm : r.Minds draft? acks)
    (hlive : ∀ x, (s.resource? x).isSome → (s'.resource? x).isSome) : r.Heeds s' := by
  refine ⟨h.grown.trans h'.grown, fun x res'' hx hres'' => ?_, fun ticket wait hwait hended =>
    h'.ended ticket wait (h.ended ticket wait hwait hended) hended, fun ticket x hopen => ?_⟩
  · obtain ⟨mid, hmid, hsettled'⟩ := h'.settled x res'' (hx.trans h.grown) hres''
    obtain ⟨res, hres, hsettled⟩ := h.settled x mid hx hmid
    refine ⟨res, hres, fun hnot => ?_⟩
    have hload := hsettled hnot
    exact (hsettled' (hload ▸ hnot)).trans hload
  · have htold := h.told ticket x hopen
    cases hfate : s.fate x with
    | none =>
      rw [hfate] at htold
      exact h'.told ticket x htold
    | some outcome =>
      rw [hfate] at htold
      rw [h'.ended ticket _ htold (by simp)]
      suffices hsame : s'.fate x = some outcome by rw [hsame]
      obtain ⟨res, hres, -⟩ := hm.live_of_open hopen
      have hx : x.toNat ≤ s.supply.issued := (hm.known x res hres).trans h.grown
      rw [← hfate]
      refine outlook_congr ?_ _
      cases hmid : s.resource? x with
      | none =>
        cases hend : s'.resource? x with
        | none => rfl
        | some res' =>
          obtain ⟨mid, hmid', -⟩ := h'.settled x res' hx hend
          rw [hmid] at hmid'
          cases hmid'
      | some mid =>
        obtain ⟨res', hres'⟩ := Option.isSome_iff_exists.mp (hlive x (by rw [hmid]; rfl))
        obtain ⟨mid', hmid', hsettled⟩ := h'.settled x res' hx hres'
        rw [hmid] at hmid'
        cases hmid'
        rw [hres', Option.map_some, Option.map_some, hsettled]
        intro hpending
        have hopen' : s.fate x = none :=
          (outlook_of_some hmid _).trans (LoadState.outcome?_eq_none.mpr hpending)
        rw [hopen'] at hfate
        cases hfate

end Heeds

/-- Where loading has come no farther, waits have gone on. -/
theorem Pauses.heeds (h : r.Pauses after) (hgrown : r.supply.issued ≤ after.supply.issued)
    {other? : Option ResourceId} (hafter : after.Minds other? acks) : r.Heeds after := by
  refine ⟨hgrown, fun id res' hid hres' => ?_, h.ended, fun ticket id hopen => ?_⟩
  · obtain ⟨res, hres, hload⟩ := h.load id res' hid hres'
    exact ⟨res, hres, fun _ => hload⟩
  · have htold := h.told ticket id hopen
    cases hres : after.resource? id with
    | none =>
      rw [hres] at htold
      rw [show after.fate id = _ from outlook_of_none hres _]
      exact htold
    | some res =>
      rw [hres] at htold
      rw [hafter.fate_of_open htold]
      exact htold

theorem Heeds.congr (h : r.Heeds s) (hlookup : ∀ x, s'.resource? x = s.resource? x)
    (hwaits : s'.waits = s.waits) (hsupply : s'.supply = s.supply) : r.Heeds s' := by
  refine ⟨hsupply ▸ h.grown, ?_, hwaits ▸ h.ended, fun ticket x hopen => ?_⟩
  · simpa only [hlookup] using h.settled
  · have hfate : s'.fate x = s.fate x := outlook_congr (congrArg _ (hlookup x)) _
    rw [hwaits, hfate]
    exact h.told ticket x hopen

end Registry

end Framecast
