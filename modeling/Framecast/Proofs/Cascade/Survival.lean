import Framecast.Proofs.Cascade.Rounds
import Framecast.Proofs.Registry.WellFormed

/-!
# What survives stays counted

A count falls to zero only when the last reference is given back, and then its
resource is destroyed. So whatever an operation leaves live of what was live before is
as it was made, and it is counted if it was counted before: no count comes to rest at
zero again. What a cascade drops to zero is on its worklist, which it works off.
-/

namespace Framecast

namespace Registry

/-- A registry in which what was live before and still is is as it was made, and counted if it was
counted before. -/
structure Upholds (r after : Registry) : Prop where
  /-- Numbers only go up. -/
  issued : r.supply.issued ≤ after.supply.issued
  /-- Every live resource is entered under its own number. -/
  keyed : after.IsKeyed
  /-- Where a live resource comes from, if its number was given out before. -/
  origin : ∀ {x res'}, x.toNat ≤ r.supply.issued → after.resource? x = some res' →
    ∃ res, r.resource? x = some res ∧ res'.mould = res.mould ∧
      (0 < res.refCount → 0 < res'.refCount)

variable {r s after : Registry} {id x : ResourceId} {res res' : Resource}
  {worklist rest : List ResourceId}

/-- A resource that is placed under its own number leaves a registry keyed. -/
theorem Places.isKeyed (h : r.Places after id res) (hkeyed : r.IsKeyed) (hid : res.id = id) :
    after.IsKeyed := by
  intro x found hx
  by_cases heq : x = id
  · rw [heq, h.found] at hx
    cases hx
    rw [heq, hid]
  · rw [h.others x heq] at hx
    exact hkeyed x found hx

namespace Upholds

protected theorem refl (hkeyed : r.IsKeyed) : r.Upholds r :=
  ⟨Nat.le_refl _, hkeyed, fun _ hx => ⟨_, hx, rfl, id⟩⟩

protected theorem trans (h : r.Upholds s) (h' : s.Upholds after) : r.Upholds after := by
  refine ⟨h.issued.trans h'.issued, h'.keyed, fun {x res'} hissued hx => ?_⟩
  obtain ⟨mid, hmid, hmould', hcount'⟩ := h'.origin (hissued.trans h.issued) hx
  obtain ⟨res, hres, hmould, hcount⟩ := h.origin hissued hmid
  exact ⟨res, hres, hmould'.trans hmould, fun hpos => hcount' (hcount hpos)⟩

/-- What is live may change as long as it is counted as it was made. -/
theorem modifyResource (hkeyed : r.IsKeyed) (id : ResourceId) {f : Resource → Resource}
    (hid : ∀ res, (f res).id = res.id) (hmould : ∀ res, (f res).mould = res.mould)
    (hcount : ∀ res, r.resource? id = some res → 0 < res.refCount → 0 < (f res).refCount) :
    r.Upholds (r.modifyResource id f) := by
  refine ⟨by simp, hkeyed.modifyResource id f hid, fun {x res'} _ hx => ?_⟩
  rw [resource?_modifyResource] at hx
  split at hx
  · rename_i heq
    obtain ⟨res, hres, rfl⟩ := Option.map_eq_some_iff.mp hx
    exact ⟨res, heq ▸ hres, hmould res, hcount res hres⟩
  · exact ⟨res', hx, rfl, fun hpos => hpos⟩

/-- A resource may be placed under a new number. -/
theorem place (hkeyed : r.IsKeyed) (hl : after.supply.Lasts)
    (hsupply : after.supply = r.supply.draw) (h : r.Places after r.supply.nextId res)
    (hid : res.id = r.supply.nextId) : r.Upholds after := by
  have hlr : r.supply.Lasts := (hsupply ▸ hl).of_draw
  refine ⟨by rw [hsupply]; exact Nat.le_succ _, h.isKeyed hkeyed hid,
    fun {x found} hissued hx => ?_⟩
  rw [h.others x (ne_nextId hissued hlr)] at hx
  exact ⟨found, hx, rfl, fun hpos => hpos⟩

/-- What is live may be placed anew as it was made and as it is counted. -/
theorem replace (hkeyed : r.IsKeyed) (hsupply : after.supply = r.supply)
    (h : r.Places after id res') (hres : r.resource? id = some res) (hid : res'.id = res.id)
    (hmould : res'.mould = res.mould) (hcount : res'.refCount = res.refCount) :
    r.Upholds after := by
  refine ⟨by rw [hsupply], h.isKeyed hkeyed (hid.trans (hkeyed id res hres)),
    fun {x found} _ hx => ?_⟩
  by_cases heq : x = id
  · rw [heq, h.found] at hx
    cases hx
    exact ⟨res, heq ▸ hres, hmould, fun hpos => hcount ▸ hpos⟩
  · rw [h.others x heq] at hx
    exact ⟨found, hx, rfl, fun hpos => hpos⟩

/-- Where no resource has changed in what counts, nothing has changed. -/
theorem of_body (hkeyed : r.IsKeyed) (hissued : r.supply.issued ≤ after.supply.issued)
    (hbody : ∀ id, (after.resource? id).map Resource.body = (r.resource? id).map Resource.body) :
    r.Upholds after := by
  have horigin {x : ResourceId} {res' : Resource} (hx : after.resource? x = some res') :
      ∃ res, r.resource? x = some res ∧ res.body = res'.body := by
    have hone := hbody x
    rw [hx, Option.map_some] at hone
    exact Option.map_eq_some_iff.mp hone.symm
  refine ⟨hissued, fun x res' hx => ?_, fun {x res'} _ hx => ?_⟩
  · obtain ⟨res, hres, heq⟩ := horigin hx
    have hid : res.body.id = res'.body.id := congrArg Resource.id heq
    exact hid.symm.trans (hkeyed x res hres)
  · obtain ⟨res, hres, heq⟩ := horigin hx
    have hmould : res.body.mould = res'.body.mould := congrArg Resource.mould heq
    have hcount : res.body.refCount = res'.body.refCount := congrArg Resource.refCount heq
    exact ⟨res, hres, hmould.symm, fun hpos => hcount ▸ hpos⟩

end Upholds

/-- What survives the working off of a worklist was not on it, and was live and is counted as before
but for what it lost. -/
theorem Works.origin (h : Works worklist r after) (hkeyed : r.IsKeyed)
    (hx : after.resource? x = some res') :
    x ∉ worklist ∧ ∃ res n, r.resource? x = some res ∧ res' = res.lowered n ∧
      (0 < res.refCount → n < res.refCount) := by
  induction h with
  | done r => exact ⟨List.not_mem_nil, res', 0, hx, rfl, id⟩
  | @skip r _ one rest hnone _ ih =>
    obtain ⟨hrest, res, n, hres, heq⟩ := ih hkeyed hx
    refine ⟨?_, res, n, hres, heq⟩
    rw [List.mem_cons, not_or]
    refine ⟨?_, hrest⟩
    rintro rfl
    rw [hres] at hnone
    cases hnone
  | @take r _ one root rest hroot _ ih =>
    obtain ⟨hworklist, mid, n, hmid, rfl, hcount⟩ := ih (hkeyed.round root rest) hx
    rw [resource?_round] at hmid
    split at hmid
    · cases hmid
    · rename_i hne
      obtain ⟨res, hres, rfl⟩ := Option.map_eq_some_iff.mp hmid
      rw [mem_round, not_or] at hworklist
      rw [hkeyed one root hroot] at hne
      rw [List.mem_cons, not_or]
      refine ⟨⟨hne, hworklist.1⟩, res, _, hres, Resource.lowered_lowered _ _ _, fun hpos => ?_⟩
      have hleft : (retainersIn x root).length < res.refCount := by
        by_contra hle
        refine hworklist.2 ⟨by rwa [hkeyed one root hroot], by omega, res, hres, by omega⟩
      have hlowered : (res.lowered (retainersIn x root).length).refCount =
          res.refCount - (retainersIn x root).length := rfl
      omega

/-- Destroying a resource leaves what survives counted. -/
theorem upholds_destroy (hkeyed : r.IsKeyed) (id : ResourceId) : r.Upholds (r.destroy id) := by
  have hworks := works_destroy hkeyed id
  refine ⟨by simp, fun x res' hx => ?_, fun {x res'} _ hx => ?_⟩
  · obtain ⟨-, res, n, hres, rfl, -⟩ := hworks.origin hkeyed hx
    exact hkeyed x res hres
  · obtain ⟨-, res, n, hres, rfl, hcount⟩ := hworks.origin hkeyed hx
    exact ⟨res, hres, rfl, fun hpos => Nat.sub_pos_of_lt (hcount hpos)⟩

/-- Giving back the last reference leaves what survives counted, and the resource is gone. -/
theorem upholds_released_destroy (hkeyed : r.IsKeyed) (id : ResourceId) :
    r.Upholds ((r.modifyResource id Resource.released).destroy id) := by
  have hkeyed' : (r.modifyResource id Resource.released).IsKeyed :=
    hkeyed.modifyResource id Resource.released fun _ => rfl
  have hdestroy := upholds_destroy hkeyed' id
  refine ⟨by simp, hdestroy.keyed, fun {x res'} hissued hx => ?_⟩
  obtain ⟨hworklist, -⟩ := (works_destroy hkeyed' id).origin hkeyed' hx
  obtain ⟨res, hres, hkept⟩ := hdestroy.origin (by simpa using hissued) hx
  rw [resource?_modifyResource, if_neg fun heq => hworklist (List.mem_singleton.mpr heq)] at hres
  exact ⟨res, hres, hkept⟩

/-- Every act leaves what survives counted. -/
theorem Act.upholds (h : r.Act after) (hkeyed : r.IsKeyed) (hl : after.supply.Lasts) :
    r.Upholds after := by
  cases h with
  | retain id =>
    refine .modifyResource hkeyed id (fun _ => rfl) (fun _ => rfl) fun res _ hpos => ?_
    have hmin : res.retained.refCount = min (res.refCount + 1) Resource.maxRefCount := rfl
    have hmax : 0 < Resource.maxRefCount := by decide
    omega
  | @release id res hres hmore =>
    refine .modifyResource hkeyed id (fun _ => rfl) (fun _ => rfl) fun found hfound _ => ?_
    rw [hres] at hfound
    cases hfound
    exact Nat.sub_pos_of_lt hmore
  | dispose => exact upholds_released_destroy hkeyed _
  | store id prop part =>
    refine .modifyResource hkeyed id (fun res => ?_) (fun res => ?_) fun res _ hpos => ?_
    · split <;> rfl
    · split
      · rename_i schema bytes hstorage
        unfold Resource.mould
        rw [hstorage]
        rfl
      · rfl
    · split <;> exact hpos
  | add h => exact .place hkeyed hl h.supply h.toPlaces h.keyed

/-- Every chain of acts leaves what survives counted. -/
theorem Acts.upholds (h : r.Acts after) (hkeyed : r.IsKeyed) (hl : after.supply.Lasts) :
    r.Upholds after := by
  induction h with
  | refl => exact .refl hkeyed
  | @tail s s' _ hstep ih =>
    have hone := ih (hl.mono hstep.strokes.issued_le)
    exact hone.trans (hstep.upholds hone.keyed hl)

end Registry

end Framecast
