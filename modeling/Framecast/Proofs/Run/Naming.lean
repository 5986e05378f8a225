import Framecast.Proofs.Run.Shifting

/-!
# The numbers that are given out

A resource comes in by an insertion only, and each insertion takes the next number of the
supply. Whatever else is done, what is live under a number was live under it before. So
what a number names changes only if the number is given out, and as numbers are words,
all that were given out are different as long as there were fewer than there are words.
-/

namespace Framecast

namespace Supply

/-- The numbers that are given out after so many others. -/
def numbers (issued n : Nat) : List ResourceId :=
  (List.range n).map fun i => UInt32.ofNat (issued + i + 1)

/-- Numbers that are given out in two goes. -/
theorem numbers_add (issued n k : Nat) :
    numbers issued (n + k) = numbers issued n ++ numbers (issued + n) k := by
  unfold numbers
  rw [List.range_add, List.map_append, List.map_map]
  refine congrArg _ (List.map_congr_left fun i _ => ?_)
  rw [Function.comp_apply, ← Nat.add_assoc]

/-- The numbers that are given out first are not zero and all different exactly as long as there are
fewer than there are words. -/
theorem numbers_distinct_iff (n : Nat) :
    ((∀ id ∈ numbers 0 n, id ≠ 0) ∧ (numbers 0 n).Nodup) ↔ n < 2 ^ 32 := by
  have htoNat {i : Nat} (hi : i + 1 < 2 ^ 32) : (UInt32.ofNat (0 + i + 1)).toNat = i + 1 := by
    rw [UInt32.toNat_ofNat_of_lt' (by simpa [UInt32.size] using hi), Nat.zero_add]
  constructor
  · rintro ⟨hzero, -⟩
    by_contra hn
    refine hzero (UInt32.ofNat (0 + (2 ^ 32 - 1) + 1)) (List.mem_map_of_mem ?_) (by decide)
    exact List.mem_range.mpr (by omega)
  · intro hn
    have hlt {i : Nat} (hi : i ∈ List.range n) : i + 1 < 2 ^ 32 := by
      have := List.mem_range.mp hi
      omega
    refine ⟨?_, List.nodup_range.map_on ?_⟩
    · intro id hid hzero
      obtain ⟨i, hi, rfl⟩ := List.mem_map.mp hid
      have hnat := htoNat (hlt hi)
      rw [hzero] at hnat
      cases hnat
    · intro i hi j hj heq
      have hnat := congrArg UInt32.toNat heq
      rw [htoNat (hlt hi), htoNat (hlt hj)] at hnat
      omega

end Supply

/-- A number was given out. -/
structure Entry where
  /-- The number. -/
  id : ResourceId
  /-- What was live under it. -/
  displaced? : Option Resource

namespace Registry

variable {r r' r'' : Registry} {entries : List Entry}

/-- One step, and the entry that it makes. -/
inductive Naming : Registry → Option Entry → Registry → Prop
  /-- No number is given out, and what is live was live under the same number before. -/
  | keep {r r' : Registry}
      (horigin : ∀ x res', r'.resource? x = some res' →
        ∃ res, r.resource? x = some res ∧ res.Evolves res')
      (hissued : r'.supply.issued = r.supply.issued) : Naming r none r'
  /-- A resource is inserted. -/
  | insert {r : Registry} (type : String) (storage : Storage) (options : Options) :
    Naming r
      (some ⟨(r.insert type storage options).1, r.resource? (r.insert type storage options).1⟩)
      (r.insert type storage options).2

/-- Some steps, and the entries that they make, oldest first. -/
inductive Namings : Registry → List Entry → Registry → Prop
  /-- Nothing is done. -/
  | refl (r : Registry) : Namings r [] r
  /-- One more step is done. -/
  | tail {r r' r'' : Registry} {entries : List Entry} {named? : Option Entry}
      (h : Namings r entries r') (hstep : r'.Naming named? r'') :
    Namings r (entries ++ named?.toList) r''

/-- A shift enters a resource by an insertion, or none. -/
theorem Shift.naming (h : r.Shift r') : ∃ named?, r.Naming named? r' := by
  have hlive {r' : Registry} (hissued : r'.supply.issued = r.supply.issued) (id : ResourceId)
      {res new : Resource} (hres : r.resource? id = some res) (hev : res.Evolves new)
      (hlookup : ∀ x, r'.resource? x = if x = id then some new else r.resource? x) :
      r.Naming none r' := by
    refine .keep (fun x res' hx => ?_) hissued
    rw [hlookup] at hx
    split at hx
    · rename_i heq
      cases hx
      exact ⟨res, heq ▸ hres, hev⟩
    · exact ⟨res', hx, .refl res'⟩
  cases h with
  | quiet h hissued =>
    refine ⟨none, .keep (fun x res' hx => ?_) hissued⟩
    have hbody := h.resources x
    rw [hx, Option.map_some] at hbody
    obtain ⟨res, hres, heq⟩ := Option.map_eq_some_iff.mp hbody.symm
    exact ⟨res, hres, .of_body heq.symm⟩
  | touch h hev => exact ⟨none, hlive rfl _ h hev fun x => getElem?_insert _ _ x _⟩
  | enter type storage options => exact ⟨_, .insert type storage options⟩
  | ship load h =>
    refine ⟨none, hlive rfl _ h ?_ fun x => getElem?_insert _ _ x _⟩
    exact .bound _ _ load
  | remove h =>
    refine ⟨none, .keep (fun x res' hx => ?_) (by rw [supply_remove])⟩
    rw [resource?_remove] at hx
    split at hx
    · cases hx
    · exact ⟨res', hx, .refl res'⟩

/-- A chain of shifts enters resources by insertions. -/
theorem Shifts.namings (h : r.Shifts r') : ∃ entries, r.Namings entries r' := by
  induction h with
  | refl => exact ⟨[], .refl r⟩
  | tail _ hstep ih =>
    obtain ⟨entries, hentries⟩ := ih
    obtain ⟨named?, hentry⟩ := hstep.naming
    exact ⟨_, hentries.tail hentry⟩

theorem SameBodies.namings (h : r.SameBodies r') : r.Namings [] r' := by
  refine (Namings.refl r).tail (.keep (fun x res' hx => ?_) h.issued)
  obtain ⟨res, hres, heq⟩ := h.origin hx
  exact ⟨res, hres, .of_body heq.symm⟩

namespace Namings

/-- As many numbers are given out as there are entries. -/
theorem issued (h : r.Namings entries r') :
    r'.supply.issued = r.supply.issued + entries.length := by
  induction h with
  | refl => rfl
  | tail _ hstep ih =>
    cases hstep with
    | keep _ hissued => simpa using hissued.trans ih
    | insert type storage options =>
      rw [List.length_append, ← Nat.add_assoc, ← ih]
      rfl

/-- The entries have the next numbers, one after the other. -/
theorem ids (h : r.Namings entries r') :
    entries.map Entry.id = Supply.numbers r.supply.issued entries.length := by
  induction h with
  | refl => rfl
  | tail hchain hstep ih =>
    cases hstep with
    | keep => simpa using ih
    | insert type storage options =>
      rw [List.map_append, List.length_append, ih, Option.toList_some, List.length_singleton,
        Supply.numbers_add, ← hchain.issued]
      rfl

/-- What is live under a number that was not given out was live under it before. -/
theorem origin (h : r.Namings entries r') {x : ResourceId} {res' : Resource}
    (hx : r'.resource? x = some res') (hnot : ∀ e ∈ entries, e.id ≠ x) :
    ∃ res, r.resource? x = some res ∧ res.Evolves res' := by
  induction h generalizing res' with
  | refl => exact ⟨res', hx, .refl res'⟩
  | tail _ hstep ih =>
    have hold := fun e he => hnot e (List.mem_append_left _ he)
    cases hstep with
    | keep horigin =>
      obtain ⟨mid, hmid, hev⟩ := horigin x res' hx
      obtain ⟨res, hres, hev'⟩ := ih hmid hold
      exact ⟨res, hres, hev'.trans hev⟩
    | insert type storage options =>
      have hne := hnot _ (List.mem_append_right _ List.mem_cons_self)
      rw [resource?_insert, if_neg fun heq => hne heq.symm] at hx
      exact ih hx hold

/-- Insertions under different numbers that nothing is live under displace nothing. -/
theorem displaced?_eq_none (h : r.Namings entries r') (hnodup : (entries.map Entry.id).Nodup)
    (hfree : ∀ e ∈ entries, r.resource? e.id = none) : ∀ e ∈ entries, e.displaced? = none := by
  induction h with
  | refl => exact fun e he => (List.not_mem_nil he).elim
  | tail hchain hstep ih =>
    rw [List.map_append, List.nodup_append] at hnodup
    intro e he
    rcases List.mem_append.mp he with hold | hnew
    · exact ih hnodup.1 (fun e he => hfree e (List.mem_append_left _ he)) e hold
    · cases hstep with
      | keep => exact (List.not_mem_nil hnew).elim
      | insert type storage options =>
        obtain rfl := List.mem_singleton.mp hnew
        refine Option.eq_none_iff_forall_ne_some.mpr fun old hold => ?_
        obtain ⟨res, hres, -⟩ := hchain.origin hold fun e₀ he₀ => hnodup.2.2 _
          (List.mem_map_of_mem he₀) _ List.mem_cons_self
        rw [hfree _ he] at hres
        cases hres

end Namings

end Registry

/-- An action of a producer or a consumer enters resources by insertions. -/
theorem Broadcast.namings_step {b : Broadcast} {action : Action}
    (helsewhere : ∀ drawn pool, action ≠ .elsewhere drawn pool) :
    ∃ entries, b.registry.Namings entries (b.step action).2.registry := by
  cases hinternal : action.isInternal with
  | true => exact (shifts_step hinternal helsewhere).namings
  | false => exact ⟨[], (sameBodies_step hinternal).namings⟩

end Framecast
