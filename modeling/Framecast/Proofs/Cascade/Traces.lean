import Framecast.Proofs.Cascade.Fixpoint
import Framecast.Proofs.Feed.Log
import Framecast.Proofs.Registry.Indexes
import Framecast.Proofs.Waits.Minding

/-!
# What a cascade leaves behind

Everything that a removal does besides is done once for each resource that a cascade
removes, in the order of their removal: its hook runs, those who wait for it are told,
the indexes forget it and its links get their disposals. Where the indexes and the
waits of a registry agree with its live resources, this says what becomes of all of
them.
-/

namespace Framecast

/-- A wait that has ended because its resource is gone. -/
def Wait.disposed (wait : Wait) : Wait :=
  { wait with outcome? := some (.failed (.disposed wait.id)) }

namespace Registry

/-- A registry whose indexes, links and waits agree with its live resources. -/
structure Consistent (r : Registry) : Prop extends r.IndexesLive where
  /-- Every live resource is entered under its own number. -/
  keyed : r.IsKeyed
  /-- It is bound to links that there are, and to each of them once. -/
  linked : r.IsLinked
  /-- Its waiters are open waits for it. -/
  awaited : ∀ id res, r.resource? id = some res → ∀ ticket ∈ res.waiters,
    r.waits[ticket]? = some ⟨id, none⟩

/-- What the removal of some resources has left behind. -/
structure Traces (r : Registry) (gone : List Resource) (s : Registry) : Prop where
  /-- The tick is the same. -/
  tick : s.tick = r.tick
  /-- No link comes or goes. -/
  links : s.links.length = r.links.length
  /-- Hooks run in turn. -/
  journal : s.journal = r.journal ++ (gone.flatMap Resource.hookNotices).toArray
  /-- Every link gets its disposals in turn. -/
  outboxes : ∀ k < r.links.length,
    s.outboxAt k = r.outboxAt k ++ gone.flatMap fun res => disposals res r.tick k
  /-- Those who wait are told, and nobody else. -/
  waits : ∀ ticket, s.waits[ticket]? = r.waits[ticket]?.map fun wait =>
    if ∃ res ∈ gone, ticket ∈ res.waiters then wait.disposed else wait
  /-- The lists of the types forget what is gone. -/
  listed : ∀ type, s.listed type = (r.listed type).filter (· ∉ numbers gone)
  /-- So does the cache. -/
  cache : s.cache = r.cache.filter fun entry => ∀ res ∈ gone, res.slot? ≠ some entry.1

variable {r s after : Registry} {id : ResourceId} {old root : Resource} {gone : List Resource}
  {rest : List ResourceId}

namespace Traces

/-- Nothing has been removed, and nothing is left behind. -/
theorem init (r : Registry) (id : ResourceId) (f : Resource → Resource) :
    r.Traces [] (r.modifyResource id f) := by
  obtain ⟨_, heq⟩ := modifyResource_eq r id f
  rw [heq]
  refine ⟨rfl, rfl, by simp, fun k _ => by simp [outboxAt], fun ticket => ?_, fun type => ?_, ?_⟩
  · cases r.waits[ticket]? <;> simp
  · exact (List.filter_eq_self.mpr fun x _ => by simp [numbers]).symm
  · exact (List.filter_eq_self.mpr fun entry _ => by simp).symm

/-- A round tells those who wait for one more resource. -/
theorem waits_round (h : r.Traces gone s) (hr : r.Consistent) (hold : r.resource? old.id = some old)
    (n : Nat) (rest : List ResourceId) (ticket : Nat) :
    (s.round (old.lowered n) rest).1.waits[ticket]? = r.waits[ticket]?.map fun wait =>
      if ∃ res ∈ gone ++ [old], ticket ∈ res.waiters then wait.disposed else wait := by
  obtain ⟨_, heq⟩ := round_eq s (old.lowered n) rest
  have hwaiters : (old.lowered n).waiters = old.waiters := rfl
  rw [heq, waits_remove, h.waits, Option.map_map, hwaiters]
  cases hwait : r.waits[ticket]? with
  | none => rfl
  | some wait =>
    have hone : (∃ res ∈ gone ++ [old], ticket ∈ res.waiters) ↔
        (∃ res ∈ gone, ticket ∈ res.waiters) ∨ ticket ∈ old.waiters := by
      simp only [List.mem_append, List.mem_singleton, or_and_right, exists_or, exists_eq_left]
    simp only [Option.map_some, Function.comp_apply, hone]
    by_cases hmem : ticket ∈ old.waiters
    · have hopen := hr.awaited old.id old hold ticket hmem
      rw [hwait] at hopen
      cases hopen
      have hboth : (∃ res ∈ gone, ticket ∈ res.waiters) ∨ ticket ∈ old.waiters := .inr hmem
      rw [if_pos hmem, if_pos hboth]
      split <;> rfl
    · simp only [hmem, if_false, or_false]

/-- After a round the lists of the types have forgotten one more resource. -/
theorem listed_round (h : r.Traces gone s) (hr : r.Consistent) (hold : r.resource? old.id = some old)
    (n : Nat) (rest : List ResourceId) (type : String) :
    (s.round (old.lowered n) rest).1.listed type =
      (r.listed type).filter (· ∉ numbers (gone ++ [old])) := by
  obtain ⟨_, heq⟩ := round_eq s (old.lowered n) rest
  have hid : (old.lowered n).id = old.id := rfl
  have htype : (old.lowered n).type = old.type := rfl
  have hnodup := (hr.nodup type).filter fun x => decide (x ∉ numbers gone)
  have hremoved : (s.round (old.lowered n) rest).1.listed type =
      (s.remove (old.lowered n)).listed type := by rw [heq]; rfl
  rw [hremoved, listed_remove, h.listed, hid, htype, numbers_append]
  split
  · rw [hnodup.erase_eq_filter, List.filter_filter]
    apply List.filter_congr
    intro x _
    by_cases hx : x = old.id <;> simp [hx]
  · rename_i hother
    apply List.filter_congr
    intro x hx
    have hne : x ≠ old.id := by
      rintro rfl
      obtain ⟨res, hres, rfl⟩ := hr.listed type _ hx
      rw [hold] at hres
      cases hres
      exact hother rfl
    simp [hne]

/-- A round leaves behind what the removal of one more resource does. -/
theorem round (h : r.Traces gone s) (hr : r.Consistent) (hold : r.resource? old.id = some old)
    (n : Nat) (rest : List ResourceId) :
    r.Traces (gone ++ [old]) (s.round (old.lowered n) rest).1 := by
  obtain ⟨_, heq⟩ := round_eq s (old.lowered n) rest
  obtain ⟨_, hremoved⟩ := remove_eq (old.lowered n) s
  refine ⟨?_, ?_, ?_, fun k hk => ?_, h.waits_round hr hold n rest, h.listed_round hr hold n rest, ?_⟩
  all_goals rw [heq]
  · rw [hremoved]
    exact h.tick
  · rw [hremoved]
    simpa using h.links
  · refine (journal_remove (old.lowered n) s).trans ?_
    rw [h.journal, List.flatMap_append, List.flatMap_singleton]
    simp only [Array.append_assoc, List.append_toArray]
    rfl
  · refine (outboxAt_remove (old.lowered n) s (h.links ▸ hk)).trans ?_
    rw [h.outboxes k hk, h.tick, List.flatMap_append, List.flatMap_singleton, List.append_assoc]
    rfl
  · refine (cache_remove (old.lowered n) s).trans ?_
    have hslot : (old.lowered n).slot? = old.slot? := rfl
    rw [h.cache, List.filter_filter, hslot]
    apply List.filter_congr
    intro entry _
    simp [or_imp, forall_and, and_comm]

end Traces

end Registry

end Framecast
