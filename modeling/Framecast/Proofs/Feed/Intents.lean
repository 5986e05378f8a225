import Mathlib.Data.List.Induction
import Mathlib.Data.List.Nodup
import Framecast.Registry.Basic
import Framecast.Ring.TickGate

/-!
# Logs of intents

The intents that are queued for a link over time form a log. A log is in order
when nothing is created twice and only what stands is disposed of, where what
stands is what was created and not disposed of since. Both ends of a link read the
same log, and what stands in a part of it is what a consumer has that came so far.
-/

namespace Framecast

namespace Outgoing

/-- The tick from which an intent holds. -/
def tick : Outgoing → Tick
  | .create _ tick => tick
  | .dispose _ tick => tick

/-- The envelope that travels ahead of a creation. -/
def envelope? : Outgoing → Option Envelope
  | .create e _ => some e
  | .dispose _ _ => none

/-- The numbers that stand after one more intent. -/
def stand (ids : List ResourceId) : Outgoing → List ResourceId
  | .create e _ => ids ++ [e.id]
  | .dispose id _ => ids.filter (· != id)

/-- The numbers that a log creates and does not dispose of later. -/
def standing (log : List Outgoing) : List ResourceId := log.foldl stand []

/-- The numbers that a log creates. -/
def created (log : List Outgoing) : List ResourceId := (log.filterMap envelope?).map Envelope.id

/-- Whether an intent may follow a log: it creates something new, or disposes of what stands. -/
def Follows (log : List Outgoing) : Outgoing → Prop
  | .create e _ => e.id ∉ created log
  | .dispose id _ => id ∈ standing log

/-- A log in which every intent may follow those before it. -/
def IsLog (log : List Outgoing) : Prop :=
  ∀ before o after, log = before ++ o :: after → Follows before o

variable {log more : List Outgoing} {o : Outgoing} {id : ResourceId}

@[simp] theorem tick_record (o : Outgoing) : o.record.tick = o.tick := by cases o <;> rfl

/-- What stands after one more intent. -/
@[simp] theorem standing_append_singleton (log : List Outgoing) (o : Outgoing) :
    standing (log ++ [o]) = stand (standing log) o := by
  unfold standing
  rw [List.foldl_append]
  rfl

@[simp] theorem created_append (log more : List Outgoing) :
    created (log ++ more) = created log ++ created more := by
  unfold created
  rw [List.filterMap_append, List.map_append]

/-- A number is created by an envelope. -/
theorem mem_created : id ∈ created log ↔ ∃ e tick, .create e tick ∈ log ∧ e.id = id := by
  unfold created
  rw [List.mem_map]
  constructor
  · rintro ⟨e, he, hid⟩
    obtain ⟨o, ho, heq⟩ := List.mem_filterMap.mp he
    cases o with
    | create e' tick =>
      cases heq
      exact ⟨e, tick, ho, hid⟩
    | dispose => cases heq
  · rintro ⟨e, tick, he, hid⟩
    exact ⟨e, List.mem_filterMap.mpr ⟨_, he, rfl⟩, hid⟩

/-- Only what was created stands. -/
theorem created_of_standing (h : id ∈ standing log) : id ∈ created log := by
  induction log using List.reverseRecOn with
  | nil => cases h
  | append_singleton log o ih =>
    rw [standing_append_singleton] at h
    rw [created_append]
    cases o with
    | create e tick =>
      rcases List.mem_append.mp h with h | h
      · exact List.mem_append_left _ (ih h)
      · exact List.mem_append_right _ h
    | dispose id' tick => exact List.mem_append_left _ (ih (List.mem_filter.mp h).1)

/-- What newly stands was created since. -/
theorem created_of_standing_append (h : id ∈ standing (log ++ more)) (hnot : id ∉ standing log) :
    id ∈ created more := by
  induction more using List.reverseRecOn with
  | nil => exact absurd (by simpa using h) hnot
  | append_singleton more o ih =>
    rw [← List.append_assoc, standing_append_singleton] at h
    rw [created_append]
    cases o with
    | create e tick =>
      rcases List.mem_append.mp h with h | h
      · exact List.mem_append_left _ (ih h)
      · exact List.mem_append_right _ h
    | dispose id' tick => exact List.mem_append_left _ (ih (List.mem_filter.mp h).1)

/-- What stands no more was disposed of since. -/
theorem disposed_of_not_standing_append (h : id ∈ standing log)
    (hnot : id ∉ standing (log ++ more)) : ∃ tick, .dispose id tick ∈ more := by
  induction more using List.reverseRecOn with
  | nil => exact absurd h (by simpa using hnot)
  | append_singleton more o ih =>
    rw [← List.append_assoc, standing_append_singleton] at hnot
    by_cases hmore : id ∈ standing (log ++ more)
    · cases o with
      | create e tick => exact absurd (List.mem_append_left _ hmore) hnot
      | dispose id' tick =>
        refine ⟨tick, List.mem_append_right _ ?_⟩
        have heq : id = id' := by
          by_contra hne
          exact hnot (List.mem_filter.mpr ⟨hmore, by simpa using hne⟩)
        rw [heq]
        exact List.mem_singleton_self _
    · obtain ⟨tick, hmem⟩ := ih hmore
      exact ⟨tick, List.mem_append_left _ hmem⟩

theorem isLog_nil : IsLog [] := by
  intro before o after h
  simp at h

theorem IsLog.of_append (h : IsLog (log ++ more)) : IsLog log := by
  intro before o after heq
  apply h before o (after ++ more)
  rw [heq, List.append_assoc, List.cons_append]

/-- A log is continued by an intent that may follow. -/
theorem IsLog.snoc (h : IsLog log) (ho : Follows log o) : IsLog (log ++ [o]) := by
  intro before o' after heq
  rcases List.eq_nil_or_concat after with rfl | ⟨after, last, rfl⟩
  · obtain ⟨rfl, hone⟩ := List.append_inj' heq rfl
    rw [← (List.cons.inj hone).1]
    exact ho
  · rw [List.concat_eq_append, ← List.cons_append, ← List.append_assoc] at heq
    obtain ⟨hlog, -⟩ := List.append_inj' heq rfl
    exact h before o' after hlog

theorem IsLog.follows (h : IsLog (log ++ o :: more)) : Follows log o := h log o more rfl

/-- What a log creates is created nowhere else in it. -/
theorem IsLog.not_created {e : Envelope} {tick : Tick} (h : IsLog (log ++ .create e tick :: more)) :
    e.id ∉ created more := by
  intro hmem
  obtain ⟨e', tick', he', hid⟩ := mem_created.mp hmem
  obtain ⟨between, after, rfl⟩ := List.append_of_mem he'
  have hlater : e'.id ∉ created (log ++ .create e tick :: between) :=
    h (log ++ .create e tick :: between) (.create e' tick') after (by simp)
  apply hlater
  rw [hid]
  exact mem_created.mpr ⟨e, tick, by simp, rfl⟩

/-- What a log disposes of was created before and is not created again. -/
theorem IsLog.not_created_of_dispose {tick : Tick} (h : IsLog (log ++ .dispose id tick :: more)) :
    id ∉ created more := by
  have hcreated : id ∈ created log := created_of_standing (show id ∈ standing log from h.follows)
  obtain ⟨e, tick', he, rfl⟩ := mem_created.mp hcreated
  obtain ⟨before, between, rfl⟩ := List.append_of_mem he
  intro hmem
  have hsplit : IsLog (before ++ .create e tick' :: (between ++ .dispose e.id tick :: more)) := by
    simpa using h
  have hnot : e.id ∉ created (between ++ .dispose e.id tick :: more) := hsplit.not_created
  exact hnot (mem_created.mpr (by
    obtain ⟨e', tick'', he', hid⟩ := mem_created.mp hmem
    exact ⟨e', tick'', by simp [he'], hid⟩))

/-- A log that is in order creates nothing twice. -/
theorem IsLog.nodup_created (h : IsLog log) : (created log).Nodup := by
  induction log using List.reverseRecOn with
  | nil => exact List.nodup_nil
  | append_singleton log o ih =>
    rw [created_append]
    have hbefore := ih h.of_append
    cases o with
    | create e tick =>
      have hnew : e.id ∉ created log := h.follows
      have hone : created [.create e tick] = [e.id] := rfl
      rw [hone]
      refine hbefore.append (List.nodup_singleton _) ?_
      rw [List.disjoint_singleton]
      exact hnew
    | dispose id tick =>
      have hnone : created [.dispose id tick] = [] := rfl
      rw [hnone, List.append_nil]
      exact hbefore

end Outgoing

end Framecast
