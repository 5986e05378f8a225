import Framecast.Station
import Framecast.Proofs.Operation.Interning
import Framecast.Proofs.Run.Naming

/-!
# Runs of a station

Any number of producers draw their numbers from the supply of their station, in any
order. A trace of what is done with a station tells all insertions: in which producer
each was made, the number that it drew and what was live under that number. The numbers
of a trace count from one and come around with the word. So until they do none is zero,
none is given out twice, nothing live is replaced, and what was removed leaves its number
without a meaning for good.
-/

namespace Framecast

namespace Station

/-- What can be done with a station. -/
inductive Command where
  /-- A producer is added. -/
  | host (config : Config)
  /-- Raw buffers are issued, or their bytes change. -/
  | stock (pool : BufferPool)
  /-- A layout is published. -/
  | publish (layout : Layout)
  /-- A producer ends. -/
  | close (m : Nat)
  /-- Something is done with a producer or its consumers. -/
  | act (m : Nat) (action : Action)

/-- Does something with a producer or its consumers. Numbers are not drawn elsewhere: whoever draws
some is a producer of the station. -/
def act (s : Station) (m : Nat) (action : Action) : Answer × Station :=
  match action with
  | .elsewhere _ _ => (.done, s)
  | action => (s.onBroadcast m (·.step action)).getD (.done, s)

/-- Carries a command out. -/
def perform (s : Station) : Command → Station
  | .host config => (s.host config).2
  | .stock pool => { s with supply := { s.supply with pool } }
  | .publish layout => (s.publish layout).2
  | .close m => s.modifyBroadcast m Broadcast.close
  | .act m action => (s.act m action).2

/-- Carries some commands out, one after the other. -/
def play (s : Station) (commands : List Command) : Station := commands.foldl perform s

/-- What is live under a number in the producer at a position. -/
def resource? (s : Station) (m : Nat) (id : ResourceId) : Option Resource :=
  (s.registry? m).bind (·.resource? id)

/-- A number was given out in a producer. -/
structure Issue where
  /-- The position of the producer. -/
  producer : Nat
  /-- The entry under the number. -/
  entry : Entry

/-- What a command gives out, oldest first. -/
inductive Issues (s : Station) : Command → List Issue → Prop
  /-- A producer that is added gives out nothing. -/
  | host (config : Config) : Issues s (.host config) []
  /-- A change of raw buffers gives out nothing. -/
  | stock (pool : BufferPool) : Issues s (.stock pool) []
  /-- The publication of a layout gives out nothing. -/
  | publish (layout : Layout) : Issues s (.publish layout) []
  /-- A producer that ends gives out nothing. -/
  | close (m : Nat) : Issues s (.close m) []
  /-- A producer that is not there gives out nothing. -/
  | absent {m : Nat} (action : Action) (h : s.registry? m = none) : Issues s (.act m action) []
  /-- A producer gives out the numbers of its insertions. -/
  | act {m : Nat} {action : Action} {r after : Registry} {entries : List Entry}
      (hr : s.registry? m = some r) (hafter : registry? (s.act m action).2 m = some after)
      (h : r.Namings entries after) : Issues s (.act m action) (entries.map (Issue.mk m))

/-- What some commands give out, oldest first. -/
def Trace : Station → List Command → List Issue → Prop
  | _, [], issues => issues = []
  | s, command :: rest, issues => ∃ now later, issues = now ++ later ∧ s.Issues command now ∧
      Trace (s.perform command) rest later

variable {s : Station} {m k : Nat} {x : ResourceId} {res res' : Resource} {r : Registry}
  {command : Command} {action : Action} {issues : List Issue}

theorem resource?_eq (s : Station) (m : Nat) (x : ResourceId) :
    s.resource? m x = s.broadcasts[m]?.bind fun b => b.registry.resource? x := by
  unfold resource? registry?
  cases s.broadcasts[m]? <;> rfl

theorem supply_of_registry (h : s.registry? m = some r) : r.supply = s.supply := by
  obtain ⟨b, -, rfl⟩ := Option.map_eq_some_iff.mp h
  rfl

/-- What is done with a producer comes down to a step of its broadcast, or to nothing. -/
theorem act_cases (s : Station) (m : Nat) (action : Action) :
    (s.act m action).2 = s ∨ ∃ b, s.broadcasts[m]? = some b ∧
      (∀ drawn pool, action ≠ .elsewhere drawn pool) ∧
      let after := ((b.drawing s.supply).step action).2
      (s.act m action).2 =
        { s.modifyBroadcast m fun _ => after with supply := after.registry.supply } := by
  unfold act
  split
  · exact .inl rfl
  · rename_i helsewhere
    unfold onBroadcast
    cases hb : s.broadcasts[m]? with
    | none => exact .inl rfl
    | some b => exact .inr ⟨b, rfl, helsewhere, rfl⟩

/-- What a step of a broadcast answers and leaves, the station answers and has in its place. -/
theorem act_of_registry (h : s.registry? m = some r)
    (helsewhere : ∀ drawn pool, action ≠ .elsewhere drawn pool) :
    ∃ b : Broadcast, b.registry = r ∧ (s.act m action).1 = (b.step action).1 ∧
      registry? (s.act m action).2 m = some (b.step action).2.registry := by
  obtain ⟨b, hb, rfl⟩ := Option.map_eq_some_iff.mp h
  refine ⟨b.drawing s.supply, rfl, ?_⟩
  have hact : s.act m action = (s.onBroadcast m (·.step action)).getD (.done, s) := by
    cases action with
    | elsewhere drawn pool => exact absurd rfl (helsewhere drawn pool)
    | _ => rfl
  rw [hact]
  unfold onBroadcast
  rw [hb]
  refine ⟨rfl, ?_⟩
  show (s.broadcasts.modify m _)[m]?.map _ = _
  rw [Array.getElem?_modify, if_pos rfl, hb]
  rfl

/-- Another producer is added without resources. -/
theorem resource?_host (s : Station) (config : Config) (m : Nat) (x : ResourceId) :
    (s.host config).2.resource? m x = s.resource? m x := by
  rw [resource?_eq, resource?_eq]
  show (s.broadcasts.push _)[m]?.bind _ = _
  rw [Array.getElem?_push]
  split
  · rename_i hm
    subst hm
    rw [Array.getElem?_eq_none (Nat.le_refl _), Option.bind_some, Option.bind_none]
    exact Broadcast.resource?_opened config s.supply x
  · rfl

/-- What is done with a producer shows in no other. -/
theorem resource?_act_of_ne (h : k ≠ m) :
    (s.act m action).2.resource? k x = s.resource? k x := by
  rcases s.act_cases m action with heq | ⟨b, -, -, heq⟩
  · rw [heq]
  · rw [heq, resource?_eq, resource?_eq]
    show (s.broadcasts.modify m _)[k]?.bind _ = _
    rw [Array.getElem?_modify, if_neg h.symm]

/-- A producer that ends keeps its resources. -/
theorem resource?_close (s : Station) (m k : Nat) (x : ResourceId) :
    (s.modifyBroadcast m Broadcast.close).resource? k x = s.resource? k x := by
  rw [resource?_eq, resource?_eq]
  show (s.broadcasts.modify m _)[k]?.bind _ = _
  rw [Array.getElem?_modify]
  split
  · cases s.broadcasts[k]? <;> rfl
  · rfl

/-- Every command gives out some numbers, if only none. -/
theorem exists_issues (s : Station) (command : Command) : ∃ now, s.Issues command now := by
  cases command with
  | host config => exact ⟨[], .host config⟩
  | stock pool => exact ⟨[], .stock pool⟩
  | publish layout => exact ⟨[], .publish layout⟩
  | close m => exact ⟨[], .close m⟩
  | act m action =>
    cases hr : s.registry? m with
    | none => exact ⟨[], .absent action hr⟩
    | some r =>
      by_cases helsewhere : ∃ drawn pool, action = .elsewhere drawn pool
      · obtain ⟨drawn, pool, rfl⟩ := helsewhere
        exact ⟨_, .act hr hr (.refl r)⟩
      · have hnot : ∀ drawn pool, action ≠ .elsewhere drawn pool :=
          fun drawn pool heq => helsewhere ⟨drawn, pool, heq⟩
        obtain ⟨b, rfl, -, hafter⟩ := act_of_registry hr hnot
        obtain ⟨entries, hentries⟩ := Broadcast.namings_step (b := b) hnot
        exact ⟨_, .act hr hafter hentries⟩

namespace Issues

/-- As many numbers are given out as there are insertions. -/
theorem issued (h : s.Issues command issues) :
    (s.perform command).supply.issued = s.supply.issued + issues.length := by
  cases h with
  | host | stock | publish | close => rfl
  | @absent m action h =>
    show (s.act m action).2.supply.issued = _
    rcases s.act_cases m action with heq | ⟨b, hb, -, -⟩
    · rw [heq]
      rfl
    · unfold registry? at h
      rw [hb] at h
      cases h
  | act hr hafter h =>
    rw [List.length_map, ← supply_of_registry hr, ← h.issued, supply_of_registry hafter]
    rfl

/-- The insertions draw the next numbers. -/
theorem ids (h : s.Issues command issues) :
    issues.map (·.entry.id) = Supply.numbers s.supply.issued issues.length := by
  cases h with
  | host | stock | publish | close | absent => rfl
  | act hr hafter h =>
    rw [List.length_map, ← supply_of_registry hr, ← h.ids, List.map_map]
    rfl

/-- What is live under a number that was not given out in its producer was live there before. -/
theorem origin (h : s.Issues command issues) (hx : (s.perform command).resource? k x = some res')
    (hnot : ∀ i ∈ issues, i.producer = k → i.entry.id ≠ x) :
    ∃ res, s.resource? k x = some res ∧ res.Evolves res' := by
  have hsame (heq : (s.perform command).resource? k x = s.resource? k x) :
      ∃ res, s.resource? k x = some res ∧ res.Evolves res' :=
    ⟨res', heq ▸ hx, .refl res'⟩
  cases h with
  | host config => exact hsame (s.resource?_host config k x)
  | stock | publish => exact hsame (by rw [resource?_eq, resource?_eq]; rfl)
  | close m => exact hsame (s.resource?_close m k x)
  | @absent m action h =>
    refine hsame ?_
    show (s.act m action).2.resource? k x = _
    rcases s.act_cases m action with heq | ⟨b, hb, -, -⟩
    · rw [heq]
    · unfold registry? at h
      rw [hb] at h
      cases h
  | @act m action r after entries hr hafter h =>
    by_cases hk : k = m
    · subst hk
      have hafter' : after.resource? x = some res' := by
        have hbind : resource? (s.act k action).2 k x = some res' := hx
        unfold resource? at hbind
        rwa [hafter] at hbind
      obtain ⟨res, hres, hev⟩ := h.origin hafter' fun e he =>
        hnot ⟨k, e⟩ (List.mem_map_of_mem he) rfl
      refine ⟨res, ?_, hev⟩
      unfold resource?
      rw [hr]
      exact hres
    · exact hsame (resource?_act_of_ne hk)

/-- Insertions under different numbers that nothing is live under displace nothing. -/
theorem displaced?_eq_none (h : s.Issues command issues)
    (hnodup : (issues.map (·.entry.id)).Nodup)
    (hfree : ∀ i ∈ issues, s.resource? i.producer i.entry.id = none) :
    ∀ i ∈ issues, i.entry.displaced? = none := by
  cases h with
  | host | stock | publish | close | absent => exact fun i hi => (List.not_mem_nil hi).elim
  | @act m action r after entries hr hafter h =>
    rw [List.map_map] at hnodup
    intro i hi
    obtain ⟨e, he, rfl⟩ := List.mem_map.mp hi
    refine h.displaced?_eq_none hnodup (fun e he => ?_) e he
    have hnone := hfree ⟨m, e⟩ (List.mem_map_of_mem he)
    unfold resource? at hnone
    rwa [hr] at hnone

end Issues

/-- Everything that is done has a trace. -/
theorem exists_trace (s : Station) (commands : List Command) :
    ∃ issues, s.Trace commands issues := by
  induction commands generalizing s with
  | nil => exact ⟨[], rfl⟩
  | cons command rest ih =>
    obtain ⟨now, hnow⟩ := s.exists_issues command
    obtain ⟨later, hlater⟩ := ih (s.perform command)
    exact ⟨now ++ later, now, later, rfl, hnow, hlater⟩

namespace Trace

variable {commands earlier later : List Command}

/-- As many numbers are given out as there are insertions. -/
theorem issued (h : s.Trace commands issues) :
    (s.play commands).supply.issued = s.supply.issued + issues.length := by
  induction commands generalizing s issues with
  | nil =>
    rw [show issues = [] from h]
    rfl
  | cons command rest ih =>
    obtain ⟨now, later, rfl, hnow, hlater⟩ := h
    show ((s.perform command).play rest).supply.issued = _
    rw [ih hlater, hnow.issued, List.length_append, Nat.add_assoc]

/-- The insertions draw the next numbers, one after the other. -/
theorem ids (h : s.Trace commands issues) :
    issues.map (·.entry.id) = Supply.numbers s.supply.issued issues.length := by
  induction commands generalizing s issues with
  | nil =>
    rw [show issues = [] from h]
    rfl
  | cons command rest ih =>
    obtain ⟨now, later, rfl, hnow, hlater⟩ := h
    rw [List.map_append, List.length_append, Supply.numbers_add, hnow.ids, ih hlater, hnow.issued]

/-- What is live under a number that was not given out in its producer was live there before. -/
theorem origin (h : s.Trace commands issues) (hx : (s.play commands).resource? k x = some res')
    (hnot : ∀ i ∈ issues, i.producer = k → i.entry.id ≠ x) :
    ∃ res, s.resource? k x = some res ∧ res.Evolves res' := by
  induction commands generalizing s issues with
  | nil => exact ⟨res', hx, .refl res'⟩
  | cons command rest ih =>
    obtain ⟨now, later, rfl, hnow, hlater⟩ := h
    obtain ⟨mid, hmid, hev⟩ := ih hlater hx fun i hi => hnot i (List.mem_append_right _ hi)
    obtain ⟨res, hres, hev'⟩ := hnow.origin hmid fun i hi => hnot i (List.mem_append_left _ hi)
    exact ⟨res, hres, hev'.trans hev⟩

/-- Insertions under different numbers that nothing is live under displace nothing. -/
theorem displaced?_eq_none (h : s.Trace commands issues)
    (hnodup : (issues.map (·.entry.id)).Nodup)
    (hfree : ∀ i ∈ issues, s.resource? i.producer i.entry.id = none) :
    ∀ i ∈ issues, i.entry.displaced? = none := by
  induction commands generalizing s issues with
  | nil =>
    rw [show issues = [] from h]
    exact fun i hi => (List.not_mem_nil hi).elim
  | cons command rest ih =>
    obtain ⟨now, later, rfl, hnow, hlater⟩ := h
    rw [List.map_append, List.nodup_append] at hnodup
    obtain ⟨hnodupNow, hnodupLater, hapart⟩ := hnodup
    intro i hi
    rcases List.mem_append.mp hi with hi | hi
    · exact hnow.displaced?_eq_none hnodupNow
        (fun i hi => hfree i (List.mem_append_left _ hi)) i hi
    · refine ih hlater hnodupLater (fun i hi => ?_) i hi
      refine Option.eq_none_iff_forall_ne_some.mpr fun res' hres' => ?_
      obtain ⟨res, hres, -⟩ := hnow.origin hres' fun j hj _ =>
        hapart _ (List.mem_map_of_mem hj) _ (List.mem_map_of_mem hi)
      rw [hfree i (List.mem_append_right _ hi)] at hres
      cases hres

/-- The trace of what is done in two goes is that of the first followed by that of the second. -/
theorem split (h : s.Trace (earlier ++ later) issues) :
    ∃ first second, issues = first ++ second ∧ s.Trace earlier first ∧
      (s.play earlier).Trace later second := by
  induction earlier generalizing s issues with
  | nil => exact ⟨[], issues, rfl, rfl, h⟩
  | cons command rest ih =>
    obtain ⟨now, rest, rfl, hnow, hrest⟩ := h
    obtain ⟨first, second, rfl, hfirst, hsecond⟩ := ih hrest
    exact ⟨now ++ first, second, by rw [List.append_assoc], ⟨now, first, rfl, hnow, hfirst⟩,
      hsecond⟩

end Trace

/-- What the numbers are worth that a station gives out in a run. -/
structure NamesOnce (commands : List Command) (issues : List Issue) : Prop where
  /-- Numbers count from one and come around with the word. -/
  ids : issues.map (·.entry.id) = (List.range issues.length).map fun n => UInt32.ofNat (n + 1)
  /-- None is zero and none is given out twice exactly as long as there were fewer than words. -/
  distinct : ((∀ i ∈ issues, i.entry.id ≠ 0) ∧ (issues.map (·.entry.id)).Nodup) ↔
    issues.length < 2 ^ 32
  /-- So long, no insertion replaces what is live. -/
  displaces : issues.length < 2 ^ 32 → ∀ i ∈ issues, i.entry.displaced? = none
  /-- So long, a number is live in one producer at most. -/
  apart : issues.length < 2 ^ 32 → ∀ m k x res res',
    (initial.play commands).resource? m x = some res →
      (initial.play commands).resource? k x = some res' → m = k
  /-- So long, what is live under a number that was given out earlier was live under it then. Once it
  is gone, the number names nothing again. -/
  stays : issues.length < 2 ^ 32 → ∀ earlier later, commands = earlier ++ later →
    ∀ i ∈ issues.take (initial.play earlier).supply.issued, ∀ m res',
      (initial.play commands).resource? m i.entry.id = some res' →
        ∃ res, (initial.play earlier).resource? m i.entry.id = some res ∧ res.Evolves res'

theorem resource?_initial (m : Nat) (x : ResourceId) : initial.resource? m x = none := rfl

/-- What is live was inserted. -/
theorem Trace.given {commands : List Command} (h : initial.Trace commands issues)
    (hx : (initial.play commands).resource? m x = some res) :
    ∃ i ∈ issues, i.producer = m ∧ i.entry.id = x := by
  by_contra hnot
  obtain ⟨res, hres, -⟩ := h.origin hx fun i hi hm heq => hnot ⟨i, hi, hm, heq⟩
  rw [resource?_initial] at hres
  cases hres

/-- In every run of any number of producers, the numbers that were given out are not zero and all
different exactly as long as there were fewer than words, and so long a number that was given out
never names anything else. -/
theorem names_once (commands : List Command) :
    (∃ issues, initial.Trace commands issues) ∧
      ∀ issues, initial.Trace commands issues → NamesOnce commands issues := by
  refine ⟨initial.exists_trace commands, fun issues h => ?_⟩
  have hids := h.ids
  have hdistinct : ((∀ i ∈ issues, i.entry.id ≠ 0) ∧ (issues.map (·.entry.id)).Nodup) ↔
      issues.length < 2 ^ 32 := by
    rw [← Supply.numbers_distinct_iff, ← List.forall_mem_map (f := fun i : Issue => i.entry.id)
      (P := fun id => id ≠ 0), hids]
    rfl
  refine ⟨?_, hdistinct, fun hn => ?_, fun hn m k x res res' hres hres' => ?_,
    fun hn earlier later heq i hi m res' hres' => ?_⟩
  · rw [hids]
    exact List.map_congr_left fun n _ => by rw [show initial.supply.issued = 0 from rfl, Nat.zero_add]
  · exact h.displaced?_eq_none (hdistinct.mpr hn).2 fun i _ => resource?_initial _ _
  · obtain ⟨i, hi, rfl, rfl⟩ := h.given hres
    obtain ⟨j, hj, rfl, hid⟩ := h.given hres'
    rw [List.inj_on_of_nodup_map (hdistinct.mpr hn).2 hj hi hid]
  · subst heq
    obtain ⟨first, second, rfl, hfirst, hsecond⟩ := h.split
    have hnodup := (hdistinct.mpr hn).2
    rw [List.map_append, List.nodup_append] at hnodup
    rw [hfirst.issued, show initial.supply.issued = 0 from rfl, Nat.zero_add,
      List.take_left] at hi
    have hplay : initial.play (earlier ++ later) = (initial.play earlier).play later :=
      List.foldl_append
    rw [hplay] at hres'
    exact hsecond.origin hres' fun j hj _ heq =>
      hnodup.2.2 _ (List.mem_map_of_mem hi) _ (List.mem_map_of_mem hj) heq.symm

/-- Entering a raw buffer answers with the next number, and leaves the buffer under it, with no
reference on it. -/
theorem act_createBuffer (h : s.registry? m = some r) (buffer : RawBuffer) :
    (s.act m (.createBuffer buffer)).1 = .created s.supply.nextId ∧
      ∃ after res, registry? (s.act m (.createBuffer buffer)).2 m = some after ∧
        after.supply = s.supply.draw ∧ res.id = s.supply.nextId ∧ res.refCount = 0 ∧
        res.storage = .payload (.buffer buffer) ∧
        ∀ x, after.resource? x = if x = s.supply.nextId then some res else r.resource? x := by
  rw [← supply_of_registry h]
  have hnot : ∀ drawn pool, Action.createBuffer buffer ≠ .elsewhere drawn pool := by simp
  obtain ⟨b, rfl, hanswer, hafter⟩ := act_of_registry h hnot
  rcases (Broadcast.onRegistry_ends (Registry.ends_createBuffer buffer b.registry) .created).1 with
    ⟨_, hcreated, rfl, hspawns⟩ | ⟨_, -, hbad⟩
  · obtain ⟨res, hfound, hid, hzero, hstorage⟩ : ∃ res,
        (b.step (.createBuffer buffer)).2.registry.resource? b.registry.supply.nextId = some res ∧
          res.id = b.registry.supply.nextId ∧ res.refCount = 0 ∧
          res.storage = .payload (.buffer buffer) := by
      obtain ⟨bindings, load, hfound, -⟩ := hspawns.found
      exact ⟨_, hfound, rfl, rfl, rfl⟩
    refine ⟨hanswer.trans hcreated, _, res, hafter, hspawns.supply, hid, hzero, hstorage,
      fun x => ?_⟩
    split
    · rename_i hx
      exact hx ▸ hfound
    · rename_i hx
      exact hspawns.others x hx
  · exact hbad.elim

/-- Disposing of a payload that nothing references leaves everything else. -/
theorem act_dispose (h : s.registry? m = some r) (hres : r.resource? x = some res)
    (hid : res.id = x) (hzero : res.refCount = 0) {p : Payload} (hp : res.storage = .payload p) :
    (s.act m (.dispose x)).1 = .disposed true ∧
      ∃ after, registry? (s.act m (.dispose x)).2 m = some after ∧ after.supply = s.supply ∧
        ∀ y, after.resource? y = if y = x then none else r.resource? y := by
  rw [← supply_of_registry h]
  have hnot : ∀ drawn pool, Action.dispose x ≠ .elsewhere drawn pool := by simp
  obtain ⟨b, rfl, hanswer, hafter⟩ := act_of_registry h hnot
  have hreleased : (b.registry.modifyResource x Resource.released).resource? x =
      some res.released := by
    rw [Registry.resource?_modifyResource, if_pos rfl, hres]
    rfl
  have hrun := Registry.run_dispose hres (by omega)
  rw [Registry.destroy_payload hreleased hp] at hrun
  have hstep : b.step (.dispose x) = (.disposed true, { b with
      registry := (b.registry.modifyResource x Resource.released).remove res.released }) := by
    show b.onRegistry (Registry.dispose x) .disposed = _
    unfold Broadcast.onRegistry
    rw [hrun]
  rw [hstep] at hanswer hafter
  refine ⟨hanswer, _, hafter, by simp, fun y => ?_⟩
  rw [Registry.resource?_remove, show res.released.id = x from hid, Registry.resource?_modifyResource]
  split <;> rfl

/-- Entering a raw buffer and disposing of it uses up a number, and what was under the number is gone. -/
theorem act_turnOver (h : s.registry? m = some r) (buffer : RawBuffer) :
    let worn := ((s.act m (.createBuffer buffer)).2.act m (.dispose s.supply.nextId)).2
    worn.supply = s.supply.draw ∧ ∃ after, registry? worn m = some after ∧
      ∀ x, after.resource? x = if x = s.supply.nextId then none else r.resource? x := by
  intro worn
  obtain ⟨-, mid, res, hmid, hdrawn, hid, hzero, hstorage, hlookup⟩ := act_createBuffer h buffer
  obtain ⟨-, after, hafter, hsame, hgone⟩ := act_dispose hmid ((hlookup _).trans (if_pos rfl)) hid
    hzero hstorage
  refine ⟨?_, after, hafter, fun x => ?_⟩
  · rw [← supply_of_registry hafter, hsame, ← supply_of_registry hmid, hdrawn]
  · rw [hgone, hlookup]
    split <;> rfl

end Station

namespace Samples

open Station

/-- One raw buffer. -/
def scrap : RawBuffer := .frozen 1 [1]

/-- Another one. -/
def relic : RawBuffer := .frozen 2 [2]

/-- A raw buffer is entered and disposed of, when so many were before. -/
def turnOver (n : Nat) : List Station.Command :=
  [.act 0 (.createBuffer scrap), .act 0 (.dispose (UInt32.ofNat (n + 2)))]

/-- A station with one producer, in which one raw buffer is kept and so many others were entered and
disposed of. -/
def wornStation (n : Nat) : Station :=
  initial.play (.host .initial :: .act 0 (.createBuffer relic) :: (List.range n).flatMap turnOver)

/-- The next raw buffer is entered and disposed of. -/
theorem wornStation_succ (n : Nat) : wornStation (n + 1) =
    (((wornStation n).act 0 (.createBuffer scrap)).2.act 0 (.dispose (UInt32.ofNat (n + 2)))).2 := by
  unfold wornStation play
  rw [List.range_succ, List.flatMap_append, ← List.cons_append, ← List.cons_append,
    List.foldl_append]
  rfl

/-- As long as the numbers last, the station is as large as before, and only numbers are used up. -/
theorem wornStation_spec {n : Nat} (hn : n ≤ 2 ^ 32 - 2) : (wornStation n).supply.issued = n + 1 ∧
    ∃ r, registry? (wornStation n) 0 = some r ∧
      ∀ x, (r.resource? x).map Resource.storage =
        if x = 1 then some (.payload (.buffer relic)) else none := by
  induction n with
  | zero =>
    have hhost : registry? (initial.host .initial).2 0 = some (.create .initial initial.supply) := rfl
    obtain ⟨-, after, res, hafter, -, -, -, hstorage, hlookup⟩ := act_createBuffer hhost relic
    refine ⟨rfl, after, hafter, fun x => ?_⟩
    have hone : (initial.host .initial).2.supply.nextId = 1 := rfl
    rw [hlookup, hone]
    split
    · rw [Option.map_some, hstorage]
    · rfl
  | succ n ih =>
    obtain ⟨hissued, r, hr, hkept⟩ := ih (by omega)
    have hlasts : (wornStation n).supply.Lasts := by
      unfold Supply.Lasts
      omega
    have hnumber := Supply.toNat_nextId hlasts
    have hnext : (wornStation n).supply.nextId = UInt32.ofNat (n + 2) := by
      unfold Supply.nextId
      rw [hissued]
    have hne : UInt32.ofNat (n + 2) ≠ 1 := by
      intro hone
      rw [hnext, hone, hissued] at hnumber
      cases hnumber
    obtain ⟨hsupply, after, hafter, hlookup⟩ := act_turnOver hr scrap
    rw [hnext, ← wornStation_succ] at hsupply hafter
    rw [hnext] at hlookup
    refine ⟨?_, after, hafter, fun x => ?_⟩
    · rw [hsupply]
      exact congrArg (· + 1) hissued
    · rw [hlookup]
      split
      · rename_i hx
        rw [if_neg (hx ▸ hne)]
        rfl
      · exact hkept x

/-- When all numbers but zero have been given out, zero is the next, and after it comes one, whatever is
live under it. -/
theorem act_createBuffer_of_worn {s : Station} {r : Registry} (hr : registry? s 0 = some r)
    (hissued : s.supply.issued = 2 ^ 32 - 1) (buffer : RawBuffer) :
    (s.act 0 (.createBuffer buffer)).1 = .created 0 ∧
      ((s.act 0 (.createBuffer buffer)).2.act 0 (.createBuffer buffer)).1 = .created 1 ∧
      (resource? ((s.act 0 (.createBuffer buffer)).2.act 0 (.createBuffer buffer)).2 0 1).map
        Resource.storage = some (.payload (.buffer buffer)) := by
  obtain ⟨hzeroth, mid, -, hmid, hsupply, -⟩ := act_createBuffer hr buffer
  obtain ⟨hfirst, after, res, hafter, -, -, -, hstorage, hlookup⟩ := act_createBuffer hmid buffer
  have hzero : s.supply.nextId = 0 := by
    unfold Supply.nextId
    rw [hissued]
    decide
  have hone : (s.act 0 (.createBuffer buffer)).2.supply.nextId = 1 := by
    rw [← supply_of_registry hmid, hsupply]
    show UInt32.ofNat (s.supply.issued + 1 + 1) = 1
    rw [hissued]
    decide
  rw [hzero] at hzeroth
  rw [hone] at hfirst
  refine ⟨hzeroth, hfirst, ?_⟩
  unfold resource?
  rw [hafter, Option.bind_some, hlookup, if_pos hone.symm, Option.map_some, hstorage]

/-- After the last word the number zero is given out, and then the first number once more, although
what it was given to is live, and although nothing else is. -/
theorem numbers_come_around :
    let worn := wornStation (2 ^ 32 - 2)
    let zeroth := worn.act 0 (.createBuffer scrap)
    let first := zeroth.2.act 0 (.createBuffer scrap)
    (worn.resource? 0 1).map Resource.storage = some (.payload (.buffer relic)) ∧
      (∀ x, x ≠ 1 → worn.resource? 0 x = none) ∧
      zeroth.1 = .created 0 ∧ first.1 = .created 1 ∧
      (first.2.resource? 0 1).map Resource.storage = some (.payload (.buffer scrap)) := by
  obtain ⟨hissued, r, hr, hkept⟩ := wornStation_spec (le_refl (2 ^ 32 - 2))
  have hlookup (x : ResourceId) : resource? (wornStation (2 ^ 32 - 2)) 0 x = r.resource? x := by
    unfold resource?
    rw [hr]
    rfl
  refine ⟨?_, fun x hx => ?_, act_createBuffer_of_worn hr hissued scrap⟩
  · rw [hlookup, hkept, if_pos rfl]
  · have hnone := hkept x
    rwa [if_neg hx, Option.map_eq_none_iff, ← hlookup] at hnone

end Samples

end Framecast
