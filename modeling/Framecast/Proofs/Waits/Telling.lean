import Framecast.Proofs.Waits.Heeding

/-!
# What an answer tells those who wait

An answer for a pending resource is told to the resource, and if it settles the
matter, to everybody who waits for it. An answer for what is settled or gone is not
heard. A new wait is told at once what there is to tell, and otherwise stands among
the waiters of its resource.
-/

namespace Framecast

/-- A resource about which one more answer was taken in. -/
def Resource.told (res : Resource) (failure? : Option String) : Resource :=
  { res with
    load := res.load.after failure?
    waiters := if ((res.load.after failure?).outcome? res.id).isSome then [] else res.waiters }

namespace Registry

variable {r after : Registry} {id : ResourceId} {res : Resource} {acks : List Ack} {ack : Ack}

/-- An answer for what is settled changes nothing. -/
theorem takeAck_of_settled (hres : r.resource? ack.id = some res) (hsettled : ¬res.load.IsPending) :
    r.takeAck ack = r := by
  unfold takeAck acknowledge
  rw [hres]
  dsimp only
  split
  · rename_i heq _
    exact absurd ⟨_, heq⟩ hsettled
  · rename_i heq _
    exact absurd ⟨_, heq⟩ hsettled
  · rfl

/-- When an answer settles the matter, those who wait are told, whatever is noted besides. -/
theorem foldl_resolve_told (hres : r.resource? id = some res) (journal : Array Notice)
    {failure? : Option String} {load : LoadState} {outcome : Outcome} {f : Resource → Resource}
    (hf : f res = res.told failure?) (houtcome : load.outcome? id = some outcome) :
    ∃ journal' waits, res.waiters.foldl (resolve outcome)
        (({ r with journal } : Registry).modifyResource id f) =
      (({ r with journal := journal', waits } : Registry).modifyResource id
        fun _ => res.told failure?) ∧
      ∀ ticket : Ticket, waits[ticket]? = r.waits[ticket]?.map fun wait : Wait =>
        if ticket ∈ res.waiters then { wait with outcome? := (load.outcome? id).or wait.outcome? }
        else wait := by
  have htold := waits_foldl_resolve outcome res.waiters
    (({ r with journal } : Registry).modifyResource id f)
  obtain ⟨waits, heq⟩ := foldl_resolve outcome res.waiters
    (({ r with journal } : Registry).modifyResource id f)
  refine ⟨journal, waits, ?_, fun ticket => ?_⟩
  · rw [heq, modifyResource_of_some (by exact hres), modifyResource_of_some (by exact hres), hf]
  · have hwaits := htold ticket
    rw [heq, waits_modifyResource] at hwaits
    rw [houtcome]
    exact hwaits

/-- An answer for a pending resource is told to it, and to those who wait if it settles the matter. -/
theorem takeAck_of_pending (hres : r.resource? ack.id = some res) (hkeyed : res.id = ack.id)
    (hpending : res.load.IsPending) :
    ∃ journal waits,
      r.takeAck ack = (({ r with journal, waits } : Registry).modifyResource ack.id
        fun _ => res.told ack.failure?) ∧
      ∀ ticket : Ticket, waits[ticket]? = r.waits[ticket]?.map fun wait : Wait =>
        if ticket ∈ res.waiters then
          { wait with outcome? := ((res.load.after ack.failure?).outcome? ack.id).or wait.outcome? }
        else wait := by
  obtain ⟨n, hn⟩ := hpending
  unfold takeAck acknowledge
  rw [hres]
  dsimp only
  rw [hkeyed, hn]
  cases hfailure : ack.failure? with
  | none =>
    dsimp only
    split
    · rename_i hmore
      have hafter : LoadState.after (.pending n) none = .pending (n - 1) := if_pos hmore
      refine ⟨r.journal, r.waits, ?_, fun ticket => ?_⟩
      · rw [modifyResource_of_some hres, modifyResource_of_some (by exact hres)]
        unfold Resource.told
        rw [hn, hafter]
        rfl
      · rw [hafter]
        cases r.waits[ticket]? <;> simp [LoadState.outcome?]
    · rename_i hlast
      have hafter : LoadState.after (.pending n) none = .loaded := if_neg hlast
      rw [hafter]
      refine foldl_resolve_told hres r.journal ?_ rfl
      unfold Resource.told
      rw [hn, hafter]
      rfl
  | some reason =>
    dsimp only
    have hafter : LoadState.after (.pending n) (some reason) = .failed reason := rfl
    rw [hafter]
    refine foldl_resolve_told hres (r.journal.push (.warning (.loadFailed ack.thread ack.id reason)))
      ?_ rfl
    unfold Resource.told
    rw [hn, hafter]
    rfl

/-- A registry in which a resource was told one more answer, and so were those who wait for it. -/
structure Tells (r after : Registry) (res : Resource) (failure? : Option String) : Prop where
  /-- Only the resource differs. -/
  lookup : ∀ x, after.resource? x = if x = res.id then some (res.told failure?) else r.resource? x
  /-- No number is given out. -/
  supply : after.supply = r.supply
  /-- Waits for the resource stand as it does. -/
  told : ∀ ticket ∈ res.waiters,
    after.waits[ticket]? = some ⟨res.id, (res.load.after failure?).outcome? res.id⟩
  /-- Other waits are as before. -/
  kept : ∀ ticket, ticket ∉ res.waiters → after.waits[ticket]? = r.waits[ticket]?

/-- An answer for a pending resource is told to it. -/
theorem Minds.tells (h : r.Minds none acks) (hres : r.resource? ack.id = some res)
    (hpending : res.load.IsPending) : r.Tells (r.takeAck ack) res ack.failure? := by
  have hkeyed := h.keyed _ res hres
  obtain ⟨journal, waits, heq, hwaits⟩ := takeAck_of_pending hres hkeyed hpending
  refine ⟨fun x => ?_, ?_, fun ticket hmem => ?_, fun ticket hmem => ?_⟩
  · rw [heq, resource?_modifyResource, hkeyed]
    exact if_congr Iff.rfl (congrArg (Option.map _) hres) rfl
  · rw [heq, supply_modifyResource]
  · have hopen : r.waits[ticket]? = some ⟨ack.id, none⟩ :=
      (h.waiting ticket ack.id).mpr ⟨res, hres, hmem⟩
    rw [heq, waits_modifyResource, hkeyed]
    refine (hwaits ticket).trans ?_
    rw [hopen, Option.map_some, if_pos hmem, Option.or_none]
  · rw [heq, waits_modifyResource]
    refine (hwaits ticket).trans ?_
    simp only [if_neg hmem, Option.map_id']

namespace Tells

variable {failure? : Option String}

/-- What is there is the resource that was told something, or was there before. -/
theorem found (h : r.Tells after res failure?) {x : ResourceId} {res' : Resource}
    (hres' : after.resource? x = some res') :
    x = res.id ∧ res' = res.told failure? ∨ x ≠ res.id ∧ r.resource? x = some res' := by
  rw [h.lookup] at hres'
  split at hres'
  · exact .inl ⟨‹_›, (Option.some.inj hres').symm⟩
  · exact .inr ⟨‹_›, hres'⟩

/-- A resource is among those that a wait is open for as long as it is not settled. -/
theorem waiting (h : r.Tells after res failure?) (hm : r.Minds none acks)
    (hres : r.resource? res.id = some res) (ticket : Ticket) (x : ResourceId) :
    after.waits[ticket]? = some ⟨x, none⟩ ↔
      ∃ res', after.resource? x = some res' ∧ ticket ∈ res'.waiters := by
  have hwaits : ticket ∈ res.waiters ↔ r.waits[ticket]? = some ⟨res.id, none⟩ := by
    rw [hm.waiting]
    refine ⟨fun hmem => ⟨res, hres, hmem⟩, ?_⟩
    rintro ⟨res', hres', hmem⟩
    rw [hres] at hres'
    cases hres'
    exact hmem
  have htold : ticket ∈ (res.told failure?).waiters ↔
      ticket ∈ res.waiters ∧ (res.load.after failure?).outcome? res.id = none := by
    unfold Resource.told
    cases (res.load.after failure?).outcome? res.id <;> simp
  have hlookup : (∃ res', after.resource? x = some res' ∧ ticket ∈ res'.waiters) ↔
      if x = res.id then ticket ∈ (res.told failure?).waiters
      else ∃ res', r.resource? x = some res' ∧ ticket ∈ res'.waiters := by
    rw [h.lookup]
    split <;> simp
  rw [hlookup, htold, ← hm.waiting]
  by_cases hmem : ticket ∈ res.waiters
  · rw [h.told ticket hmem, hwaits.mp hmem]
    split
    · rename_i hx
      subst hx
      simp [hmem]
    · rename_i hx
      have hne : res.id ≠ x := Ne.symm hx
      simp [hne]
  · rw [h.kept ticket hmem]
    split
    · rename_i hx
      subst hx
      rw [← hwaits]
      simp [hmem]
    · rfl

/-- What is said of loading is kept in mind. -/
theorem minds (h : r.Tells after res failure?) (hm : r.Minds none acks)
    (hres : r.resource? res.id = some res) (thread : Thread) :
    after.Minds none (acks ++ [⟨thread, res.id, failure?⟩]) := by
  refine ⟨fun x res' hres' => ?_, fun x res' hres' => ?_, fun x res' hdraft => ?_,
    fun x res' hres' hdraft => ?_, h.waiting hm hres, fun x res' hres' hwaited => ?_⟩
  · rcases h.found hres' with ⟨rfl, rfl⟩ | ⟨-, hold⟩
    · rfl
    · exact hm.keyed x res' hold
  · rw [h.supply]
    rcases h.found hres' with ⟨rfl, -⟩ | ⟨-, hold⟩
    · exact hm.known _ res hres
    · exact hm.known x res' hold
  · cases hdraft
  · rw [reports_append, List.foldl_append]
    rcases h.found hres' with ⟨rfl, rfl⟩ | ⟨hx, hold⟩
    · have hload : res.load = _ := hm.load _ res hres hdraft
      have hself : reports res.id [⟨thread, res.id, failure?⟩] = [failure?] :=
        reports_singleton_self _
      rw [hself]
      exact congrArg (LoadState.after · failure?) hload
    · have hnone : reports x [⟨thread, res.id, failure?⟩] = [] :=
        reports_eq_nil_iff.mpr (by simpa using Ne.symm hx)
      rw [hnone]
      exact hm.load x res' hold hdraft
  · rcases h.found hres' with ⟨rfl, rfl⟩ | ⟨-, hold⟩
    · rw [← LoadState.outcome?_eq_none (x := res.id)]
      obtain ⟨ticket, hmem⟩ := List.exists_mem_of_ne_nil _ hwaited
      unfold Resource.told at hmem
      dsimp only at hmem
      split at hmem
      · cases hmem
      · rename_i hopen
        have hnone : (res.load.after failure?).outcome? res.id = none := by simpa using hopen
        exact hnone
    · exact hm.pending x res' hold hwaited

/-- Waits go on. -/
theorem heeds (h : r.Tells after res failure?) (hm : r.Minds none acks)
    (hres : r.resource? res.id = some res) (hpending : res.load.IsPending) : r.Heeds after := by
  have hwaits {ticket : Ticket} (hmem : ticket ∈ res.waiters) :
      r.waits[ticket]? = some ⟨res.id, none⟩ := (hm.waiting ticket res.id).mpr ⟨res, hres, hmem⟩
  refine ⟨h.supply ▸ Nat.le_refl _, fun x res' _ hres' => ?_, fun ticket wait hwait hended => ?_,
    fun ticket x hopen => ?_⟩
  · rcases h.found hres' with ⟨rfl, rfl⟩ | ⟨-, hold⟩
    · exact ⟨res, hres, fun hnot => absurd hpending hnot⟩
    · exact ⟨res', hold, fun _ => rfl⟩
  · rw [h.kept ticket]
    · exact hwait
    · intro hmem
      rw [hwaits hmem] at hwait
      cases hwait
      exact hended rfl
  · by_cases hself : x = res.id
    · subst hself
      obtain ⟨res', hres', hmem⟩ := (hm.waiting ticket _).mp hopen
      rw [hres] at hres'
      cases hres'
      have hfate : after.fate res.id = (res.told failure?).load.outcome? res.id :=
        outlook_of_some ((h.lookup _).trans (if_pos rfl)) _
      rw [h.told ticket hmem, hfate]
      rfl
    · rw [h.kept ticket]
      · have hfate : after.fate x = r.fate x :=
          outlook_congr (congrArg _ ((h.lookup x).trans (if_neg hself))) _
        rw [hopen, hfate, hm.fate_of_open hopen]
      · intro hmem
        rw [hwaits hmem] at hopen
        exact hself (congrArg Wait.id (Option.some.inj hopen)).symm

end Tells

/-- What a registry gets to know from one answer. -/
theorem Minds.takeAck (h : r.Minds none acks) (ack : Ack) :
    (r.takeAck ack).Minds none (acks ++ [ack]) ∧ r.Heeds (r.takeAck ack) ∧
      ∀ x, ((r.takeAck ack).resource? x).map Resource.bindings =
        (r.resource? x).map Resource.bindings := by
  have hunheard (heq : r.takeAck ack = r) (hload : ∀ res, r.resource? ack.id = some res →
      res.load.after ack.failure? = res.load) :
      (r.takeAck ack).Minds none (acks ++ [ack]) ∧ r.Heeds (r.takeAck ack) ∧
        ∀ x, ((r.takeAck ack).resource? x).map Resource.bindings =
          (r.resource? x).map Resource.bindings := by
    rw [heq]
    refine ⟨⟨h.keyed, h.known, h.unheard, fun x res hres hdraft => ?_, h.waiting, h.pending⟩,
      .refl h, fun _ => rfl⟩
    rw [reports_append, List.foldl_append, ← h.load x res hres hdraft]
    by_cases hx : ack.id = x
    · subst hx
      rw [reports_singleton_self]
      exact (hload res hres).symm
    · have hnone : reports x [ack] = [] := reports_eq_nil_iff.mpr (by simpa using hx)
      rw [hnone]
      rfl
  cases hres : r.resource? ack.id with
  | none =>
    refine hunheard ?_ fun res hres' => ?_
    · unfold Registry.takeAck
      rw [hres]
    · rw [hres] at hres'
      cases hres'
  | some res =>
    by_cases hpending : res.load.IsPending
    · have hkeyed := h.keyed _ res hres
      have htells := h.tells hres hpending
      have hself : r.resource? res.id = some res := hkeyed.symm ▸ hres
      have hminds := htells.minds h hself ack.thread
      rw [hkeyed] at hminds
      refine ⟨hminds, htells.heeds h hself hpending, fun x => ?_⟩
      rw [htells.lookup]
      split
      · rename_i hx
        rw [hx, hself]
        rfl
      · rfl
    · refine hunheard (takeAck_of_settled hres hpending) fun res' hres' => ?_
      rw [hres] at hres'
      cases hres'
      exact LoadState.foldl_after_of_not_pending hpending [ack.failure?]

/-- What a registry gets to know from several answers. -/
theorem Minds.foldl_takeAck (h : r.Minds none acks) (more : List Ack) :
    (more.foldl Registry.takeAck r).Minds none (acks ++ more) ∧
      r.Heeds (more.foldl Registry.takeAck r) ∧
      ∀ x, ((more.foldl Registry.takeAck r).resource? x).map Resource.bindings =
        (r.resource? x).map Resource.bindings := by
  induction more generalizing r acks with
  | nil => exact ⟨(List.append_nil acks).symm ▸ h, .refl h, fun _ => rfl⟩
  | cons ack rest ih =>
    obtain ⟨hone, hheeds, hbound⟩ := h.takeAck ack
    obtain ⟨hall, hheeds', hbound'⟩ := ih hone
    rw [List.append_assoc, List.singleton_append] at hall
    refine ⟨hall, hheeds.trans hheeds' h fun x hx => ?_, fun x => (hbound' x).trans (hbound x)⟩
    have hsome := congrArg Option.isSome (hbound' x)
    rw [Option.isSome_map, Option.isSome_map] at hsome
    exact hsome.trans hx

/-- What a registry gets to know when it takes all answers in. -/
theorem Minds.processAcks (h : r.Minds none acks) :
    r.processAcks.Minds none (acks ++ r.acks.flatMap Array.toList) ∧ r.Heeds r.processAcks ∧
      ∀ x, (r.processAcks.resource? x).map Resource.bindings =
        (r.resource? x).map Resource.bindings := by
  have hacks : r.acks.flatMap Array.toList = r.links.flatMap fun link => link.wire.acks.toList := by
    unfold Registry.acks
    rw [List.flatMap_map]
  rw [hacks]
  unfold Registry.processAcks
  dsimp only
  generalize hlinks : (r.links.map fun link =>
    { link with wire := { link.wire with acks := #[] } }) = links
  have hemptied : ({ r with links } : Registry).Minds none acks :=
    h.congr (fun _ => rfl) rfl (Nat.le_refl _)
  obtain ⟨hminds, hheeds, hbound⟩ :=
    hemptied.foldl_takeAck (r.links.flatMap fun link => link.wire.acks.toList)
  have hfirst : r.Heeds { r with links } := (Heeds.refl h).congr (fun _ => rfl) rfl rfl
  refine ⟨hminds, hfirst.trans hheeds h fun x hx => ?_, hbound⟩
  have hsome := congrArg Option.isSome (hbound x)
  rw [Option.isSome_map, Option.isSome_map] at hsome
  exact hsome.trans hx

/-- What a wait for a resource is told at once, if anything. -/
def answerTo (r : Registry) (id : ResourceId) : Option Outcome := r.outlook id (.notFound id)

/-- Only a wait for what is live and pending is told nothing yet. -/
theorem answerTo_eq_none : r.answerTo id = none ↔
    ∃ res, r.resource? id = some res ∧ res.load.IsPending := by
  unfold answerTo outlook
  cases r.resource? id with
  | none => simp
  | some res => simp [LoadState.outcome?_eq_none]

/-- A wait is added, and the resource is told of it if it is open. -/
structure Queues (r after : Registry) (id : ResourceId) : Prop where
  /-- Only the waiters of the resource may differ. -/
  lookup : ∀ x, after.resource? x = if x = id ∧ r.answerTo id = none then
    (r.resource? x).map fun res => { res with waiters := res.waiters ++ [r.waits.size] }
    else r.resource? x
  /-- The wait is told what there is to tell. -/
  waits : after.waits = r.waits.push ⟨id, r.answerTo id⟩
  /-- No number is given out. -/
  supply : after.supply = r.supply

namespace Queues

/-- What is there was there before, and only its waiters may differ. -/
theorem found (h : r.Queues after id) {x : ResourceId} {res' : Resource}
    (hres' : after.resource? x = some res') : ∃ res, r.resource? x = some res ∧
      (res' = res ∨ x = id ∧ r.answerTo id = none ∧
        res' = { res with waiters := res.waiters ++ [r.waits.size] }) := by
  rw [h.lookup] at hres'
  split at hres'
  · rename_i hx
    obtain ⟨res, hres, rfl⟩ := Option.map_eq_some_iff.mp hres'
    exact ⟨res, hres, .inr ⟨hx.1, hx.2, rfl⟩⟩
  · exact ⟨res', hres', .inl rfl⟩

/-- How far loading has come does not change. -/
theorem load (h : r.Queues after id) (x : ResourceId) :
    (after.resource? x).map Resource.load = (r.resource? x).map Resource.load := by
  rw [h.lookup]
  split
  · rw [Option.map_map]
    rfl
  · rfl

/-- A wait that is open stands among the waiters, and no other does. -/
theorem waiting (h : r.Queues after id) (hm : r.Minds none acks) (ticket : Ticket)
    (x : ResourceId) : after.waits[ticket]? = some ⟨x, none⟩ ↔
      ∃ res', after.resource? x = some res' ∧ ticket ∈ res'.waiters := by
  have hnew {x : ResourceId} {res : Resource} (hres : r.resource? x = some res) :
      r.waits.size ∉ res.waiters := by
    intro hmem
    have hopen := (hm.waiting _ x).mpr ⟨res, hres, hmem⟩
    rw [Array.getElem?_eq_none (Nat.le_refl _)] at hopen
    cases hopen
  rw [h.waits, Array.getElem?_push]
  by_cases hticket : ticket = r.waits.size
  · subst hticket
    rw [if_pos rfl]
    constructor
    · intro heq
      obtain ⟨rfl, hanswer⟩ := Wait.mk.inj (Option.some.inj heq)
      obtain ⟨res, hres, -⟩ := answerTo_eq_none.mp hanswer
      refine ⟨{ res with waiters := res.waiters ++ [r.waits.size] }, ?_, by simp⟩
      rw [h.lookup, if_pos ⟨rfl, hanswer⟩, hres]
      rfl
    · rintro ⟨res', hres', hmem⟩
      obtain ⟨res, hres, rfl | ⟨rfl, hanswer, -⟩⟩ := h.found hres'
      · exact absurd hmem (hnew hres)
      · rw [hanswer]
  · rw [if_neg hticket, hm.waiting]
    constructor
    · rintro ⟨res, hres, hmem⟩
      rw [h.lookup, hres]
      split
      · exact ⟨_, rfl, List.mem_append_left _ hmem⟩
      · exact ⟨res, rfl, hmem⟩
    · rintro ⟨res', hres', hmem⟩
      obtain ⟨res, hres, rfl | ⟨-, -, rfl⟩⟩ := h.found hres'
      · exact ⟨res', hres, hmem⟩
      · refine ⟨res, hres, (List.mem_append.mp hmem).resolve_right ?_⟩
        rwa [List.mem_singleton]

/-- What is said of loading is kept in mind. -/
theorem minds (h : r.Queues after id) (hm : r.Minds none acks) : after.Minds none acks := by
  refine ⟨fun x res' hres' => ?_, fun x res' hres' => ?_, fun x res' hdraft => ?_,
    fun x res' hres' hdraft => ?_, h.waiting hm, fun x res' hres' hwaited => ?_⟩
  · obtain ⟨res, hres, rfl | ⟨-, -, rfl⟩⟩ := h.found hres'
    · exact hm.keyed x res' hres
    · exact hm.keyed x res hres
  · obtain ⟨res, hres, -⟩ := h.found hres'
    rw [h.supply]
    exact hm.known x res hres
  · cases hdraft
  · obtain ⟨res, hres, rfl | ⟨-, -, rfl⟩⟩ := h.found hres'
    · exact hm.load x res' hres hdraft
    · exact hm.load x res hres hdraft
  · obtain ⟨res, hres, rfl | ⟨rfl, hanswer, rfl⟩⟩ := h.found hres'
    · exact hm.pending x res' hres hwaited
    · obtain ⟨res₁, hres₁, hpending⟩ := answerTo_eq_none.mp hanswer
      rw [hres] at hres₁
      cases hres₁
      exact hpending

/-- Waits go on. -/
theorem heeds (h : r.Queues after id) (hm : r.Minds none acks) : r.Heeds after := by
  have hkept {ticket : Ticket} {wait : Wait} (hwait : r.waits[ticket]? = some wait) :
      after.waits[ticket]? = some wait := by
    have hlt := (Array.getElem?_eq_some_iff.mp hwait).1
    rw [h.waits, Array.getElem?_push, if_neg (by omega), hwait]
  refine ⟨h.supply ▸ Nat.le_refl _, fun x res' _ hres' => ?_, fun ticket wait hwait _ =>
    hkept hwait, fun ticket x hopen => ?_⟩
  · obtain ⟨res, hres, rfl | ⟨-, -, rfl⟩⟩ := h.found hres'
    · exact ⟨res', hres, fun _ => rfl⟩
    · exact ⟨res, hres, fun _ => rfl⟩
  · have hfate : after.fate x = r.fate x := outlook_congr (h.load x) _
    rw [hfate, hm.fate_of_open hopen]
    exact hkept hopen

end Queues

/-- A wait is queued once all answers were taken in. -/
theorem queues_await (r : Registry) (id : ResourceId) :
    r.processAcks.Queues (r.await id).2 id ∧ (r.await id).1 = r.processAcks.waits.size := by
  unfold await
  dsimp only
  generalize r.processAcks = mid
  cases hres : mid.resource? id with
  | none =>
    have hanswer : mid.answerTo id = some (.failed (.notFound id)) := outlook_of_none hres _
    refine ⟨⟨fun x => ?_, ?_, rfl⟩, rfl⟩
    · rw [hanswer, if_neg (by simp)]
      rfl
    · rw [hanswer]
      rfl
  | some res =>
    have hanswer : mid.answerTo id = res.load.outcome? id := outlook_of_some hres _
    dsimp only
    cases hload : res.load with
    | pending n =>
      rw [hload] at hanswer
      refine ⟨⟨fun x => ?_, ?_, supply_modifyResource _ _ _⟩, rfl⟩
      · have hsame (x : ResourceId) :
            (mid.addWait ⟨id, none⟩).2.resource? x = mid.resource? x := rfl
        rw [resource?_modifyResource, hsame, hsame]
        by_cases hx : x = id
        · rw [if_pos hx, if_pos ⟨hx, hanswer⟩, hx]
          rfl
        · rw [if_neg hx, if_neg fun h => hx h.1]
      · rw [waits_modifyResource, hanswer]
        rfl
    | loaded =>
      rw [hload] at hanswer
      refine ⟨⟨fun x => ?_, ?_, rfl⟩, rfl⟩
      · rw [hanswer, if_neg (by simp [LoadState.outcome?])]
        rfl
      · rw [hanswer]
        rfl
    | failed reason =>
      rw [hload] at hanswer
      refine ⟨⟨fun x => ?_, ?_, rfl⟩, rfl⟩
      · rw [hanswer, if_neg (by simp [LoadState.outcome?])]
        rfl
      · rw [hanswer]
        rfl

/-- What a registry gets to know, and what a wait is told, when one is asked for. -/
theorem Minds.await (h : r.Minds none acks) (id : ResourceId) :
    (r.await id).2.Minds none (acks ++ r.acks.flatMap Array.toList) ∧ r.Heeds (r.await id).2 ∧
      ((r.await id).2.resource? id).isSome = (r.resource? id).isSome ∧
      (r.await id).2.waits[(r.await id).1]? = some ⟨id, (r.await id).2.answerTo id⟩ := by
  obtain ⟨hminds, hheeds, hbound⟩ := h.processAcks
  obtain ⟨hqueues, hticket⟩ := r.queues_await id
  have hsome (x : ResourceId) : ((r.await id).2.resource? x).isSome =
      (r.processAcks.resource? x).isSome := by
    simpa using congrArg Option.isSome (hqueues.load x)
  refine ⟨hqueues.minds hminds, hheeds.trans (hqueues.heeds hminds) h fun x hx =>
    (hsome x).trans hx, (hsome id).trans (by simpa using congrArg Option.isSome (hbound id)), ?_⟩
  have hanswer : (r.await id).2.answerTo id = r.processAcks.answerTo id :=
    outlook_congr (hqueues.load id) _
  rw [hticket, hqueues.waits, Array.getElem?_push, if_pos rfl, hanswer]

end Registry

end Framecast
