import Framecast.Proofs.Frames.Coherence
import Framecast.Proofs.Waits.Hearing

/-!
# How loading and waits come out

A resource is loaded once every link that it was sent to has answered that loading
went well, and failed once some link has answered otherwise. A wait for it stands as
the resource does for as long as the resource is live, and what a wait was told once
is not taken back. None of this depends on the order in which the links answer, but
for the reason of a failure, which is the first that was heard.
-/

namespace Framecast

/-- The reason of the first answer for a resource that was heard to fail. -/
def firstFailure? (id : ResourceId) (past : List Moment) : Option String :=
  (heard past).findSome? fun ack => if ack.id = id then ack.failure? else none

/-- Every link that a live resource was sent to has answered that loading went well. -/
def LoadedEverywhere (id : ResourceId) (past : List Moment) (b : Broadcast) : Prop :=
  ∃ res, b.registry.resource? id = some res ∧ ∀ binding ∈ res.bindings,
    ∃ ack ∈ answered binding.link past, ack.id = id ∧ ack.failure? = none

/-- A resource is live, and the first failure that was heard of it had a reason. -/
def FailedFor (id : ResourceId) (reason : String) (past : List Moment) (b : Broadcast) : Prop :=
  (b.registry.resource? id).isSome ∧ firstFailure? id past = some reason

/-- A resource is live and pending. -/
def Registry.Awaits (r : Registry) (id : ResourceId) : Prop :=
  ∃ res, r.resource? id = some res ∧ res.load.IsPending

/-- Something holds in some state of a run, from the end of its beginning on. -/
def Since (beginning past : List Moment) (P : List Moment → Broadcast → Prop) : Prop :=
  ∃ m earlier, beginning <:+ m :: earlier ∧ m :: earlier <:+ past ∧ P (m :: earlier) m.after

/-- A resource was removed while it was pending, after the beginning of a run. -/
def RemovedSince (beginning past : List Moment) (id : ResourceId) : Prop :=
  ∃ m earlier, beginning <:+ earlier ∧ m :: earlier <:+ past ∧
    m.before.registry.Awaits id ∧ m.after.registry.resource? id = none

/-- A resource was reported on in one way or another if there is an answer for it that says so. -/
theorem mem_reports {id : ResourceId} {acks : List Ack} {failure? : Option String} :
    failure? ∈ reports id acks ↔ ∃ ack ∈ acks, ack.id = id ∧ ack.failure? = failure? := by
  simp [reports, and_assoc]

/-- The reports of failures are the reasons of the answers. -/
theorem findSome?_reports (id : ResourceId) (acks : List Ack) :
    (reports id acks).findSome? (fun failure? => failure?) =
      acks.findSome? fun ack => if ack.id = id then ack.failure? else none := by
  unfold reports
  induction acks with
  | nil => rfl
  | cons ack rest ih =>
    by_cases hid : ack.id = id
    · rw [List.filter_cons_of_pos (by simpa using hid), List.map_cons, List.findSome?_cons,
        List.findSome?_cons, if_pos hid, ih]
    · rw [List.filter_cons_of_neg (by simpa using hid), List.findSome?_cons, if_neg hid, ih]

/-- What is gathered, one at most from each, is counted by those that give something. -/
theorem length_flatMap_add {α β : Type} {f : α → List β} (xs : List α)
    (h : ∀ x ∈ xs, (f x).length ≤ 1) :
    (xs.flatMap f).length + (xs.filter fun x => (f x).isEmpty).length = xs.length := by
  induction xs with
  | nil => rfl
  | cons x rest ih =>
    have hrest := ih fun y hy => h y (List.mem_cons_of_mem _ hy)
    have hone := h x List.mem_cons_self
    rw [List.flatMap_cons, List.length_append, List.length_cons, List.filter_cons]
    cases hx : f x with
    | nil =>
      rw [List.isEmpty_nil, if_pos rfl, List.length_nil, List.length_cons]
      omega
    | cons y more =>
      rw [hx, List.length_cons] at hone
      rw [List.isEmpty_cons, if_neg (by simp), List.length_cons]
      omega

namespace Run

variable {config : Config} {supply : Supply} {past : List Moment} {b : Broadcast}
  {id : ResourceId} {res : Resource}

/-- A link says at most one thing of a resource. -/
theorem length_reports_le (h : Run (.opened config supply) past b)
    (hc : ∀ m ∈ past, m.action.IsCompiled) (hl : b.registry.supply.Lasts) (id : ResourceId)
    (k : Nat) : (reports id (answered k past)).length ≤ 1 := by
  have hnodup := (h.answers_once hc hl k).1
  rw [List.map_append] at hnodup
  have hcount := List.nodup_iff_count_le_one.mp (List.nodup_append.mp hnodup).1 id
  unfold reports
  rw [List.length_map, ← List.countP_eq_length_filter]
  rwa [List.count_eq_countP, List.countP_map] at hcount

/-- The load state of a live resource is the verdict of what was heard of it, and no more was heard
than there are links. -/
theorem load_eq_verdict (h : Run (.opened config supply) past b)
    (hc : ∀ m ∈ past, m.action.IsCompiled) (hl : b.registry.supply.Lasts)
    (hres : b.registry.resource? id = some res) :
    (reports id (heard past)).length +
        (res.bindings.filter fun binding => id ∉ (answered binding.link past).map Ack.id).length =
      res.bindings.length ∧
      res.load = LoadState.verdict res.bindings.length (reports id (heard past)) := by
  have hlength := length_flatMap_add res.bindings
    fun binding _ => h.length_reports_le hc hl id binding.link
  rw [← (h.reports_perm hc hl hres).length_eq] at hlength
  have hsilent : (res.bindings.filter fun binding =>
      (reports id (answered binding.link past)).isEmpty) =
        res.bindings.filter fun binding => id ∉ (answered binding.link past).map Ack.id := by
    apply List.filter_congr
    intro binding _
    rw [Bool.eq_iff_iff, List.isEmpty_iff, decide_eq_true_eq, reports_eq_nil_iff]
    simp
  rw [hsilent] at hlength
  refine ⟨hlength, ?_⟩
  rw [(h.minds hc hl).load id res hres (by simp)]
  exact LoadState.foldl_after_awaiting (by omega)

/-- A live resource is loaded once all links have answered that loading went well. -/
theorem loaded_iff (h : Run (.opened config supply) past b)
    (hc : ∀ m ∈ past, m.action.IsCompiled) (hl : b.registry.supply.Lasts)
    (hres : b.registry.resource? id = some res) :
    res.load = .loaded ↔ LoadedEverywhere id past b := by
  have hperm := h.reports_perm hc hl hres
  have hlength := length_flatMap_add res.bindings
    fun binding _ => h.length_reports_le hc hl id binding.link
  rw [← hperm.length_eq] at hlength
  have hevery : LoadedEverywhere id past b ↔
      ∀ binding ∈ res.bindings, none ∈ reports id (answered binding.link past) := by
    unfold LoadedEverywhere
    simp only [hres, Option.some.injEq, exists_eq_left', mem_reports]
  rw [(h.load_eq_verdict hc hl hres).2, LoadState.verdict_eq_loaded, hevery]
  constructor
  · rintro ⟨hall, heq⟩ binding hbinding
    have hnone : (res.bindings.filter fun binding =>
        (reports id (answered binding.link past)).isEmpty) = [] :=
      List.eq_nil_of_length_eq_zero (by omega)
    have hsome := List.filter_eq_nil_iff.mp hnone binding hbinding
    obtain ⟨failure?, hmem⟩ := List.exists_mem_of_ne_nil _ (by simpa using hsome)
    have hheard := hperm.mem_iff.mpr (List.mem_flatMap.mpr ⟨binding, hbinding, hmem⟩)
    rwa [hall failure? hheard] at hmem
  · intro hsome
    have hnone : (res.bindings.filter fun binding =>
        (reports id (answered binding.link past)).isEmpty) = [] := by
      rw [List.filter_eq_nil_iff]
      intro binding hbinding hempty
      rw [List.isEmpty_iff] at hempty
      have hmem := hsome binding hbinding
      rw [hempty] at hmem
      cases hmem
    rw [hnone] at hlength
    refine ⟨fun failure? hheard => ?_, hlength⟩
    obtain ⟨binding, hbinding, hmem⟩ := List.mem_flatMap.mp (hperm.mem_iff.mp hheard)
    obtain ⟨said, hsaid⟩ := List.length_eq_one_iff.mp (Nat.le_antisymm
      (h.length_reports_le hc hl id binding.link)
      (List.length_pos_of_mem (hsome binding hbinding)))
    have hgood := hsome binding hbinding
    rw [hsaid, List.mem_singleton] at hmem hgood
    rw [hmem, hgood]

/-- Loading of a live resource has failed once some link has answered so. -/
theorem failed_iff (h : Run (.opened config supply) past b)
    (hc : ∀ m ∈ past, m.action.IsCompiled) (hl : b.registry.supply.Lasts)
    (hres : b.registry.resource? id = some res) :
    (∃ reason, res.load = .failed reason) ↔ ∃ binding ∈ res.bindings,
      ∃ ack ∈ answered binding.link past, ack.id = id ∧ ack.failure?.isSome := by
  have hperm := h.reports_perm hc hl hres
  simp only [(h.load_eq_verdict hc hl hres).2, LoadState.verdict_eq_failed]
  constructor
  · rintro ⟨reason, hfirst⟩
    obtain ⟨failure?, hheard, hsome⟩ := List.exists_of_findSome?_eq_some hfirst
    obtain ⟨binding, hbinding, hmem⟩ := List.mem_flatMap.mp (hperm.mem_iff.mp hheard)
    obtain ⟨ack, hack, hid, rfl⟩ := mem_reports.mp hmem
    exact ⟨binding, hbinding, ack, hack, hid, Option.isSome_iff_exists.mpr ⟨reason, hsome⟩⟩
  · rintro ⟨binding, hbinding, ack, hack, hid, hsome⟩
    rw [← Option.isSome_iff_exists, List.findSome?_isSome_iff]
    exact ⟨ack.failure?, hperm.mem_iff.mpr (List.mem_flatMap.mpr
      ⟨binding, hbinding, mem_reports.mpr ⟨ack, hack, hid, rfl⟩⟩), hsome⟩

/-- The reason of a failure is the first that was heard. -/
theorem failed_for_iff (h : Run (.opened config supply) past b)
    (hc : ∀ m ∈ past, m.action.IsCompiled) (hl : b.registry.supply.Lasts)
    (hres : b.registry.resource? id = some res) (reason : String) :
    res.load = .failed reason ↔ FailedFor id reason past b := by
  unfold FailedFor firstFailure?
  rw [(h.load_eq_verdict hc hl hres).2, LoadState.verdict_eq_failed, hres, ← findSome?_reports]
  simp [Function.id_def]

end Run

/-- A wait for a resource that was live when it was asked for, and how it stands. -/
structure Registry.Follows (r : Registry) (ticket : Ticket) (id : ResourceId)
    (outcome? : Option Outcome) : Prop where
  /-- The wait stands so. -/
  found : r.waits[ticket]? = some ⟨id, outcome?⟩
  /-- The number of the resource was given out. -/
  known : id.toNat ≤ r.supply.issued
  /-- It is open as long as the resource is live and pending. -/
  still : outcome? = none → r.Awaits id
  /-- It stands as the resource does, if that is live. -/
  live : ∀ res, r.resource? id = some res → outcome? = res.load.outcome? id

/-- A resource that is not awaited any more is settled or gone. -/
theorem Registry.awaits_iff {r : Registry} {id : ResourceId} :
    r.Awaits id ↔ r.fate id = none := by
  unfold Awaits fate outlook
  cases r.resource? id with
  | none => simp
  | some res => simp [LoadState.outcome?_eq_none]

/-- In one action a wait that has ended stays so, and an open one comes to stand as its resource
does. -/
theorem Registry.Heeds.follows {r r' : Registry} {ticket : Ticket} {id : ResourceId}
    {outcome? : Option Outcome} (h : r.Heeds r') (hf : r.Follows ticket id outcome?) :
    r'.Follows ticket id (outcome?.or (r'.fate id)) := by
  have hknown := hf.known.trans h.grown
  cases outcome? with
  | none =>
    refine ⟨h.told ticket id hf.found, hknown, awaits_iff.mpr, fun res hres => ?_⟩
    exact outlook_of_some hres _
  | some outcome =>
    refine ⟨h.ended ticket _ hf.found (by simp), hknown, fun hnone => by simp at hnone,
      fun res' hres' => ?_⟩
    obtain ⟨res, hres, hsettled⟩ := h.settled id res' hf.known hres'
    have hoffer := hf.live res hres
    rw [Option.some_or, hsettled, hoffer]
    intro hpending
    rw [LoadState.outcome?_eq_none.mpr hpending] at hoffer
    cases hoffer

/-- What a wait was told: how the resource stood in some state since, or that it was removed while it
was pending. -/
def Told (beginning past : List Moment) (id : ResourceId) (outcome : Outcome) : Prop :=
  Since beginning past (fun _ b => ∃ res, b.registry.resource? id = some res ∧
    res.load.outcome? id = some outcome) ∨
  outcome = .failed (.disposed id) ∧ RemovedSince beginning past id

/-- In the state that a beginning leads to, something has held since if it holds. -/
theorem since_self_iff {past : List Moment} {P : List Moment → Broadcast → Prop} {m : Moment} :
    Since (m :: past) (m :: past) P ↔ P (m :: past) m.after := by
  unfold Since
  constructor
  · rintro ⟨m', earlier, hfrom, hto, hP⟩
    have heq := hto.eq_of_length_le hfrom.length_le
    cases heq
    exact hP
  · exact fun hP => ⟨m, past, List.suffix_refl _, List.suffix_refl _, hP⟩

/-- In the state that a beginning leads to, nothing has been removed since. -/
theorem not_removedSince_self {past : List Moment} {id : ResourceId} :
    ¬RemovedSince past past id := by
  rintro ⟨m, earlier, hfrom, hto, -⟩
  have hlength := hto.length_le.trans hfrom.length_le
  rw [List.length_cons] at hlength
  omega

/-- After one more moment something has held since if it had before or holds now. -/
theorem since_cons_iff {beginning past : List Moment} {P : List Moment → Broadcast → Prop}
    {m : Moment} (h : beginning <:+ past) :
    Since beginning (m :: past) P ↔ P (m :: past) m.after ∨ Since beginning past P := by
  unfold Since
  constructor
  · rintro ⟨m', earlier, hfrom, hto, hP⟩
    rcases List.suffix_cons_iff.mp hto with heq | hto
    · cases heq
      exact .inl hP
    · exact .inr ⟨m', earlier, hfrom, hto, hP⟩
  · rintro (hP | ⟨m', earlier, hfrom, hto, hP⟩)
    · exact ⟨m, past, h.trans (List.suffix_cons m past), List.suffix_refl _, hP⟩
    · exact ⟨m', earlier, hfrom, hto.trans (List.suffix_cons m past), hP⟩

/-- After one more moment a resource has been removed since if it had before or is removed now. -/
theorem removedSince_cons_iff {beginning past : List Moment} {id : ResourceId} {m : Moment}
    (h : beginning <:+ past) : RemovedSince beginning (m :: past) id ↔
      (m.before.registry.Awaits id ∧ m.after.registry.resource? id = none) ∨
        RemovedSince beginning past id := by
  unfold RemovedSince
  constructor
  · rintro ⟨m', earlier, hfrom, hto, hremoved⟩
    rcases List.suffix_cons_iff.mp hto with heq | hto
    · cases heq
      exact .inl hremoved
    · exact .inr ⟨m', earlier, hfrom, hto, hremoved⟩
  · rintro (hremoved | ⟨m', earlier, hfrom, hto, hremoved⟩)
    · exact ⟨m, past, h, List.suffix_refl _, hremoved⟩
    · exact ⟨m', earlier, hfrom, hto.trans (List.suffix_cons m past), hremoved⟩

namespace Run

variable {config : Config} {supply : Supply} {past later earlier : List Moment} {b : Broadcast}
  {id : ResourceId} {call : Moment}

/-- A wait is told at once what there is to tell. -/
theorem await_answer (h : Run (.opened config supply) (call :: earlier) b)
    (hc : ∀ m ∈ call :: earlier, m.action.IsCompiled) (hl : b.registry.supply.Lasts)
    (hcall : call.action = .await id) :
    (b.registry.resource? id).isSome = (call.before.registry.resource? id).isSome ∧
      b.registry.waits[(call.before.registry.await id).1]? =
        some ⟨id, b.registry.answerTo id⟩ := by
  obtain ⟨hrest, hlasts⟩ := h.init_lasts hc hl
  obtain rfl := h.end_eq
  have hafter : call.after.registry = (call.before.registry.await id).2 := by
    unfold Moment.after
    rw [hcall]
    rfl
  rw [hafter]
  exact ((h.init.minds hrest hlasts).await id).2.2

/-- What was not there when a wait was asked for, the wait is told so and nothing else ever. -/
theorem not_found (h : Run (.opened config supply) (later ++ call :: earlier) b)
    (hc : ∀ m ∈ later ++ call :: earlier, m.action.IsCompiled) (hl : b.registry.supply.Lasts)
    (hcall : call.action = .await id) (hnone : call.before.registry.resource? id = none) :
    b.registry.waits[(call.before.registry.await id).1]? =
      some ⟨id, some (.failed (.notFound id))⟩ := by
  induction later generalizing b with
  | nil =>
    obtain ⟨hsome, hwait⟩ := await_answer h hc hl hcall
    rw [hnone, Option.isSome_none, Option.isSome_eq_false_iff, Option.isNone_iff_eq_none] at hsome
    rw [hwait, show b.registry.answerTo id = _ from Registry.outlook_of_none hsome _]
  | cons m later ih =>
    obtain ⟨hrest, hlasts⟩ := h.init_lasts hc hl
    have hheeds := h.heeds hc hl List.mem_cons_self
    obtain rfl := h.end_eq
    exact hheeds.ended _ _ (ih h.init hrest hlasts) (by simp)

/-- How a wait stands that was asked for while the resource was live. -/
theorem follows (h : Run (.opened config supply) (later ++ call :: earlier) b)
    (hc : ∀ m ∈ later ++ call :: earlier, m.action.IsCompiled) (hl : b.registry.supply.Lasts)
    (hcall : call.action = .await id) (hlive : (call.before.registry.resource? id).isSome) :
    ∃ outcome?, b.registry.Follows (call.before.registry.await id).1 id outcome? ∧
      ∀ outcome, outcome? = some outcome ↔
        Told (call :: earlier) (later ++ call :: earlier) id outcome := by
  induction later generalizing b with
  | nil =>
    obtain ⟨hsome, hwait⟩ := await_answer h hc hl hcall
    obtain ⟨res, hres⟩ := Option.isSome_iff_exists.mp (hsome.trans hlive)
    have hanswer : b.registry.answerTo id = res.load.outcome? id := Registry.outlook_of_some hres _
    rw [hanswer] at hwait
    obtain rfl := h.end_eq
    refine ⟨_, ⟨hwait, ?_, fun hnone => ⟨res, hres, LoadState.outcome?_eq_none.mp hnone⟩,
      fun res' hres' => ?_⟩, fun outcome => ?_⟩
    · exact (h.minds hc hl).known id res hres
    · rw [hres] at hres'
      cases hres'
      rfl
    · unfold Told
      rw [List.nil_append, since_self_iff, hres]
      simp [not_removedSince_self]
  | cons m later ih =>
    obtain ⟨hrest, hlasts⟩ := h.init_lasts hc hl
    obtain ⟨outcome?, hfollows, htold⟩ := ih h.init hrest hlasts
    have hheeds := h.heeds hc hl List.mem_cons_self
    obtain rfl := h.end_eq
    have hnow := hheeds.follows hfollows
    have hfrom : call :: earlier <:+ later ++ call :: earlier := List.suffix_append _ _
    refine ⟨_, hnow, fun outcome => ?_⟩
    have hbefore := htold outcome
    unfold Told at hbefore ⊢
    rw [List.cons_append, since_cons_iff hfrom, removedSince_cons_iff hfrom]
    cases outcome? with
    | none =>
      rw [Option.none_or]
      constructor
      · intro hfate
        cases hres : m.after.registry.resource? id with
        | none =>
          rw [show m.after.registry.fate id = _ from Registry.outlook_of_none hres _] at hfate
          cases hfate
          exact .inr ⟨rfl, .inl ⟨hfollows.still rfl, rfl⟩⟩
        | some res =>
          rw [show m.after.registry.fate id = _ from Registry.outlook_of_some hres _] at hfate
          exact .inl (.inl ⟨res, rfl, hfate⟩)
      · rintro ((⟨res, hres, hoffer⟩ | hsince) | ⟨rfl, ⟨-, hgone⟩ | hremoved⟩)
        · exact (Registry.outlook_of_some hres _).trans hoffer
        · cases hbefore.mpr (.inl hsince)
        · exact Registry.outlook_of_none hgone _
        · cases hbefore.mpr (.inr ⟨rfl, hremoved⟩)
    | some outcome₀ =>
      rw [Option.some_or]
      constructor
      · intro heq
        rcases hbefore.mp heq with hsince | ⟨hdisposed, hremoved⟩
        · exact .inl (.inr hsince)
        · exact .inr ⟨hdisposed, .inr hremoved⟩
      · rintro ((⟨res, hres, hoffer⟩ | hsince) | ⟨rfl, ⟨⟨res, hres, hpending⟩, -⟩ | hremoved⟩)
        · exact (hnow.live res hres).trans hoffer
        · exact hbefore.mpr (.inl hsince)
        · -- a wait that has ended is not for a pending resource
          have hoffer := hfollows.live res hres
          rw [LoadState.outcome?_eq_none.mpr hpending] at hoffer
          cases hoffer
        · exact hbefore.mpr (.inr ⟨rfl, hremoved⟩)

/-- Taken in in another order, the answers that are under way come to the same, but for the reason of
a failure. -/
theorem unordered (h : Run (.opened config supply) past b)
    (hc : ∀ m ∈ past, m.action.IsCompiled) (hl : b.registry.supply.Lasts) {acks : List Ack}
    (hacks : acks.Perm (b.registry.acks.flatMap Array.toList)) {id : ResourceId} {res : Resource}
    (hres : b.registry.processAcks.resource? id = some res) :
    ∃ res', (acks.foldl Registry.takeAck b.registry).resource? id = some res' ∧
      (res'.load = .loaded ↔ res.load = .loaded) ∧
      ((∃ reason, res'.load = .failed reason) ↔ ∃ reason, res.load = .failed reason) := by
  have hnext : Run (.opened config supply) (⟨b, .processAcks⟩ :: past)
      (b.step .processAcks).2 := h.snoc .processAcks
  have hcnext : ∀ m ∈ (⟨b, .processAcks⟩ :: past : List Moment), m.action.IsCompiled := by
    intro m hm
    rcases List.mem_cons.mp hm with rfl | hm
    · exact trivial
    · exact hc m hm
  have hlnext : (b.step .processAcks).2.registry.supply.Lasts :=
    (Registry.supply_processAcks b.registry).symm ▸ hl
  have hheard : heard (⟨b, .processAcks⟩ :: past) =
      heard past ++ b.registry.acks.flatMap Array.toList := rfl
  obtain ⟨hlength, hload⟩ := hnext.load_eq_verdict hcnext hlnext hres
  rw [hheard] at hlength hload
  obtain ⟨hminds, -, hbound⟩ := (h.minds hc hl).foldl_takeAck acks
  obtain ⟨-, -, hbound'⟩ := (h.minds hc hl).processAcks
  have heq := (hbound id).trans (hbound' id).symm
  rw [hres, Option.map_some] at heq
  obtain ⟨res', hres', hbindings⟩ := Option.map_eq_some_iff.mp heq
  have hperm : (reports id (heard past ++ acks)).Perm
      (reports id (heard past ++ b.registry.acks.flatMap Array.toList)) :=
    ((hacks.append_left _).filter _).map _
  have hload' := hminds.load id res' hres' (by simp)
  rw [hbindings, LoadState.foldl_after_awaiting (by rw [hperm.length_eq]; omega)] at hload'
  refine ⟨res', hres', ?_⟩
  rw [hload, hload']
  exact LoadState.verdict_perm hperm

/-- What has held since a beginning can be said in other words that mean the same in every run. -/
theorem since_congr (h : Run (.opened config supply) past b)
    (hc : ∀ m ∈ past, m.action.IsCompiled) (hl : b.registry.supply.Lasts) (beginning : List Moment)
    {P Q : List Moment → Broadcast → Prop}
    (hPQ : ∀ past₁ b₁, Run (.opened config supply) past₁ b₁ →
      (∀ m ∈ past₁, m.action.IsCompiled) → b₁.registry.supply.Lasts → (P past₁ b₁ ↔ Q past₁ b₁)) :
    Since beginning past P ↔ Since beginning past Q := by
  unfold Since
  refine exists₂_congr fun m earlier => and_congr_right fun _ => and_congr_right fun hto => ?_
  obtain ⟨later, rfl⟩ := hto
  obtain ⟨b₁, h₁, hissued⟩ := h.beginning hc
  obtain rfl := h₁.end_eq
  exact hPQ _ _ h₁ (fun m' hm' => hc m' (List.mem_append_right _ hm')) (hl.mono hissued)

end Run

/-- How a wait stands after a run that was asked for at its beginning, while the resource was live. -/
structure Fair (beginning past : List Moment) (b : Broadcast) (id : ResourceId)
    (outcome? : Option Outcome) : Prop where
  /-- It is open as long as the resource is live and pending. -/
  still : outcome? = none ↔ b.registry.Awaits id
  /-- It is well if every link had answered so while the resource was live. -/
  ready : outcome? = some (.ready id) ↔ Since beginning past (LoadedEverywhere id)
  /-- It fails for the reason of the first answer that failed while the resource was live. -/
  failed : ∀ reason, outcome? = some (.failed (.loadFailed id reason)) ↔
    Since beginning past (FailedFor id reason)
  /-- It is told that the resource is gone if that was removed while it was pending. -/
  disposed : outcome? = some (.failed (.disposed id)) ↔ RemovedSince beginning past id
  /-- Nothing else is told. -/
  only : ∀ outcome, outcome? = some outcome → outcome = .ready id ∨
    (∃ reason, outcome = .failed (.loadFailed id reason)) ∨ outcome = .failed (.disposed id)

/-- What is told of loading after a run is true. -/
structure Candid (past : List Moment) (b : Broadcast) : Prop where
  /-- A pending resource awaits the links that it was sent to and that have not answered, and there is
  one. -/
  outstanding : ∀ id res n, b.registry.resource? id = some res → res.load = .pending n →
    0 < n ∧ n = (res.bindings.filter fun binding =>
      id ∉ (answered binding.link past).map Ack.id).length
  /-- Only what is pending is waited for. -/
  waiters : ∀ id res, b.registry.resource? id = some res → res.waiters ≠ [] → res.load.IsPending
  /-- What a wait was told once is not taken back. -/
  final : ∀ m ∈ past, ∀ (ticket : Ticket) (wait : Wait),
    m.before.registry.waits[ticket]? = some wait → wait.outcome? ≠ none →
      b.registry.waits[ticket]? = some wait
  /-- A wait for what is not there is told so. -/
  missing : ∀ later call earlier id, past = later ++ call :: earlier → call.action = .await id →
    call.before.registry.resource? id = none →
      b.registry.waits[(call.before.registry.await id).1]? =
        some ⟨id, some (.failed (.notFound id))⟩
  /-- A wait for what is there is told the truth. -/
  told : ∀ later call earlier id, past = later ++ call :: earlier → call.action = .await id →
    (call.before.registry.resource? id).isSome → ∃ outcome?,
      b.registry.waits[(call.before.registry.await id).1]? = some ⟨id, outcome?⟩ ∧
        Fair (call :: earlier) past b id outcome?
  /-- Whether loading went well can be read off the answers of the links, in whatever order they came. -/
  loading : ∀ id res, b.registry.resource? id = some res →
    (res.load = .loaded ↔ LoadedEverywhere id past b) ∧
      ((∃ reason, res.load = .failed reason) ↔ ∃ binding ∈ res.bindings,
        ∃ ack ∈ answered binding.link past, ack.id = id ∧ ack.failure?.isSome)
  /-- Answers that are under way may be taken in in any order. -/
  unordered : ∀ acks : List Ack, acks.Perm (b.registry.acks.flatMap Array.toList) → ∀ id res,
    b.registry.processAcks.resource? id = some res →
      ∃ res', (acks.foldl Registry.takeAck b.registry).resource? id = some res' ∧
        (res'.load = .loaded ↔ res.load = .loaded) ∧
        ((∃ reason, res'.load = .failed reason) ↔ ∃ reason, res.load = .failed reason)
  /-- When the producer goes away, open waits end, and the others are as they were. -/
  closing : ∀ (ticket : Ticket) (wait : Wait), b.registry.waits[ticket]? = some wait →
    b.close.registry.waits[ticket]? =
      some { wait with outcome? := wait.outcome?.or (some (.failed (.disposed wait.id))) }

namespace Run

variable {config : Config} {supply : Supply} {past later earlier : List Moment} {b : Broadcast}
  {id : ResourceId} {call : Moment}

/-- What has ended at some moment of a run is so at its end. -/
theorem ended (h : Run (.opened config supply) past b) (hc : ∀ m ∈ past, m.action.IsCompiled)
    (hl : b.registry.supply.Lasts) {m : Moment} (hm : m ∈ past) {ticket : Ticket} {wait : Wait}
    (hwait : m.before.registry.waits[ticket]? = some wait) (hended : wait.outcome? ≠ none) :
    b.registry.waits[ticket]? = some wait := by
  induction past generalizing b with
  | nil => cases hm
  | cons last past ih =>
    obtain ⟨hrest, hlasts⟩ := h.init_lasts hc hl
    have hheeds := h.heeds hc hl List.mem_cons_self
    obtain rfl := h.end_eq
    refine hheeds.ended ticket wait ?_ hended
    rcases List.mem_cons.mp hm with rfl | hm
    · exact hwait
    · exact ih h.init hrest hlasts hm

/-- A wait for what is live is told the truth. -/
theorem fair (h : Run (.opened config supply) (later ++ call :: earlier) b)
    (hc : ∀ m ∈ later ++ call :: earlier, m.action.IsCompiled) (hl : b.registry.supply.Lasts)
    (hcall : call.action = .await id) (hlive : (call.before.registry.resource? id).isSome) :
    ∃ outcome?, b.registry.waits[(call.before.registry.await id).1]? = some ⟨id, outcome?⟩ ∧
      Fair (call :: earlier) (later ++ call :: earlier) b id outcome? := by
  obtain ⟨outcome?, hfollows, htold⟩ := h.follows hc hl hcall hlive
  have hoffer {outcome : Outcome} (P : List Moment → Broadcast → Prop)
      (hP : ∀ past₁ b₁, Run (.opened config supply) past₁ b₁ →
        (∀ m ∈ past₁, m.action.IsCompiled) → b₁.registry.supply.Lasts → ∀ res,
          b₁.registry.resource? id = some res →
            (res.load.outcome? id = some outcome ↔ P past₁ b₁))
      (hlive : ∀ past₁ b₁, P past₁ b₁ → ∃ res, b₁.registry.resource? id = some res) :
      Since (call :: earlier) (later ++ call :: earlier) (fun _ b => ∃ res,
        b.registry.resource? id = some res ∧ res.load.outcome? id = some outcome) ↔
          Since (call :: earlier) (later ++ call :: earlier) P := by
    refine h.since_congr hc hl _ fun past₁ b₁ h₁ hc₁ hl₁ => ⟨?_, fun hholds => ?_⟩
    · rintro ⟨res, hres, hstands⟩
      exact (hP past₁ b₁ h₁ hc₁ hl₁ res hres).mp hstands
    · obtain ⟨res, hres⟩ := hlive past₁ b₁ hholds
      exact ⟨res, hres, (hP past₁ b₁ h₁ hc₁ hl₁ res hres).mpr hholds⟩
  refine ⟨outcome?, hfollows.found, ⟨hfollows.still, ?_⟩, ?_, fun reason => ?_, ?_, ?_⟩
  · rintro ⟨res, hres, hpending⟩
    rw [hfollows.live res hres]
    exact LoadState.outcome?_eq_none.mpr hpending
  · rw [htold, Told, hoffer (LoadedEverywhere id) fun past₁ b₁ h₁ hc₁ hl₁ res hres => by
      rw [LoadState.outcome?_eq_ready, h₁.loaded_iff hc₁ hl₁ hres]]
    · simp
    · rintro past₁ b₁ ⟨res, hres, -⟩
      exact ⟨res, hres⟩
  · rw [htold, Told, hoffer (FailedFor id reason) fun past₁ b₁ h₁ hc₁ hl₁ res hres => by
      rw [LoadState.outcome?_eq_loadFailed, h₁.failed_for_iff hc₁ hl₁ hres]]
    · simp
    · exact fun past₁ b₁ hfailed => Option.isSome_iff_exists.mp hfailed.1
  · rw [htold, Told]
    refine ⟨?_, fun hremoved => .inr ⟨rfl, hremoved⟩⟩
    rintro (⟨m, earlier', -, -, res, hres, hdisposed⟩ | ⟨-, hremoved⟩)
    · -- how a resource stands is never that it is gone
      unfold LoadState.outcome? at hdisposed
      split at hdisposed <;> cases hdisposed
    · exact hremoved
  · intro outcome houtcome
    rcases (htold outcome).mp houtcome with ⟨m, earlier', -, -, res, hres, hstands⟩ | ⟨rfl, -⟩
    · unfold LoadState.outcome? at hstands
      split at hstands
      · cases hstands
      · cases hstands
        exact .inl rfl
      · cases hstands
        exact .inr (.inl ⟨_, rfl⟩)
    · exact .inr (.inr rfl)

/-- Whatever was done, what is told of loading is true, while fewer than `2 ^ 32 - 1` numbers have been
given out. -/
theorem candid (h : Run (.opened config supply) past b) (hc : ∀ m ∈ past, m.action.IsCompiled)
    (hl : b.registry.supply.Lasts) : Candid past b := by
  refine ⟨fun id res n hres hpending => ?_, fun id res hres => (h.minds hc hl).pending id res hres,
    fun m hm ticket wait hwait hended => h.ended hc hl hm hwait hended, ?_, ?_,
    fun id res hres => ⟨h.loaded_iff hc hl hres, h.failed_iff hc hl hres⟩,
    fun acks hacks id res hres => h.unordered hc hl hacks hres, fun ticket wait hwait => ?_⟩
  · obtain ⟨hlength, hload⟩ := h.load_eq_verdict hc hl hres
    rw [hload, LoadState.verdict_eq_pending (by omega)] at hpending
    obtain ⟨-, hlt, rfl⟩ := hpending
    omega
  · rintro later call earlier id rfl hcall hnone
    exact h.not_found hc hl hcall hnone
  · rintro later call earlier id rfl hcall hlive
    exact h.fair hc hl hcall hlive
  · unfold Broadcast.close Registry.closeWaits
    dsimp only
    rw [Array.getElem?_map, hwait, Option.map_some]
    split
    · rename_i heq
      rw [heq, Option.some_or, ← heq]
    · rename_i heq
      rw [heq, Option.none_or]

end Run

namespace Samples

/-- Waits for a lamp that is loaded by two consumers, one that is removed at once, one that there is
not, a sound that cannot be loaded, and a lamp that one of the consumers has not answered for. -/
def awaitedLamps : List Moment × Broadcast :=
  (Broadcast.opened ⟨.game, 8⟩ ⟨0, .initial⟩).play
    [.connect .render,
      .connect .main,
      .createInstance ⟨0, lamp⟩ [] {},
      .createInstance ⟨0, lamp⟩ [] {},
      .await 1,
      .await 2,
      .await 9,
      .dispose 2,
      .registerType "sound",
      .createOpaque .render "sound" .unit {},
      .registerLoader 0 "sound" .number,
      .await 3,
      .flush,
      .update 0 0,
      .flush,
      .createInstance ⟨0, lamp⟩ [] {},
      .update 1 0,
      .await 4,
      .flush,
      .update 1 0,
      .processAcks]

theorem isCompiled_awaitedLamps : ∀ m ∈ awaitedLamps.1, m.action.IsCompiled :=
  Broadcast.isCompiled_play _ (by simp [Action.IsCompiled, isCompiled_lamp])

/-- Every wait is told the truth. -/
theorem candid_awaitedLamps :
    awaitedLamps.2.registry.supply.Lasts ∧ Candid awaitedLamps.1 awaitedLamps.2 ∧
      awaitedLamps.2.registry.waits = #[⟨1, some (.ready 1)⟩,
        ⟨2, some (.failed (.disposed 2))⟩, ⟨9, some (.failed (.notFound 9))⟩,
        ⟨3, some (.failed (.loadFailed 3 "not a number"))⟩, ⟨4, none⟩] ∧
      (awaitedLamps.2.registry.resource? 4).map Resource.load = some (.pending 1) := by
  have hlasts : awaitedLamps.2.registry.supply.Lasts := by decide +kernel
  have hrun : Run (.opened ⟨.game, 8⟩ ⟨0, .initial⟩) awaitedLamps.1 awaitedLamps.2 := .play _ _
  exact ⟨hlasts, Run.candid hrun isCompiled_awaitedLamps hlasts, by decide +kernel,
    by decide +kernel⟩

/-- A text that is disposed of before its answer is taken in. Then all other numbers are drawn
elsewhere, another text gets the number, and the host waits for it. -/
def twinTexts : List Moment × Broadcast :=
  (Broadcast.opened ⟨.game, 4⟩ ⟨0, .initial⟩).play
    [.connect .render,
      .createString "a",
      .flush,
      .update 0 0,
      .dispose 1,
      .elsewhere (2 ^ 32 - 1) .initial,
      .createString "b",
      .processAcks,
      .await 1]

/-- Where the numbers have come around, the answer to the first text passes for one to the second. The
wait is told that the second is loaded, although its creation waits to be sent and the consumer has the
first. -/
theorem misled_twinTexts :
    Run (.opened ⟨.game, 4⟩ ⟨0, .initial⟩) twinTexts.1 twinTexts.2 ∧
      (∀ m ∈ twinTexts.1, m.action.IsCompiled) ∧
      (twinTexts.2.registry.resource? 1).map (fun res =>
        (res.storage, res.load, res.bindings.map Binding.link)) =
          some (.payload (.text "b"), .loaded, [0]) ∧
      twinTexts.2.registry.waits = #[⟨1, some (.ready 1)⟩] ∧
      1 ∈ Outgoing.created (twinTexts.2.registry.outboxAt 0) ∧
      (twinTexts.2.connection? 0).map (fun c => c.view.string? 1) = some (some "a") := by
  refine ⟨.play _ _, Broadcast.isCompiled_play _ (by simp [Action.IsCompiled]), ?_⟩
  decide +kernel

end Samples

end Framecast
