import Framecast.Proofs.Feed.Loading
import Framecast.Proofs.Loaders.Callbacks

/-!
# What a consumer shows of its resources

The view of a consumer answers for the resources whose creation has taken effect and whose
disposal has not. What became of each of them can be read off the records that the consumer
has applied. If its loader could make nothing of a resource, the view withholds its type,
and nothing else: the bytes or the payload are shown as those of any other resource.
-/

namespace Framecast

namespace Effect

/-- Why the loader of a resource could make nothing of it, if it was asked and could not. -/
def failure? : Effect → Option String
  | .asked _ (.error reason) => some reason
  | _ => none

/-- Whether it is the effect of a creation after which the resource is there. -/
def isKept : Effect → Bool
  | .asked .. | .skipped | .mirrored => true
  | _ => false

end Effect

/-- What became of the creation of a resource, when a record was applied after this had become of
it. -/
def Applied.outcome? (x : Applied) (id : ResourceId) (before : Option Effect) : Option Effect :=
  if x.record.id = id then
    match x.record.command with
    | .create => if x.effect.isKept then some x.effect else before
    | .dispose => none
  else before

/-- What became of the creation of a resource that a consumer has, after these records. -/
def outcome? (log : List Applied) (id : ResourceId) : Option Effect :=
  log.foldl (fun before x => x.outcome? id before) none

theorem outcome?_snoc (log : List Applied) (x : Applied) (id : ResourceId) :
    outcome? (log ++ [x]) id = x.outcome? id (outcome? log id) :=
  List.foldl_concat _ _ _ _

namespace View

variable {view : View} {id : ResourceId}

/-- Whether a view says nothing of what a resource consists of. -/
structure IsSilent (view : View) (id : ResourceId) : Prop where
  /-- It has no bytes. -/
  bytes : view.bytes? id = none
  /-- It has no payload. -/
  payload : view.payload? id = none
  /-- It is no text. -/
  text : view.string? id = none
  /-- It is no raw buffer. -/
  buffer : view.buffer? id = none

/-- A view without bytes and payload is silent. -/
theorem IsSilent.of_none (hbytes : view.bytes? id = none) (hpayload : view.payload? id = none) :
    view.IsSilent id := by
  refine ⟨hbytes, hpayload, ?_, ?_⟩
  · unfold string?
    rw [hpayload]
    rfl
  · unfold buffer?
    rw [hpayload]
    rfl

/-- Whether a view says what a resource consists of: its bytes, or else its payload. -/
inductive Shows (view : View) (id : ResourceId) : Prop
  /-- An instance has bytes and no payload. -/
  | bytes (h : (view.bytes? id).isSome = true) (hpayload : view.payload? id = none)
  /-- Anything else has a payload and no bytes. -/
  | payload (h : (view.payload? id).isSome = true) (hbytes : view.bytes? id = none)

/-- A view that shows what a resource consists of is not silent. -/
theorem Shows.not_isSilent (h : view.Shows id) : ¬view.IsSilent id := by
  intro hsilent
  cases h with
  | bytes h =>
    rw [hsilent.bytes] at h
    cases h
  | payload h =>
    rw [hsilent.payload] at h
    cases h

end View

namespace Connection

variable {c after : Connection} {log : List Applied} {record : Record} {effect : Effect}

/-- What a consumer expects and has agrees with the records that it has applied. -/
structure Tallies (log : List Applied) (c : Connection) : Prop where
  /-- What is expected is kept under its number. -/
  keyed : ∀ (id : ResourceId) (e : Envelope), c.replica.pending[id]? = some e → e.id = id
  /-- What is there took effect and was not disposed of since; it has failed if its loader did. -/
  errors : ∀ id, (c.replica.resource? id).map LocalResource.error? =
    (outcome? log id).map Effect.failure?

namespace Tallies

/-- A creation by which a resource comes to be there keeps the tally. -/
theorem keep (h : c.Tallies log) {resource : LocalResource} (hcommand : record.command = .create)
    (hkept : effect.isKept = true)
    (hpending : after.replica.pending = c.replica.pending.erase record.id)
    (hresources : after.replica.resources = c.replica.resources.insert resource.id resource)
    (hid : resource.id = record.id) (herror : resource.error? = effect.failure?) :
    after.Tallies (log ++ [⟨record, effect⟩]) := by
  refine ⟨fun id e he => h.keyed id e (pending_erase hpending he).2, fun id => ?_⟩
  rw [outcome?_snoc]
  unfold Applied.outcome? Replica.resource?
  rw [hresources, Std.TreeMap.getElem?_insert, hcommand, hid]
  simp only [Std.LawfulEqOrd.compare_eq_iff_eq, hkept, if_true]
  split
  · exact congrArg some herror
  · exact h.errors id

/-- A record by which no resource comes or goes keeps the tally. -/
theorem pass (h : c.Tallies log)
    (houtcome : ∀ id, (⟨record, effect⟩ : Applied).outcome? id (outcome? log id) = outcome? log id)
    (hpending : ∀ (id : ResourceId) (e : Envelope), after.replica.pending[id]? = some e →
      c.replica.pending[id]? = some e)
    (hresources : after.replica.resources = c.replica.resources) :
    after.Tallies (log ++ [⟨record, effect⟩]) := by
  refine ⟨fun id e he => h.keyed id e (hpending id e he), fun id => ?_⟩
  rw [outcome?_snoc, houtcome]
  unfold Replica.resource?
  rw [hresources]
  exact h.errors id

/-- A creation by which no resource comes to be there changes nothing that became of any. -/
theorem outcome?_unkept (hcommand : record.command = .create) (hkept : effect.isKept = false)
    (id : ResourceId) (before : Option Effect) :
    (⟨record, effect⟩ : Applied).outcome? id before = before := by
  unfold Applied.outcome?
  rw [hcommand]
  simp only [hkept, Bool.false_eq_true, if_false, ite_self]

/-- What the loader of a resource gave keeps the tally. -/
theorem settleResult (h : c.Tallies log) {resource : LocalResource} {loader : Loader}
    (hcommand : record.command = .create) (hid : resource.id = record.id)
    (herror : resource.error? = none) :
    Tallies (log ++ [⟨record,
        .asked (c.arrival resource) (loader.load (c.arrival resource))⟩])
      (Connection.settleResult
        (c.mapReplica fun r => { r with pending := r.pending.erase record.id }.note
          (.load (c.arrival resource).id (c.arrival resource).type (c.arrival resource).name
            ((c.arrival resource).bytes?.map List.length)))
        resource (loader.load (c.arrival resource))) := by
  cases loader.load (c.arrival resource) with
  | ok made => exact h.keep hcommand rfl rfl rfl hid herror
  | error reason => exact h.keep hcommand rfl rfl rfl hid rfl

/-- A creation that was expected keeps the tally. -/
theorem ends_loadResource (h : c.Tallies log) {e : Envelope} (hcommand : record.command = .create)
    (he : c.replica.pending[record.id]? = some e) :
    Ends (loadResource (.ofEnvelope e))
      (c.mapReplica fun r => { r with pending := r.pending.erase record.id })
      (fun _ after => after.Tallies (log ++ [⟨record, c.effect record⟩]))
      (fun _ after => after.Tallies (log ++ [⟨record, c.effect record⟩])) := by
  have hid : (LocalResource.ofEnvelope e).id = record.id := h.keyed _ e he
  have heffect := effect_of_expected hcommand he
  apply ends_loadResource_of
  · intro hentry
    rw [show c.effect record = .skipped from heffect.trans hentry]
    exact h.keep hcommand rfl rfl rfl hid rfl
  · intro loader hentry
    rw [show c.effect record = .asked (c.arrival (.ofEnvelope e))
      (loader.load (c.arrival (.ofEnvelope e))) from heffect.trans hentry]
    exact h.settleResult hcommand hid rfl
  · intro hentry
    rw [show c.effect record = .mirrored from heffect.trans hentry]
    exact h.keep hcommand rfl rfl rfl hid rfl
  · intro hentry
    rw [show c.effect record = .refused from heffect.trans hentry]
    exact h.pass (outcome?_unkept hcommand rfl · _) (fun _ _ h => (pending_erase rfl h).2) rfl

/-- A disposal keeps the tally. -/
theorem applyDispose (h : c.Tallies log) (hcommand : record.command = .dispose) :
    (c.applyDispose record.id).Tallies (log ++ [⟨record, effect⟩]) := by
  have hgone {r : Replica} (hpending : r.pending = c.replica.pending.erase record.id)
      (hresources : ∀ id, r.resource? id =
        if record.id = id then none else c.replica.resource? id) :
      Tallies (log ++ [⟨record, effect⟩]) { c with replica := r } := by
    refine ⟨fun id e he => h.keyed id e (pending_erase hpending he).2, fun id => ?_⟩
    rw [outcome?_snoc, hresources]
    unfold Applied.outcome?
    rw [hcommand]
    dsimp only
    split
    · rfl
    · exact h.errors id
  unfold Connection.applyDispose mapReplica
  dsimp only
  split
  · -- there was nothing to dispose of, so nothing stood in the records either
    rename_i hnone
    refine hgone rfl fun id => ?_
    split
    · rename_i hid
      exact hid ▸ hnone
    · rfl
  · have herase (r : Replica) (hresources : r.resources = c.replica.resources.erase record.id)
        (id : ResourceId) :
        r.resource? id = if record.id = id then none else c.replica.resource? id := by
      unfold Replica.resource?
      rw [hresources, Std.TreeMap.getElem?_erase]
      simp only [Std.LawfulEqOrd.compare_eq_iff_eq]
    unfold unload
    split
    · exact hgone rfl (herase _ rfl)
    · exact hgone rfl (herase _ rfl)

/-- Every record keeps the tally, also where it fails. -/
theorem ends_applyRecord (h : c.Tallies log) (record : Record) :
    Ends (applyRecord record) c
      (fun _ after => after.Tallies (log ++ [⟨record, c.effect record⟩]))
      (fun _ after => after.Tallies (log ++ [⟨record, c.effect record⟩])) := by
  unfold applyRecord
  split
  · rename_i hcommand
    unfold applyCreate
    rw [Ends.bind_iff, Ends.get_iff]
    split
    · rename_i hnone
      rw [effect_of_unexpected hcommand hnone]
      exact h.pass (outcome?_unkept hcommand rfl · _) (fun _ _ h => h) rfl
    · rename_i e he
      rw [Ends.bind_iff, Ends.set_iff]
      exact h.ends_loadResource hcommand he
  · rename_i hcommand
    rw [Ends.modify_iff]
    exact h.applyDispose hcommand

/-- Receiving what is on the wire keeps the tally. -/
theorem poised (h : c.Tallies log) (tick : Tick) : (c.poised tick).Tallies log := by
  refine ⟨fun id e he => ?_, h.errors⟩
  rcases Replica.of_getElem?_keepEnvelopes he with hbefore | ⟨-, hid⟩
  · exact h.keyed id e hbefore
  · exact hid

/-- An update keeps the tally, whether it succeeds or not. -/
theorem ends_update (h : c.Tallies log) (tick : Tick) :
    Ends (update tick) c (fun _ after => after.Tallies (log ++ c.updates tick))
      (fun _ after => after.Tallies (log ++ c.updates tick)) :=
  ends_update_effects (P := fun log c => c.Tallies log)
    (fun _ _ record h => h.ends_applyRecord record) tick log (h.poised tick)

/-- Changing a number in place keeps the tally. -/
theorem bump (h : c.Tallies log) {id : ResourceId} {n : Nat} {replica : Replica}
    (hbump : c.replica.bump id = some (n, replica)) : Tallies log ⟨replica, c.wire⟩ := by
  obtain ⟨resource, hresource, hnumber⟩ := Option.bind_eq_some_iff.mp hbump
  obtain ⟨m, -, hafter⟩ := Option.map_eq_some_iff.mp hnumber
  cases hafter
  refine ⟨h.keyed, fun x => ?_⟩
  rw [← h.errors x]
  unfold Replica.resource? at hresource ⊢
  rw [Std.TreeMap.getElem?_insert]
  simp only [Std.LawfulEqOrd.compare_eq_iff_eq]
  split
  · rename_i hid
    subst hid
    rw [hresource]
    rfl
  · rfl

end Tallies

/-- What a consumer that has applied these records shows of its resources. -/
structure Discloses (log : List Applied) (c : Connection) : Prop where
  /-- Of a resource whose creation has not taken effect, or whose disposal has, it shows nothing. -/
  absent : ∀ id, outcome? log id = none → c.view.type? id = none ∧ c.view.IsSilent id
  /-- Of a resource that is there, it shows the type and what it consists of. -/
  present : ∀ id effect, outcome? log id = some effect → effect.failure? = none →
    (c.view.type? id).isSome = true ∧ c.view.Shows id
  /-- Of a resource that its loader could make nothing of, it withholds the type, and yet it shows
  what the resource consists of. -/
  failed : ∀ id effect reason, outcome? log id = some effect → effect.failure? = some reason →
    c.view.type? id = none ∧ c.view.Shows id
  /-- So it is silent about what it withholds the type of exactly if no loader has failed on it. -/
  consistent : ∀ id, (c.view.type? id = none → c.view.IsSilent id) ↔
    ∀ effect, outcome? log id = some effect → effect.failure? = none

/-- What is there has bytes or a payload, whether its loader could make anything of it or not. -/
theorem shows_of_resource {id : ResourceId} {found : LocalResource}
    (hfound : c.replica.resource? id = some found) : c.view.Shows id := by
  have hbytes : c.view.bytes? id = c.bytesOf? found := by
    unfold view
    dsimp only
    rw [hfound, Option.bind_some]
  have hpayload : c.view.payload? id = found.payload? := by
    unfold view
    dsimp only
    rw [hfound, Option.bind_some]
  unfold bytesOf? at hbytes
  unfold LocalResource.payload? at hpayload
  cases hcargo : found.cargo with
  | payload p =>
    rw [hcargo] at hbytes hpayload
    exact .payload (Option.isSome_of_eq_some hpayload) hbytes
  | fields schema buffer =>
    rw [hcargo] at hbytes hpayload
    exact .bytes (Option.isSome_of_eq_some hbytes) hpayload

/-- The type of what is there is shown unless its loader has failed. -/
theorem type?_of_resource {id : ResourceId} {found : LocalResource}
    (hfound : c.replica.resource? id = some found) :
    c.view.type? id = if found.error?.isNone = true then some found.type else none := by
  unfold view
  dsimp only
  rw [hfound, Option.bind_some]

namespace Tallies

variable {id : ResourceId}

/-- Of what is not there, nothing is shown. -/
theorem absent (h : c.Tallies log) (houtcome : outcome? log id = none) :
    c.view.type? id = none ∧ c.view.IsSilent id := by
  have hnone := h.errors id
  rw [houtcome, Option.map_none, Option.map_eq_none_iff] at hnone
  unfold view
  refine ⟨?_, .of_none ?_ ?_⟩
  all_goals
    dsimp only
    rw [hnone]
    rfl

/-- What stands in the records is there, and has failed if its loader did. -/
theorem exists_resource (h : c.Tallies log) (houtcome : outcome? log id = some effect) :
    ∃ found, c.replica.resource? id = some found ∧ found.error? = effect.failure? := by
  have hsome := h.errors id
  rw [houtcome, Option.map_some] at hsome
  exact Option.map_eq_some_iff.mp hsome

/-- What is there and has not failed is shown with its type. -/
theorem present (h : c.Tallies log) (houtcome : outcome? log id = some effect)
    (hnone : effect.failure? = none) : (c.view.type? id).isSome = true ∧ c.view.Shows id := by
  obtain ⟨found, hfound, herror⟩ := h.exists_resource houtcome
  refine ⟨?_, shows_of_resource hfound⟩
  rw [type?_of_resource hfound, herror, hnone]
  rfl

/-- What is there and has failed is shown without its type. -/
theorem failed (h : c.Tallies log) (houtcome : outcome? log id = some effect) {reason : String}
    (hreason : effect.failure? = some reason) : c.view.type? id = none ∧ c.view.Shows id := by
  obtain ⟨found, hfound, herror⟩ := h.exists_resource houtcome
  refine ⟨?_, shows_of_resource hfound⟩
  rw [type?_of_resource hfound, herror, hreason]
  rfl

/-- A consumer whose resources agree with what it has applied shows them accordingly. -/
theorem discloses (h : c.Tallies log) : c.Discloses log := by
  refine ⟨fun _ => h.absent, fun _ _ => h.present, fun _ _ _ houtcome => h.failed houtcome,
    fun id => ⟨fun hsilent effect houtcome => ?_, fun hloaded hwithheld => ?_⟩⟩
  · refine Option.eq_none_iff_forall_ne_some.mpr fun reason hreason => ?_
    obtain ⟨hwithheld, hshows⟩ := h.failed houtcome hreason
    exact hshows.not_isSilent (hsilent hwithheld)
  · cases houtcome : outcome? log id with
    | none => exact (h.absent houtcome).2
    | some effect =>
      have hsome := (h.present houtcome (hloaded effect houtcome)).1
      rw [hwithheld] at hsome
      cases hsome

end Tallies

end Connection

/-- What a consumer goes through keeps the tally. -/
theorem ReplicaRun.tallies {received : List Envelope} {bumped : List ResourceId}
    {log : List Applied} {c : Connection} (h : ReplicaRun received bumped log c) :
    c.Tallies log := by
  induction h with
  | created thread wire =>
    refine ⟨fun id e he => ?_, fun id => ?_⟩
    · have hnone : (Replica.create thread).pending[id]? = none := Std.TreeMap.getElem?_emptyc
      cases hnone.symm.trans he
    · have hnone : (Replica.create thread).resource? id = none := Std.TreeMap.getElem?_emptyc
      exact congrArg (Option.map LocalResource.error?) hnone
  | registered _ _ _ ih => exact ⟨ih.keyed, ih.errors⟩
  | fed _ _ ih => exact ⟨ih.keyed, ih.errors⟩
  | bumped _ hbump ih => exact ih.bump hbump
  | updated _ tick hrun ih => exact (ih.ends_update tick).of_ok hrun
  | failed _ tick hrun ih => exact (ih.ends_update tick).of_error hrun

/-- The records that consumer `k` applies in an action, with their effects. -/
def Moment.appliesOn (m : Moment) (k : Nat) : List Applied :=
  match m.action with
  | .update j tick => if j = k then ((m.before.connection? j).map (·.updates tick)).getD [] else []
  | _ => []

/-- The records that consumer `k` has applied, oldest first, with their effects. -/
def appliedOn (k : Nat) : List Moment → List Applied
  | [] => []
  | m :: past => appliedOn k past ++ m.appliesOn k

namespace Broadcast

variable {b : Broadcast} {action : Action} {j k : Nat} {log more : List Applied}

/-- The records that consumer `k` has applied are these. -/
structure Tracks (b : Broadcast) (k : Nat) (log : List Applied) : Prop where
  /-- Before there is such a consumer, none are. -/
  none : b.replicas.size ≤ k → log = []
  /-- The consumer has gone through a run of its own, in which it has applied them. -/
  some : ∀ replica, b.replicas[k]? = some replica →
    ∃ received wire, ReplicaRun received [] log ⟨replica, wire⟩

namespace Tracks

/-- What leaves the consumers alone, and has nothing applied, keeps the tracks. -/
theorem same (h : b.Tracks k log) {after : Broadcast} (hreplicas : after.replicas = b.replicas) :
    after.Tracks k (log ++ []) := by
  rw [List.append_nil]
  exact ⟨hreplicas ▸ h.none, hreplicas ▸ h.some⟩

/-- An operation of one consumer adds what it applies to its tracks and to no others. -/
theorem setConnection (h : b.Tracks k log) {c after : Connection}
    (hconn : b.connection? j = Option.some c) (hother : j ≠ k → more = [])
    (hrun : j = k → ∀ received, ReplicaRun received [] log c →
      ∃ received', ReplicaRun received' [] (log ++ more) after) :
    (b.setConnection j after).Tracks k (log ++ more) := by
  obtain ⟨before, link, hbefore, -, rfl⟩ := connection?_eq_some.mp hconn
  have hj := (Array.getElem?_eq_some_iff.mp hbefore).1
  unfold Broadcast.setConnection
  by_cases hjk : j = k
  · subst hjk
    obtain ⟨received, wire, hreplica⟩ := h.some before hbefore
    obtain ⟨received', hafter⟩ := hrun rfl received (hreplica.fed link.wire)
    constructor
    · intro hsize
      rw [Array.size_setIfInBounds] at hsize
      exact absurd hj (Nat.not_lt_of_le hsize)
    · intro replica hfound
      rw [Array.getElem?_setIfInBounds_self_of_lt hj] at hfound
      cases hfound
      exact ⟨received', after.wire, hafter⟩
  · rw [hother hjk, List.append_nil]
    constructor
    · intro hsize
      rw [Array.size_setIfInBounds] at hsize
      exact h.none hsize
    · intro replica hfound
      rw [Array.getElem?_setIfInBounds_ne hjk] at hfound
      exact h.some replica hfound

/-- An update adds what it applies. -/
theorem update (h : b.Tracks k log) (j : Nat) (tick : Tick) :
    (b.step (.update j tick)).2.Tracks k (log ++ Moment.appliesOn ⟨b, .update j tick⟩ k) := by
  unfold Moment.appliesOn
  dsimp only
  rcases b.onConnection_cases j (Connection.update tick) with
    ⟨hconn, heq⟩ | ⟨c, hconn, ⟨_, after, hrun, heq⟩ | ⟨_, after, hrun, heq⟩⟩
  · rw [hconn, Option.map_none, Option.getD_none, ite_self]
    exact h.same (congrArg (·.2.replicas) heq)
  all_goals
    rw [hconn, show (b.step (.update j tick)).2 = _ from congrArg Prod.snd heq]
    refine h.setConnection hconn (fun hjk => if_neg hjk) fun hjk received hreplica => ?_
    rw [if_pos hjk]
  · exact ⟨_, hreplica.updated tick hrun⟩
  · exact ⟨_, hreplica.failed tick hrun⟩

/-- Every action adds what it applies. -/
theorem step (h : b.Tracks k log) (action : Action) :
    (b.step action).2.Tracks k (log ++ Moment.appliesOn ⟨b, action⟩ k) := by
  cases action with
  | update j tick => exact h.update j tick
  | connect thread =>
    rcases b.step_connect thread with ⟨wire, -, hstep⟩ | ⟨e, hstep⟩
    · rw [hstep]
      refine ⟨fun hsize => ?_, fun replica hreplica => ?_⟩
      · rw [Array.size_push] at hsize
        rw [h.none (Nat.le_of_succ_le hsize)]
        rfl
      · rw [Array.getElem?_push] at hreplica
        split at hreplica
        · -- the new consumer has applied nothing yet
          rename_i hk
          cases hreplica
          rw [h.none (Nat.le_of_eq hk.symm)]
          exact ⟨[], wire, .created thread wire⟩
        · exact (h.same rfl).some replica hreplica
    · exact h.same (by rw [hstep])
  | registerLoader j type loader =>
    rcases b.onConnection_cases j (modify fun c => c.mapReplica (·.registerLoader type loader)) with
      ⟨-, heq⟩ | ⟨c, hconn, ⟨_, after, hrun, heq⟩ | ⟨_, _, hrun, -⟩⟩
    · exact h.same (congrArg (·.2.replicas) heq)
    · cases hrun
      rw [show (b.step (.registerLoader j type loader)).2 = _ from congrArg Prod.snd heq]
      refine h.setConnection hconn (fun _ => rfl) fun _ received hreplica => ⟨received, ?_⟩
      exact (List.append_nil log).symm ▸ hreplica.registered type loader
    · cases hrun
  | commit => exact h.same (replicas_onRegistry _ _ _)
  | flush => exact h.same (replicas_onRegistry _ _ _)
  | setTick | hangUp => exact h.same rfl
  | registerType | createOpaque | createInstance | createString | createBuffer | retain |
    dispose | setProp | setPropFromScript | await | processAcks | elsewhere =>
    exact h.same (replicas_step rfl)

end Tracks

end Broadcast

namespace Run

variable {config : Config} {supply : Supply} {past : List Moment} {b : Broadcast} {k : Nat}

/-- In every run, the records that a consumer has applied are those of its updates. -/
theorem tracks (h : Run (.opened config supply) past b) (k : Nat) :
    b.Tracks k (appliedOn k past) := by
  induction h with
  | nil => exact ⟨fun _ => rfl, fun _ hreplica => nomatch hreplica⟩
  | @snoc past b h action ih => exact ih.step action

/-- In every run, a consumer shows of its resources what is disclosed by the records that it has
applied. More generally that is so for everything that a consumer can go through, whatever is on its
wire and whenever it is given loaders. -/
theorem discloses_applied (h : Run (.opened config supply) past b) {c : Connection}
    (hconn : b.connection? k = some c) :
    c.Discloses (appliedOn k past) ∧
      ∀ received bumped log c, ReplicaRun received bumped log c → c.Discloses log := by
  obtain ⟨replica, link, hreplica, -, rfl⟩ := Broadcast.connection?_eq_some.mp hconn
  obtain ⟨received, wire, hrun⟩ := (h.tracks k).some replica hreplica
  exact ⟨(hrun.fed link.wire).tallies.discloses, fun _ _ _ _ hrun => hrun.tallies.discloses⟩

end Run

namespace Samples

/-- A text whose loader takes nothing but numbers, and a lamp that needs no loader. -/
def unreadText : List Moment × Broadcast :=
  (Broadcast.opened ⟨.game, 4⟩ ⟨0, .initial⟩).play
    [.connect .render, .registerLoader 0 "string" .number, .createString "hi",
      .createInstance ⟨0, lamp⟩ [] {}, .flush, .update 0 0]

/-- The loader of the text has failed, nobody was asked about the lamp, and nothing else is there. -/
theorem discloses_unreadText :
    ∃ c, unreadText.2.connection? 0 = some c ∧ c.Discloses (appliedOn 0 unreadText.1) ∧
      [1, 2, 3].map (fun id => (outcome? (appliedOn 0 unreadText.1) id).map Effect.failure?) =
        [some (some "not a number"), some none, none] ∧
      c.view.type? 2 = some "lamp" ∧ c.view.bytes? 2 = some [0, 0, 0, 0] := by
  have hview : (unreadText.2.connection? 0).map (fun c => (c.view.type? 2, c.view.bytes? 2)) =
      some (some "lamp", some [0, 0, 0, 0]) := by decide +kernel
  obtain ⟨c, hconn, hview⟩ := Option.map_eq_some_iff.mp hview
  obtain ⟨htype, hbytes⟩ := Prod.mk.inj hview
  have hrun : Run (.opened ⟨.game, 4⟩ ⟨0, .initial⟩) unreadText.1 unreadText.2 := .play _ _
  exact ⟨c, hconn, (Run.discloses_applied hrun hconn).1, by decide +kernel, htype, hbytes⟩

/-- The text is shown, although its type is withheld. -/
theorem unreadText_shown :
    Run (.opened ⟨.game, 4⟩ ⟨0, .initial⟩) unreadText.1 unreadText.2 ∧
    ∃ c, unreadText.2.connection? 0 = some c ∧ c.view.type? 1 = none ∧
      c.view.payload? 1 = some (.text "hi") ∧ c.view.string? 1 = some "hi" := by
  have hview : (unreadText.2.connection? 0).map (fun c =>
      (c.view.type? 1, c.view.payload? 1, c.view.string? 1)) =
        some (none, some (.text "hi"), some "hi") := by decide +kernel
  obtain ⟨c, hconn, hview⟩ := Option.map_eq_some_iff.mp hview
  obtain ⟨htype, hview⟩ := Prod.mk.inj hview
  obtain ⟨hpayload, htext⟩ := Prod.mk.inj hview
  exact ⟨.play _ _, c, hconn, htype, hpayload, htext⟩

end Samples

end Framecast
