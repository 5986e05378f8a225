import Framecast.Proofs.Ends
import Framecast.Replica.Update

/-!
# What loaders are called for

A consumer calls a loader in two places: it asks the loader of a type for something
when a creation takes effect, and it gives what was made back when the disposal does.
Each record that is applied has one such effect, and the callbacks that the host is
told of are those of the effects in turn. A consumer may get loaders at any time, and
whatever is on its wire; all that it goes through is a `ReplicaRun`.
-/

namespace Framecast

/-- Whether the notice is of a call to a loader. -/
def Notice.isCallback : Notice → Bool
  | .load .. => true
  | .unload .. => true
  | _ => false

/-- The calls to loaders that the host was told of, in turn. -/
def Replica.callbacks (r : Replica) : List Notice := r.journal.toList.filter Notice.isCallback

/-- What one record does on a consumer, as far as loaders are concerned. -/
inductive Effect where
  /-- A creation takes effect: its loader is asked, and this is the answer. -/
  | asked (arrival : Arrival) (answer : Except String Product)
  /-- A creation takes effect after the disposal was seen: nobody is asked. -/
  | skipped
  /-- A creation takes effect that has no loader and needs none. -/
  | mirrored
  /-- A creation has no loader and needs one. -/
  | refused
  /-- A disposal takes effect: the loader of the type is given this back. -/
  | returned (id : ResourceId) (made : Product) (announced : Bool)
  /-- A disposal takes effect, and nothing is given to anybody. -/
  | dropped
  /-- The record is about nothing that is there. -/
  | passed

namespace Effect

/-- What the host is told of an effect, if a loader was called. -/
def notice? : Effect → Option Notice
  | .asked a _ => some (.load a.id a.type a.name (a.bytes?.map List.length))
  | .returned id made announced => some (.unload id made announced)
  | _ => none

/-- Whether it is the effect of a creation that was expected. -/
def isEntry : Effect → Bool
  | .asked .. | .skipped | .mirrored | .refused => true
  | _ => false

end Effect

/-- A record that was applied, with its effect. -/
structure Applied where
  /-- The record. -/
  record : Record
  /-- What it did. -/
  effect : Effect

namespace Applied

/-- The resource whose creation took effect, if one did. -/
def entered? (x : Applied) : Option ResourceId :=
  if x.effect.isEntry then some x.record.id else none

/-- The resource that a loader was asked for, if one was. -/
def asked? (x : Applied) : Option ResourceId :=
  match x.effect with
  | .asked a _ => some a.id
  | _ => none

/-- The resource that a loader was given something back of, if one was. -/
def returned? (x : Applied) : Option ResourceId :=
  match x.effect with
  | .returned id _ _ => some id
  | _ => none

end Applied

namespace Connection

variable {c after : Connection} {record : Record}

/-- What becomes of a resource whose creation takes effect. -/
def entry (c : Connection) (resource : LocalResource) : Effect :=
  if c.wire.readsDisposed resource.status then .skipped
  else
    match c.replica.loaders[resource.type]? with
    | some loader => .asked (c.arrival resource) (loader.load (c.arrival resource))
    | none => if resource.isBuiltIn then .mirrored else .refused

/-- What becomes of a resource whose disposal takes effect. -/
def exit (c : Connection) (resource : LocalResource) : Effect :=
  match resource.made?, c.replica.loaders[resource.type]? with
  | some made, some loader => .returned resource.id made loader.announces
  | _, _ => .dropped

/-- The effect of the next record. -/
def effect (c : Connection) (record : Record) : Effect :=
  match record.command with
  | .create =>
    match c.replica.pending[record.id]? with
    | none => .passed
    | some e => c.entry (.ofEnvelope e)
  | .dispose =>
    match c.replica.resource? record.id with
    | none => .passed
    | some resource => c.exit resource

/-- The effect of a creation whose envelope has arrived. -/
theorem effect_of_expected {e : Envelope} (hcommand : record.command = .create)
    (he : c.replica.pending[record.id]? = some e) :
    c.effect record = c.entry (.ofEnvelope e) := by
  unfold effect
  rw [hcommand, he]

theorem effect_of_unexpected (hcommand : record.command = .create)
    (hnone : c.replica.pending[record.id]? = none) : c.effect record = .passed := by
  unfold effect
  rw [hcommand, hnone]

/-- What applying a record can do to what a consumer expects and has. -/
inductive Changes (c : Connection) (record : Record) : Effect → Connection → Prop
  /-- Nobody is called, and nothing comes in. -/
  | quiet {effect : Effect} {after : Connection} (heffect : effect = .dropped ∨ effect = .passed)
    (hpending : ∀ (id : ResourceId) (e : Envelope), after.replica.pending[id]? = some e →
      c.replica.pending[id]? = some e)
    (hresources : ∀ id found, after.replica.resource? id = some found →
      c.replica.resource? id = some found) : c.Changes record effect after
  /-- A creation that was expected takes effect. -/
  | entered {e : Envelope} {effect : Effect} {after : Connection}
    (hcommand : record.command = .create) (he : c.replica.pending[record.id]? = some e)
    (heffect : effect.isEntry = true)
    (hasked : ∀ a answer, effect = .asked a answer → a.id = e.id)
    (hpending : after.replica.pending = c.replica.pending.erase record.id)
    (hresources : ∀ id found, after.replica.resource? id = some found →
      c.replica.resource? id = some found ∨ id = e.id ∧ found.id = e.id ∧
        ∀ made, found.made? = some made →
          (∃ a, effect = .asked a (.ok made)) ∨ effect = .mirrored ∧ made = .unit) :
    c.Changes record effect after
  /-- What was made is given back. -/
  | returned {resource : LocalResource} {made : Product} {announced : Bool} {after : Connection}
    (hcommand : record.command = .dispose)
    (hresource : c.replica.resource? record.id = some resource)
    (hmade : resource.made? = some made)
    (hpending : after.replica.pending = c.replica.pending.erase record.id)
    (hresources : after.replica.resources = c.replica.resources.erase record.id) :
    c.Changes record (.returned resource.id made announced) after

/-- What applying a record does. -/
structure Applies (c : Connection) (record : Record) (after : Connection) : Prop where
  /-- No envelope is taken or sent. -/
  envelopes : after.wire.envelopes = c.wire.envelopes
  /-- The host is told of the call to a loader, if there was one. -/
  callbacks : after.replica.callbacks = c.replica.callbacks ++ (c.effect record).notice?.toList
  /-- What is expected and what is there change as the effect says. -/
  changes : c.Changes record (c.effect record) after

theorem callbacks_note (r : Replica) (notice : Notice) :
    (r.note notice).callbacks = r.callbacks ++ if notice.isCallback then [notice] else [] := by
  unfold Replica.callbacks Replica.note
  rw [Array.toList_push, List.filter_append, List.filter_cons, List.filter_nil]

/-- What is kept of a resource was there or is what was put there. -/
theorem resource?_insert {r r' : Replica} {resource found : LocalResource} {id : ResourceId}
    (hresources : r'.resources = r.resources.insert resource.id resource)
    (hfound : r'.resource? id = some found) :
    r.resource? id = some found ∨ id = resource.id ∧ found = resource := by
  unfold Replica.resource? at *
  rw [hresources, Std.TreeMap.getElem?_insert] at hfound
  simp only [Std.LawfulEqOrd.compare_eq_iff_eq] at hfound
  split at hfound
  · rename_i hid
    exact .inr ⟨hid.symm, (Option.some.inj hfound).symm⟩
  · exact .inl hfound

/-- What is kept of a resource after something was taken out was there before. -/
theorem resource?_erase {r r' : Replica} {id gone : ResourceId} {found : LocalResource}
    (hresources : r'.resources = r.resources.erase gone) (hfound : r'.resource? id = some found) :
    id ≠ gone ∧ r.resource? id = some found := by
  unfold Replica.resource? at *
  rw [hresources, Std.TreeMap.getElem?_erase] at hfound
  simp only [Std.LawfulEqOrd.compare_eq_iff_eq] at hfound
  split at hfound
  · cases hfound
  · rename_i hne
    exact ⟨Ne.symm hne, hfound⟩

/-- What is still expected after something was taken out was expected before. -/
theorem pending_erase {r r' : Replica} {id gone : ResourceId} {e : Envelope}
    (hpending : r'.pending = r.pending.erase gone) (he : r'.pending[id]? = some e) :
    id ≠ gone ∧ r.pending[id]? = some e := by
  rw [hpending, Std.TreeMap.getElem?_erase] at he
  simp only [Std.LawfulEqOrd.compare_eq_iff_eq] at he
  split at he
  · cases he
  · rename_i hne
    exact ⟨Ne.symm hne, he⟩

/-- A resource that is kept with the effect of its creation. -/
theorem Applies.keep {e : Envelope} {effect : Effect} {resource : LocalResource}
    (hcommand : record.command = .create) (he : c.replica.pending[record.id]? = some e)
    (heffect : c.effect record = effect) (hentry : effect.isEntry = true)
    (henvelopes : after.wire.envelopes = c.wire.envelopes)
    (hcallbacks : after.replica.callbacks = c.replica.callbacks ++ effect.notice?.toList)
    (hpending : after.replica.pending = c.replica.pending.erase record.id)
    (hresources : after.replica.resources = c.replica.resources.insert resource.id resource)
    (hid : resource.id = e.id) (hasked : ∀ a answer, effect = .asked a answer → a.id = e.id)
    (hmade : ∀ made, resource.made? = some made →
      (∃ a, effect = .asked a (.ok made)) ∨ effect = .mirrored ∧ made = .unit) :
    c.Applies record after := by
  subst heffect
  refine ⟨henvelopes, hcallbacks, .entered hcommand he hentry hasked hpending
    fun id found hfound => ?_⟩
  refine (resource?_insert hresources hfound).imp_right ?_
  rintro ⟨rfl, rfl⟩
  exact ⟨hid, hid, hmade⟩

/-- A creation whose loader is asked takes effect as the loader answers. -/
theorem settleResult_applies {e : Envelope} {resource : LocalResource} {loader : Loader}
    (hcommand : record.command = .create) (he : c.replica.pending[record.id]? = some e)
    (hid : resource.id = e.id) (hnothing : resource.made? = none)
    (heffect : c.effect record =
      .asked (c.arrival resource) (loader.load (c.arrival resource))) :
    c.Applies record
      (settleResult
        (c.mapReplica fun r => { r with pending := r.pending.erase record.id }.note
          (.load (c.arrival resource).id (c.arrival resource).type (c.arrival resource).name
            ((c.arrival resource).bytes?.map List.length)))
        resource (loader.load (c.arrival resource))) := by
  generalize loader.load (c.arrival resource) = result at heffect ⊢
  have hasked : ∀ a answer, Effect.asked (c.arrival resource) result = .asked a answer →
      a.id = e.id := by
    intro a answer h
    cases h
    exact hid
  cases result with
  | ok made =>
    refine .keep hcommand he heffect rfl rfl (callbacks_note _ _) rfl rfl hid hasked
      fun made' hmade => .inl ⟨c.arrival resource, ?_⟩
    cases hmade
    rfl
  | error reason =>
    refine .keep hcommand he heffect rfl rfl ?_ rfl rfl hid hasked fun made hmade => ?_
    · -- the warning is no callback
      exact (callbacks_note _ _).trans ((List.append_nil _).trans (callbacks_note _ _))
    · cases hnothing.symm.trans hmade

/-- What is known of a loading is known once it is known for each effect that it can have. -/
theorem ends_loadResource_of {resource : LocalResource} {P : Connection → Prop}
    (hskipped : c.entry resource = .skipped →
      P (c.mapReplica fun r => { r with resources := r.resources.insert resource.id resource }))
    (hasked : ∀ loader : Loader,
      c.entry resource = .asked (c.arrival resource) (loader.load (c.arrival resource)) →
        P (settleResult
          (c.mapReplica (·.note (.load (c.arrival resource).id (c.arrival resource).type
            (c.arrival resource).name ((c.arrival resource).bytes?.map List.length))))
          resource (loader.load (c.arrival resource))))
    (hmirrored : c.entry resource = .mirrored → P (c.settleResult resource (.ok .unit)))
    (hrefused : c.entry resource = .refused → P c) :
    Ends (loadResource resource) c (fun _ => P) (fun _ => P) := by
  unfold entry at hskipped hasked hmirrored hrefused
  unfold loadResource
  rw [Ends.bind_iff, Ends.get_iff]
  split
  · rename_i hmark
    exact hskipped (if_pos hmark)
  · rename_i hmark
    rw [if_neg hmark] at hmirrored hrefused
    split
    · rename_i loader hloader
      refine hasked loader ?_
      rw [if_neg hmark, hloader]
    · rename_i hloader
      rw [hloader] at hmirrored hrefused
      split
      · rename_i hbuiltIn
        exact hmirrored (if_pos hbuiltIn)
      · rename_i hbuiltIn
        exact hrefused (if_neg hbuiltIn)

/-- A creation that was expected takes effect as its status, its loader and its type decide. -/
theorem ends_loadResource_applies {e : Envelope} (hcommand : record.command = .create)
    (he : c.replica.pending[record.id]? = some e) :
    Ends (loadResource (.ofEnvelope e))
      (c.mapReplica fun r => { r with pending := r.pending.erase record.id })
      (fun _ after => c.Applies record after) (fun _ after => c.Applies record after) := by
  have heffect := effect_of_expected hcommand he
  apply ends_loadResource_of
  · intro hentry
    exact .keep hcommand he (heffect.trans hentry) rfl rfl (List.append_nil _).symm rfl rfl rfl
      (fun a answer h => by cases h) (fun made hmade => by cases hmade)
  · intro loader hentry
    exact settleResult_applies hcommand he rfl rfl (heffect.trans hentry)
  · intro hentry
    refine .keep hcommand he (heffect.trans hentry) rfl rfl (List.append_nil _).symm rfl rfl rfl
      (fun a answer h => by cases h) fun made hmade => .inr ⟨rfl, ?_⟩
    cases hmade
    rfl
  · intro hentry
    have hrefused : c.effect record = .refused := heffect.trans hentry
    refine ⟨rfl, ?_, ?_⟩
    · rw [hrefused]
      exact (List.append_nil _).symm
    · rw [hrefused]
      exact .entered hcommand he rfl (fun a answer h => by cases h) rfl
        fun id found hfound => .inl hfound

/-- A record for which nobody is called, and by which nothing comes in. -/
theorem Applies.pass {effect : Effect}
    (hquiet : effect = .dropped ∨ effect = .passed) (heffect : c.effect record = effect)
    (hwire : after.wire = c.wire)
    (hcallbacks : after.replica.callbacks = c.replica.callbacks)
    (hpending : ∀ (id : ResourceId) (e : Envelope), after.replica.pending[id]? = some e →
      c.replica.pending[id]? = some e)
    (hresources : ∀ id found, after.replica.resource? id = some found →
      c.replica.resource? id = some found) : c.Applies record after := by
  subst heffect
  refine ⟨congrArg Wire.envelopes hwire, ?_, .quiet hquiet hpending hresources⟩
  rw [hcallbacks]
  rcases hquiet with h | h
  · rw [h]
    exact (List.append_nil _).symm
  · rw [h]
    exact (List.append_nil _).symm

/-- A disposal takes effect as what was made and the loader that is there now decide. -/
theorem applyDispose_applies (c : Connection) (hcommand : record.command = .dispose) :
    c.Applies record (c.applyDispose record.id) := by
  unfold applyDispose mapReplica
  dsimp only
  split
  · rename_i hnone
    have hnone : c.replica.resource? record.id = none := hnone
    have heffect : c.effect record = .passed := by
      unfold effect
      rw [hcommand, hnone]
    exact .pass (.inr rfl) heffect rfl ((callbacks_note _ _).trans (List.append_nil _))
      (fun _ _ h => (pending_erase rfl h).2) (fun _ _ h => h)
  · rename_i resource hresource
    have hresource : c.replica.resource? record.id = some resource := hresource
    have heffect : c.effect record = c.exit resource := by
      unfold effect
      rw [hcommand, hresource]
    unfold exit at heffect
    unfold unload
    split
    · rename_i made loader hmade hloader
      have hloader : c.replica.loaders[resource.type]? = some loader := hloader
      rw [hmade, hloader] at heffect
      refine ⟨rfl, ?_, ?_⟩
      · rw [heffect]
        exact callbacks_note _ _
      · rw [heffect]
        exact .returned hcommand hresource hmade rfl rfl
    · rename_i hnone
      have hdropped : c.effect record = .dropped := by
        rw [heffect]
        split
        · rename_i made loader hmade hloader
          exact absurd hloader (hnone made loader hmade)
        · rfl
      exact .pass (.inl rfl) hdropped rfl rfl (fun _ _ h => (pending_erase rfl h).2)
        (fun _ _ h => (resource?_erase rfl h).2)

/-- Every record has its effect, also where it fails. -/
theorem ends_applyRecord_applies (c : Connection) (record : Record) :
    Ends (applyRecord record) c (fun _ after => c.Applies record after)
      (fun _ after => c.Applies record after) := by
  unfold applyRecord
  split
  · rename_i hcommand
    unfold applyCreate
    rw [Ends.bind_iff, Ends.get_iff]
    split
    · rename_i hnone
      exact .pass (.inr rfl) (effect_of_unexpected hcommand hnone) rfl
        ((callbacks_note _ _).trans (List.append_nil _)) (fun _ _ h => h) (fun _ _ h => h)
    · rename_i e he
      rw [Ends.bind_iff, Ends.set_iff]
      exact ends_loadResource_applies hcommand he
  · rename_i hcommand
    rw [Ends.modify_iff]
    exact applyDispose_applies c hcommand

/-- The records that are applied in turn with their effects, up to the first that fails. -/
def applications : List Record → Connection → List Applied
  | [], _ => []
  | record :: rest, c =>
    ⟨record, c.effect record⟩ ::
      match (applyRecord record).run c with
      | .ok _ after => applications rest after
      | .error _ _ => []

/-- A consumer that is about to apply the records of a tick. -/
def poised (c : Connection) (tick : Tick) : Connection :=
  (c.pickUp.takeDue tick).2.receiveEnvelopes

/-- The records that an update applies, with their effects. -/
def updates (c : Connection) (tick : Tick) : List Applied :=
  applications (c.pickUp.takeDue tick).1 (c.poised tick)

/-- Nobody is called before the first record. -/
theorem callbacks_poised (c : Connection) (tick : Tick) :
    (c.poised tick).replica.callbacks = c.replica.callbacks := by
  unfold poised receiveEnvelopes takeDue pickUp Replica.callbacks
  dsimp only
  rw [Array.toList_append, List.filter_append, List.toList_toArray]
  refine (congrArg _ (List.filter_eq_nil_iff.mpr fun notice hnotice => ?_)).trans
    (List.append_nil _)
  obtain ⟨w, -, rfl⟩ := List.mem_map.mp hnotice
  exact Bool.false_ne_true

section Induction

variable {P : List Applied → Connection → Prop}

/-- What each record keeps with its effect, all of them keep, up to the first that fails. -/
theorem ends_applyAll_effects
    (hstep : ∀ log c record, P log c → Ends (applyRecord record) c
      (fun _ after => P (log ++ [⟨record, c.effect record⟩]) after)
      (fun _ after => P (log ++ [⟨record, c.effect record⟩]) after))
    (records : List Record) {log : List Applied} (h : P log c) :
    Ends (applyAll records) c (fun _ after => P (log ++ applications records c) after)
      (fun _ after => P (log ++ applications records c) after) := by
  induction records generalizing log c with
  | nil => exact (List.append_nil log).symm ▸ h
  | cons record rest ih =>
    unfold applyAll applications
    rw [List.forM_eq_forM, List.forM_cons, Ends.bind_iff, ← List.forM_eq_forM]
    have hrecord := hstep log c record h
    unfold Ends at hrecord ⊢
    cases hrun : (applyRecord record).run c with
    | ok _ after =>
      rw [hrun] at hrecord
      have hafter := ih hrecord
      rwa [List.append_assoc] at hafter
    | error e after =>
      rw [hrun] at hrecord
      exact hrecord

/-- What each record keeps with its effect, an update keeps, whether it succeeds or not. -/
theorem ends_update_effects
    (hstep : ∀ log c record, P log c → Ends (applyRecord record) c
      (fun _ after => P (log ++ [⟨record, c.effect record⟩]) after)
      (fun _ after => P (log ++ [⟨record, c.effect record⟩]) after))
    (tick : Tick) (log : List Applied) (h : P log (c.poised tick)) :
    Ends (update tick) c (fun _ after => P (log ++ c.updates tick) after)
      (fun _ after => P (log ++ c.updates tick) after) := by
  unfold update
  rw [Ends.bind_iff, Ends.modify_iff, Ends.bind_iff, Ends.get_iff]
  dsimp only
  rw [Ends.bind_iff, Ends.set_iff]
  exact ends_applyAll_effects hstep _ h

/-- What follows for each record from what it does as to loaders, holds after an update. -/
theorem ends_update_applies
    (hstep : ∀ log c record after, P log c → c.Applies record after →
      P (log ++ [⟨record, c.effect record⟩]) after)
    (tick : Tick) (log : List Applied) (h : P log (c.poised tick)) :
    Ends (update tick) c (fun _ after => P (log ++ c.updates tick) after)
      (fun _ after => P (log ++ c.updates tick) after) :=
  ends_update_effects (fun log c record h => (ends_applyRecord_applies c record).imp
    (fun _ after => hstep log c record after h) fun _ after => hstep log c record after h)
    tick log h

end Induction

end Connection

/-- What a consumer can go through, with the envelopes that it has received, the resources whose
number was changed in place, and the records that it has applied. The far end may leave anything on
the wire. -/
inductive ReplicaRun : List Envelope → List ResourceId → List Applied → Connection → Prop
  /-- It begins. -/
  | created (thread : Thread) (wire : Wire) : ReplicaRun [] [] [] ⟨.create thread, wire⟩
  /-- A loader is registered, in place of an earlier one if there is one. -/
  | registered {received : List Envelope} {bumped : List ResourceId} {log : List Applied}
    {c : Connection} (h : ReplicaRun received bumped log c) (type : String) (loader : Loader) :
    ReplicaRun received bumped log (c.mapReplica (·.registerLoader type loader))
  /-- The far end changes what is on the wire. -/
  | fed {received : List Envelope} {bumped : List ResourceId} {log : List Applied}
    {c : Connection} (h : ReplicaRun received bumped log c) (wire : Wire) :
    ReplicaRun received bumped log ⟨c.replica, wire⟩
  /-- The number that a loader made is changed in place. -/
  | bumped {received : List Envelope} {bumped : List ResourceId} {log : List Applied}
    {c : Connection} (h : ReplicaRun received bumped log c) {id : ResourceId} {n : Nat}
    {replica : Replica} (hbump : c.replica.bump id = some (n, replica)) :
    ReplicaRun received (id :: bumped) log ⟨replica, c.wire⟩
  /-- It is updated. -/
  | updated {received : List Envelope} {bumped : List ResourceId} {log : List Applied}
    {c after : Connection} (h : ReplicaRun received bumped log c) (tick : Tick)
    (hrun : (Connection.update tick).run c = .ok () after) :
    ReplicaRun (received ++ c.wire.envelopes.toList) bumped (log ++ c.updates tick) after
  /-- It is updated, and the update fails on the way. -/
  | failed {received : List Envelope} {bumped : List ResourceId} {log : List Applied}
    {c after : Connection} (h : ReplicaRun received bumped log c) (tick : Tick) {e : ResourceError}
    (hrun : (Connection.update tick).run c = .error e after) :
    ReplicaRun (received ++ c.wire.envelopes.toList) bumped (log ++ c.updates tick) after

namespace ReplicaRun

variable {received : List Envelope} {bumped : List ResourceId} {log : List Applied} {c : Connection}

/-- The host is told of every call to a loader, in turn. -/
theorem callbacks_eq (h : ReplicaRun received bumped log c) :
    c.replica.callbacks = log.filterMap fun x => x.effect.notice? := by
  have hupdate {log : List Applied} {c : Connection} (tick : Tick)
      (h : c.replica.callbacks = log.filterMap fun x => x.effect.notice?) :=
    Connection.ends_update_applies
      (P := fun log c => c.replica.callbacks = log.filterMap fun x => x.effect.notice?)
      (fun log c record after h happlies => by
        rw [happlies.callbacks, h, List.filterMap_append]
        cases heffect : (c.effect record).notice? <;> simp [heffect]) tick log
      ((Connection.callbacks_poised c tick).trans h)
  induction h with
  | created => rfl
  | registered _ _ _ ih => exact ih
  | fed _ _ ih => exact ih
  | bumped _ hbump ih =>
    obtain ⟨_, -, hmade⟩ := Option.bind_eq_some_iff.mp hbump
    obtain ⟨_, -, hafter⟩ := Option.map_eq_some_iff.mp hmade
    cases hafter
    exact ih
  | updated _ tick hrun ih => exact (hupdate tick ih).of_ok hrun
  | failed _ tick hrun ih => exact (hupdate tick ih).of_error hrun

end ReplicaRun

end Framecast
