import Framecast.Proofs.Feed.Heralds

/-!
# What a consumer answers

A consumer answers when the creation of a resource takes effect, and it expects the
resource no more then. What it receives later is about other resources, since a
number is announced once. So it answers at most once for each resource, and only for
one that was announced to it. It stays silent where the resource was disposed of
already and where it does not know how to load it.
-/

namespace Framecast

open Outgoing (IsLog created)

namespace Connection

variable {c after : Connection} {received underway : List Outgoing} {taken : List Ack}
  {id : ResourceId}

/-- A consumer that has received one part of a log and is being sent another, and whose answers were
taken in so far. -/
structure Replies (c : Connection) (received underway : List Outgoing) (taken : List Ack) : Prop where
  /-- What is under way to it comes from the other part. -/
  carried : ∀ e ∈ c.wire.envelopes.toList, ∃ tick, .create e tick ∈ underway
  /-- What it expects was announced in what it received. -/
  expected : ∀ (id : ResourceId) (e : Envelope), c.replica.pending[id]? = some e →
    e.id = id ∧ id ∈ created received
  /-- It answers once. -/
  once : ((taken ++ c.wire.acks.toList).map Ack.id).Nodup
  /-- What it has answered for was announced in what it received, and it expects it no more. -/
  settled : ∀ ack ∈ taken ++ c.wire.acks.toList,
    ack.id ∈ created received ∧ c.replica.pending[ack.id]? = none

/-- More may be put under way, and answers may be taken in. -/
theorem Replies.send (h : c.Replies received underway taken) {more : List Outgoing}
    {taken' : List Ack} (hpending : after.replica.pending = c.replica.pending)
    (henvelopes : ∀ e ∈ after.wire.envelopes.toList,
      e ∈ c.wire.envelopes.toList ∨ ∃ tick, .create e tick ∈ more)
    (hacks : taken' ++ after.wire.acks.toList = taken ++ c.wire.acks.toList) :
    after.Replies received (underway ++ more) taken' := by
  refine ⟨fun e he => ?_, hpending ▸ h.expected, hacks.symm ▸ h.once,
    hacks.symm ▸ hpending ▸ h.settled⟩
  rcases henvelopes e he with he | ⟨tick, hmem⟩
  · obtain ⟨tick, hmem⟩ := h.carried e he
    exact ⟨tick, List.mem_append_left _ hmem⟩
  · exact ⟨tick, List.mem_append_right _ hmem⟩

theorem Replies.congr (h : c.Replies received underway taken) {taken' : List Ack}
    (hpending : after.replica.pending = c.replica.pending)
    (henvelopes : after.wire.envelopes.toList ⊆ c.wire.envelopes.toList)
    (hacks : taken' ++ after.wire.acks.toList = taken ++ c.wire.acks.toList) :
    after.Replies received underway taken' :=
  List.append_nil underway ▸ h.send hpending (fun _ he => .inl (henvelopes he)) hacks

/-- What is expected no more is no concern. -/
theorem Replies.erase_pending (h : c.Replies received underway taken) (id : ResourceId) :
    (c.mapReplica fun r => { r with pending := r.pending.erase id }).Replies received underway
      taken := by
  have herase (x : ResourceId) : (c.replica.pending.erase id)[x]? =
      if id = x then none else c.replica.pending[x]? := by
    rw [Std.TreeMap.getElem?_erase]
    simp only [Std.LawfulEqOrd.compare_eq_iff_eq]
  refine ⟨h.carried, fun x e he => ?_, h.once, fun ack hack => ⟨(h.settled ack hack).1, ?_⟩⟩
  · have he : (c.replica.pending.erase id)[x]? = some e := he
    rw [herase] at he
    split at he
    · cases he
    · exact h.expected x e he
  · refine (herase ack.id).trans ?_
    rw [(h.settled ack hack).2, ite_self]

/-- An answer for what was received and is neither expected nor answered for. -/
theorem Replies.settle (h : c.Replies received underway taken) {resource : LocalResource}
    (hreceived : resource.id ∈ created received)
    (hpending : c.replica.pending[resource.id]? = none)
    (hnew : resource.id ∉ (taken ++ c.wire.acks.toList).map Ack.id) (failure? : Option String) :
    (c.settle resource failure?).Replies received underway taken := by
  have hacks : taken ++ (c.settle resource failure?).wire.acks.toList =
      (taken ++ c.wire.acks.toList) ++ [⟨c.replica.thread, resource.id, failure?⟩] := by
    unfold Connection.settle
    rw [Array.toList_push, List.append_assoc]
  refine ⟨h.carried, h.expected, ?_, ?_⟩
  · rw [hacks, List.map_append, List.map_singleton, List.nodup_append]
    refine ⟨h.once, List.nodup_singleton _, fun x hx y hy => ?_⟩
    rw [List.mem_singleton.mp hy]
    rintro rfl
    exact hnew hx
  · rw [hacks]
    intro ack hack
    rcases List.mem_append.mp hack with hack | hack
    · exact h.settled ack hack
    · rw [List.mem_singleton.mp hack]
      exact ⟨hreceived, hpending⟩

/-- An answer that says what a loader gave. -/
theorem Replies.settleResult (h : c.Replies received underway taken) {resource : LocalResource}
    (hreceived : resource.id ∈ created received)
    (hpending : c.replica.pending[resource.id]? = none)
    (hnew : resource.id ∉ (taken ++ c.wire.acks.toList).map Ack.id)
    (result : Except String Product) :
    (c.settleResult resource result).Replies received underway taken := by
  cases result with
  | ok made =>
    let loaded : LocalResource := { resource with made? := some made }
    have hloaded : loaded.id = resource.id := rfl
    exact h.settle (hloaded ▸ hreceived) (hloaded ▸ hpending) (hloaded ▸ hnew) none
  | error reason =>
    have hnoted : (c.mapReplica (·.note (.warning
        (.loadFailed c.replica.thread resource.id reason)))).Replies received underway taken :=
      h.congr rfl (fun _ h => h) rfl
    let failed : LocalResource := { resource with error? := some reason }
    have hfailed : failed.id = resource.id := rfl
    exact hnoted.settle (hfailed ▸ hreceived) (hfailed ▸ hpending) (hfailed ▸ hnew) (some reason)

/-- A consumer that loads what it received, and neither expects any more nor has answered for. -/
theorem Replies.ends_loadResource (h : c.Replies received underway taken) {resource : LocalResource}
    (hreceived : resource.id ∈ created received)
    (hpending : c.replica.pending[resource.id]? = none)
    (hnew : resource.id ∉ (taken ++ c.wire.acks.toList).map Ack.id) :
    Ends (loadResource resource) c (fun _ after => after.Replies received underway taken)
      (fun _ after => after.Replies received underway taken) := by
  unfold loadResource
  rw [Ends.bind_iff, Ends.get_iff]
  split
  · exact h.congr rfl (fun _ h => h) rfl
  · split
    · dsimp only
      rw [Ends.set_iff]
      have hnoted (notice : Notice) :
          (c.mapReplica (·.note notice)).Replies received underway taken := h.congr rfl (fun _ h => h) rfl
      exact (hnoted _).settleResult hreceived hpending hnew _
    · split
      · exact h.settleResult hreceived hpending hnew _
      · exact h

/-- A consumer that applies a record answers at most once more. -/
theorem Replies.ends_applyRecord (h : c.Replies received underway taken) (record : Record) :
    Ends (applyRecord record) c (fun _ after => after.Replies received underway taken)
      (fun _ after => after.Replies received underway taken) := by
  unfold applyRecord
  split
  · unfold applyCreate
    rw [Ends.bind_iff, Ends.get_iff]
    split
    · exact h.congr rfl (fun _ h => h) rfl
    · rename_i e he
      obtain ⟨hid, hreceived⟩ := h.expected _ e he
      have hnew : record.id ∉ (taken ++ c.wire.acks.toList).map Ack.id := by
        intro hmem
        obtain ⟨ack, hack, heq⟩ := List.mem_map.mp hmem
        have hnone := (h.settled ack hack).2
        rw [heq, he] at hnone
        cases hnone
      have hgone : (c.replica.pending.erase record.id)[record.id]? = none := by
        rw [Std.TreeMap.getElem?_erase, if_pos Std.ReflCmp.compare_self]
      rw [Ends.bind_iff, Ends.set_iff]
      rw [← hid] at hreceived hnew hgone ⊢
      refine (h.erase_pending e.id).ends_loadResource ?_ ?_ ?_
      · exact hreceived
      · exact hgone
      · exact hnew
  · rw [Ends.modify_iff]
    refine (h.erase_pending record.id).congr ?_ (fun _ h => h) rfl
    unfold applyDispose mapReplica unload
    dsimp only
    split
    · rfl
    · split <;> rfl

/-- Envelopes of the other part of a log are of other resources. -/
theorem Replies.receive (h : c.Replies received underway taken) {rest : List Outgoing}
    (hlog : IsLog (received ++ underway ++ rest)) :
    c.receiveEnvelopes.Replies (received ++ underway) [] taken := by
  have hfold (envelopes : List Envelope) (hall : ∀ e ∈ envelopes, e.id ∈ created underway)
      (pending : Std.TreeMap ResourceId Envelope) (id : ResourceId) :
      (id ∉ created underway → (envelopes.foldl keepEnvelope pending)[id]? = pending[id]?) ∧
        ∀ e : Envelope, (envelopes.foldl keepEnvelope pending)[id]? = some e →
          pending[id]? = some e ∨ e.id = id ∧ id ∈ created underway := by
    induction envelopes generalizing pending with
    | nil => exact ⟨fun _ => rfl, fun _ he => .inl he⟩
    | cons first rest ih =>
      obtain ⟨hkept, hnew⟩ := ih (fun e he => hall e (List.mem_cons_of_mem _ he))
        (keepEnvelope pending first)
      have hfirst := hall first List.mem_cons_self
      rw [List.foldl_cons]
      refine ⟨fun hnot => ?_, fun e he => ?_⟩
      · rw [hkept hnot, Replica.getElem?_keepEnvelope, if_neg]
        rintro rfl
        exact hnot hfirst
      · rcases hnew e he with hold | hold
        · rw [Replica.getElem?_keepEnvelope] at hold
          split at hold
          · rename_i hid
            cases hold
            exact .inr ⟨hid.symm, hid ▸ hfirst⟩
          · exact .inl hold
        · exact .inr hold
  have hcreated : ∀ e ∈ c.wire.envelopes.toList, e.id ∈ created underway := by
    intro e he
    obtain ⟨tick, hmem⟩ := h.carried e he
    exact Outgoing.mem_created.mpr ⟨e, tick, hmem, rfl⟩
  have hapart (id : ResourceId) (hid : id ∈ created received) : id ∉ created underway := by
    have hnodup := hlog.nodup_created
    rw [List.append_assoc, Outgoing.created_append, Outgoing.created_append] at hnodup
    intro hmem
    exact (List.nodup_append.mp hnodup).2.2 id hid id (List.mem_append_left _ hmem) rfl
  refine ⟨fun e he => ?_, fun id e he => ?_, h.once, fun ack hack => ?_⟩
  · cases he
  · rw [Outgoing.created_append, List.mem_append]
    rcases (hfold _ hcreated _ id).2 e he with hold | ⟨hid, hnew⟩
    · exact ⟨(h.expected id e hold).1, .inl (h.expected id e hold).2⟩
    · exact ⟨hid, .inr hnew⟩
  · obtain ⟨hreceived, hnone⟩ := h.settled ack hack
    rw [Outgoing.created_append, List.mem_append]
    refine ⟨.inl hreceived, ?_⟩
    exact ((hfold _ hcreated _ ack.id).1 (hapart ack.id hreceived)).trans hnone

/-- An update receives what is under way and answers at most once for each resource. -/
theorem Replies.ends_update (h : c.Replies received underway taken) {rest : List Outgoing}
    (hlog : IsLog (received ++ underway ++ rest)) (tick : Tick) :
    Ends (update tick) c (fun _ after => after.Replies (received ++ underway) [] taken)
      (fun _ after => after.Replies (received ++ underway) [] taken) := by
  unfold update
  rw [Ends.bind_iff, Ends.modify_iff, Ends.bind_iff, Ends.get_iff]
  dsimp only
  rw [Ends.bind_iff, Ends.set_iff]
  apply Ends.forM
  · exact fun record _ after hafter => hafter.ends_applyRecord record
  · refine Replies.receive ?_ hlog
    exact h.congr rfl (fun _ h => h) rfl

end Connection

end Framecast
