import Framecast.Proofs.Feed.Mirror
import Framecast.Proofs.Loaders.Callbacks

/-!
# Calls to loaders come in pairs

No two envelopes of a consumer have one number, so a resource takes effect once, and its
loader is asked once at most. What is given back at a disposal is what the consumer holds,
and that has one of two origins: a loader was asked for it and made it, or nobody was asked
and the consumer holds a placeholder for it. A placeholder is given to a loader that was
registered too late to be asked, and then the pair is broken; it is broken in no other way.
-/

namespace Framecast

namespace Applied

/-- What a consumer that holds something of a resource has it from, unless the number in it was
changed in place. -/
inductive Gave (y : Applied) (bumped : List ResourceId) (id : ResourceId) (made : Product) : Prop
  /-- A loader was asked for it and made it. -/
  | loaded {a : Arrival} {product : Product} (heffect : y.effect = .asked a (.ok product))
    (hid : a.id = id) (hmade : id ∉ bumped → made = product)
  /-- Nobody was asked, and it is the placeholder. -/
  | mirrored (heffect : y.effect = .mirrored) (hid : y.record.id = id) (hmade : made = .unit)

/-- A record whose effect is about the resource that the record is about. -/
structure IsLabelled (x : Applied) : Prop where
  /-- A loader is asked for the resource of a creation. -/
  asked : ∀ a answer, x.effect = .asked a answer → x.record.command = .create ∧ a.id = x.record.id
  /-- A loader is given back something of the resource of a disposal. -/
  returned : ∀ id made announced, x.effect = .returned id made announced →
    x.record.command = .dispose ∧ x.record.id = id

variable {x y : Applied} {bumped : List ResourceId} {id : ResourceId} {made : Product}

/-- A loader was given something back of a resource if that is the effect. -/
theorem returned?_eq_some :
    x.returned? = some id ↔ ∃ made announced, x.effect = .returned id made announced := by
  unfold returned?
  cases x.effect <;> simp

theorem asked?_eq_some :
    x.asked? = some id ↔ ∃ a answer, x.effect = .asked a answer ∧ a.id = id := by
  unfold asked?
  cases x.effect <;> simp

/-- What was asked for has taken effect. -/
theorem entered?_of_asked? (hx : x.IsLabelled) (h : x.asked? = some id) : x.entered? = some id := by
  obtain ⟨a, answer, heffect, rfl⟩ := asked?_eq_some.mp h
  unfold entered?
  rw [heffect, (hx.asked a answer heffect).2]
  rfl

/-- What a consumer has something from has taken effect. -/
theorem Gave.entered? (h : y.Gave bumped id made) (hy : y.IsLabelled) : y.entered? = some id := by
  unfold Applied.entered?
  cases h with
  | loaded heffect hid =>
    rw [heffect, ← hid, (hy.asked _ _ heffect).2]
    rfl
  | mirrored heffect hid =>
    rw [heffect, hid]
    rfl

/-- A record that gave something neither skipped its resource nor had a loader fail on it. -/
theorem Gave.not_barren (h : y.Gave bumped id made) :
    y.effect ≠ .skipped ∧ ∀ a reason, y.effect ≠ .asked a (.error reason) := by
  cases h with
  | loaded heffect =>
    rw [heffect]
    exact ⟨nofun, nofun⟩
  | mirrored heffect =>
    rw [heffect]
    exact ⟨nofun, nofun⟩

/-- What a consumer has something from is still that when one more number was changed in place. -/
theorem Gave.bump (h : y.Gave bumped id made) (changed : ResourceId) :
    y.Gave (changed :: bumped) id made := by
  cases h with
  | loaded heffect hid hmade =>
    exact .loaded heffect hid fun hnot => hmade fun hmem => hnot (List.mem_cons_of_mem _ hmem)
  | mirrored heffect hid hmade => exact .mirrored heffect hid hmade

end Applied

/-- The resources whose creation took effect. -/
def entered (log : List Applied) : List ResourceId := log.filterMap Applied.entered?

/-- The resources that a loader was asked for. -/
def asked (log : List Applied) : List ResourceId := log.filterMap Applied.asked?

/-- The resources that a loader was given something back of. -/
def givenBack (log : List Applied) : List ResourceId := log.filterMap Applied.returned?

/-- What took effect with one more record. -/
theorem entered_snoc (log : List Applied) (x : Applied) :
    entered (log ++ [x]) = entered log ++ x.entered?.toList := by
  unfold entered
  rw [List.filterMap_append, List.filterMap_cons, List.filterMap_nil]
  cases x.entered? <;> rfl

/-- What was given back with one more record. -/
theorem givenBack_snoc (log : List Applied) (x : Applied) :
    givenBack (log ++ [x]) = givenBack log ++ x.returned?.toList := by
  unfold givenBack
  rw [List.filterMap_append, List.filterMap_cons, List.filterMap_nil]
  cases x.returned? <;> rfl

/-- If the effects are about the resources of their records, what was asked for took effect, in the
same order. -/
theorem asked_sublist {log : List Applied} (h : ∀ x ∈ log, x.IsLabelled) :
    (asked log).Sublist (entered log) := by
  unfold asked entered
  induction log with
  | nil => exact List.Sublist.slnil
  | cons x rest ih =>
    obtain ⟨hx, hrest⟩ := List.forall_mem_cons.mp h
    cases hcase : x.asked? with
    | none =>
      rw [List.filterMap_cons_none hcase]
      exact (ih hrest).trans ((List.sublist_cons_self x rest).filterMap _)
    | some id =>
      rw [List.filterMap_cons_some hcase,
        List.filterMap_cons_some (Applied.entered?_of_asked? hx hcase)]
      exact (ih hrest).cons_cons id

/-- Two records that let the same creation take effect are one, if every creation takes effect once.
-/
theorem eq_of_entered {log : List Applied} (honce : (entered log).Nodup) {x y : Applied}
    (hx : x ∈ log) (hy : y ∈ log) {id : ResourceId} (hxid : x.entered? = some id)
    (hyid : y.entered? = some id) : x = y := by
  unfold entered at honce
  induction log with
  | nil => cases hx
  | cons z rest ih =>
    have hrest : (rest.filterMap Applied.entered?).Nodup :=
      honce.sublist ((List.sublist_cons_self z rest).filterMap _)
    have hfirst (hz : z.entered? = some id) : ∀ w ∈ rest, w.entered? ≠ some id := by
      intro w hw hwid
      rw [List.filterMap_cons_some hz, List.nodup_cons] at honce
      exact honce.1 (List.mem_filterMap.mpr ⟨w, hw, hwid⟩)
    rcases List.mem_cons.mp hx with rfl | hxrest
    · rcases List.mem_cons.mp hy with rfl | hyrest
      · rfl
      · exact absurd hyid (hfirst hxid y hyrest)
    · rcases List.mem_cons.mp hy with rfl | hyrest
      · exact absurd hxid (hfirst hyid x hxrest)
      · exact ih hrest hxrest hyrest

/-- The calls to the loaders of a consumer come in pairs, but for placeholders. -/
structure Paired (bumped : List ResourceId) (log : List Applied) : Prop where
  /-- A loader is asked for a resource once at most. -/
  asked : (asked log).Nodup
  /-- A loader is given back something of a resource once at most. -/
  returned : (givenBack log).Nodup
  /-- That is when the disposal takes effect. -/
  disposal : ∀ x ∈ log, ∀ id made announced, x.effect = .returned id made announced →
    x.record.command = .dispose ∧ x.record.id = id
  /-- What is given back was made earlier by a loader that was asked for the resource, or the
  resource was there without a loader and it is the placeholder. -/
  origin : ∀ x ∈ log, ∀ id made announced, x.effect = .returned id made announced →
    ∃ y, [y, x].Sublist log ∧ y.Gave bumped id made
  /-- Nothing is given back of a resource that was skipped or that a loader could not make anything
  of. -/
  barren : ∀ y ∈ log, (y.effect = .skipped ∨ ∃ a reason, y.effect = .asked a (.error reason)) →
    y.record.id ∉ givenBack log
  /-- No loader is asked for a resource that is there without one. -/
  mirrored : ∀ y ∈ log, y.effect = .mirrored → y.record.id ∉ Framecast.asked log

/-- What a consumer expects and has agrees with what it has received and applied. -/
structure Accounts (received : List Envelope) (bumped : List ResourceId) (log : List Applied)
    (c : Connection) : Prop where
  /-- What is expected was received and has not taken effect. -/
  expected : ∀ (id : ResourceId) (e : Envelope), c.replica.pending[id]? = some e →
    e.id = id ∧ e ∈ received ∧ id ∉ entered log
  /-- What is there has taken effect, nothing of it was given back, and what is held of it was given
  by a record. -/
  held : ∀ id found, c.replica.resource? id = some found →
    found.id = id ∧ id ∈ entered log ∧ id ∉ givenBack log ∧
      ∀ made, found.made? = some made → ∃ y ∈ log, y.Gave bumped id made
  /-- What took effect was received. -/
  entered : ∀ id ∈ entered log, ∃ e ∈ received, e.id = id
  /-- A creation takes effect once at most. -/
  once : (Framecast.entered log).Nodup
  /-- Something is given back once at most. -/
  returned : (givenBack log).Nodup
  /-- The effects are about the resources of their records. -/
  labelled : ∀ x ∈ log, x.IsLabelled
  /-- What was given back was given by an earlier record. -/
  origin : ∀ x ∈ log, ∀ id made announced, x.effect = .returned id made announced →
    ∃ y, [y, x].Sublist log ∧ y.Gave bumped id made

namespace Accounts

variable {received : List Envelope} {bumped : List ResourceId} {log : List Applied}
  {c after : Connection} {record : Record} {x : Applied} {id : ResourceId}

/-- What was given back had taken effect. -/
theorem returned_subset (h : Accounts received bumped log c) (hid : id ∈ givenBack log) :
    id ∈ Framecast.entered log := by
  obtain ⟨x, hx, hreturned⟩ := List.mem_filterMap.mp hid
  obtain ⟨made, announced, heffect⟩ := Applied.returned?_eq_some.mp hreturned
  obtain ⟨y, hsub, hgave⟩ := h.origin x hx _ _ _ heffect
  have hy : y ∈ log := hsub.subset List.mem_cons_self
  exact List.mem_filterMap.mpr ⟨y, hy, hgave.entered? (h.labelled y hy)⟩

/-- One more record keeps the accounts if what takes effect by it is new, what it gives back was
held, and what is held besides is what it gave. -/
theorem snoc (h : Accounts received bumped log c) (hx : x.IsLabelled)
    (hentered : ∀ id, x.entered? = some id → id ∉ Framecast.entered log ∧ ∃ e ∈ received, e.id = id)
    (hreturned : ∀ id made announced, x.effect = .returned id made announced →
      id ∉ givenBack log ∧ ∃ y ∈ log, y.Gave bumped id made)
    (hexpected : ∀ (id : ResourceId) (e : Envelope), after.replica.pending[id]? = some e →
      c.replica.pending[id]? = some e ∧ x.entered? ≠ some id)
    (hheld : ∀ id found, after.replica.resource? id = some found →
      c.replica.resource? id = some found ∧ x.returned? ≠ some id ∨
        x.entered? = some id ∧ x.returned? = none ∧ found.id = id ∧
          ∀ made, found.made? = some made → x.Gave bumped id made) :
    Accounts received bumped (log ++ [x]) after := by
  refine ⟨fun id e he => ?_, fun id found hfound => ?_, fun id hid => ?_, ?_, ?_, fun y hy => ?_,
    fun y hy id made announced heffect => ?_⟩
  · obtain ⟨hbefore, hnot⟩ := hexpected id e he
    obtain ⟨hid, hmem, hnew⟩ := h.expected id e hbefore
    refine ⟨hid, hmem, ?_⟩
    rw [entered_snoc, List.mem_append, Option.mem_toList]
    exact not_or.mpr ⟨hnew, hnot⟩
  · rw [entered_snoc, givenBack_snoc, List.mem_append, List.mem_append, Option.mem_toList,
      Option.mem_toList]
    rcases hheld id found hfound with ⟨hbefore, hnot⟩ | ⟨henters, hnone, hid, hgave⟩
    · obtain ⟨hid, hentered, hkept, hmade⟩ := h.held id found hbefore
      refine ⟨hid, .inl hentered, not_or.mpr ⟨hkept, hnot⟩, fun made hm => ?_⟩
      obtain ⟨y, hy, hgave⟩ := hmade made hm
      exact ⟨y, List.mem_append_left _ hy, hgave⟩
    · refine ⟨hid, .inr henters, not_or.mpr ⟨fun hback => ?_, ?_⟩, fun made hm =>
        ⟨x, List.mem_append_right _ (List.mem_singleton_self x), hgave made hm⟩⟩
      · exact (hentered id henters).1 (h.returned_subset hback)
      · rw [hnone]
        nofun
  · rw [entered_snoc, List.mem_append, Option.mem_toList] at hid
    exact hid.elim (h.entered id) fun henters => (hentered id henters).2
  · rw [entered_snoc]
    refine h.once.append (by cases x.entered? <;> simp) fun id hid henters => ?_
    exact (hentered id (Option.mem_toList.mp henters)).1 hid
  · rw [givenBack_snoc]
    refine h.returned.append (by cases x.returned? <;> simp) fun id hid hback => ?_
    obtain ⟨made, announced, heffect⟩ := Applied.returned?_eq_some.mp (Option.mem_toList.mp hback)
    exact (hreturned id made announced heffect).1 hid
  · rcases List.mem_append.mp hy with hy | hy
    · exact h.labelled y hy
    · exact List.mem_singleton.mp hy ▸ hx
  · rcases List.mem_append.mp hy with hy | hy
    · obtain ⟨z, hsub, hgave⟩ := h.origin y hy id made announced heffect
      exact ⟨z, hsub.trans (List.sublist_append_left _ _), hgave⟩
    · cases List.mem_singleton.mp hy
      obtain ⟨z, hz, hgave⟩ := (hreturned id made announced heffect).2
      exact ⟨z, (List.singleton_sublist.mpr hz).append (List.Sublist.refl [x]), hgave⟩

/-- One record keeps the accounts. -/
theorem applies (h : Accounts received bumped log c) (happlies : c.Applies record after) :
    Accounts received bumped (log ++ [⟨record, c.effect record⟩]) after := by
  have hchanges := happlies.changes
  generalize c.effect record = effect at hchanges
  cases hchanges with
  | quiet heffect hpending hresources =>
    rcases heffect with rfl | rfl <;>
      exact h.snoc ⟨nofun, nofun⟩ nofun nofun (fun id e he => ⟨hpending id e he, nofun⟩)
        (fun id found hfound => .inl ⟨hresources id found hfound, nofun⟩)
  | @entered e _ _ hcommand he hentry hasked hpending hresources =>
    obtain ⟨hid, hmem, hnew⟩ := h.expected _ e he
    have henters : (⟨record, effect⟩ : Applied).entered? = some record.id := by
      unfold Applied.entered?
      exact if_pos hentry
    have hnot : ∀ id made announced, effect ≠ .returned id made announced := by
      rintro id made announced rfl
      cases hentry
    have hnone : (⟨record, effect⟩ : Applied).returned? = none := by
      refine Option.eq_none_iff_forall_ne_some.mpr fun id hreturned => ?_
      obtain ⟨made, announced, heffect⟩ := Applied.returned?_eq_some.mp hreturned
      exact hnot id made announced heffect
    refine h.snoc ⟨fun a answer heffect => ⟨hcommand, (hasked a answer heffect).trans hid⟩,
      fun _ _ _ heffect => absurd heffect (hnot _ _ _)⟩ (fun id hcase => ?_)
      (fun _ _ _ heffect => absurd heffect (hnot _ _ _)) (fun id e' he' => ?_)
      (fun id found hfound => ?_)
    · cases henters.symm.trans hcase
      exact ⟨hnew, e, hmem, hid⟩
    · obtain ⟨hne, hbefore⟩ := Connection.pending_erase hpending he'
      rw [henters]
      exact ⟨hbefore, fun heq => hne (Option.some.inj heq).symm⟩
    · rw [henters, hnone]
      rcases hresources id found hfound with hbefore | ⟨rfl, hfoundId, hmade⟩
      · exact .inl ⟨hbefore, nofun⟩
      · refine .inr ⟨congrArg some hid.symm, rfl, hfoundId, fun made hm => ?_⟩
        rcases hmade made hm with ⟨a, rfl⟩ | ⟨rfl, rfl⟩
        · exact .loaded rfl (hasked a _ rfl) fun _ => rfl
        · exact .mirrored rfl hid.symm rfl
  | @returned resource made announced _ hcommand hresource hmade hpending hresources =>
    obtain ⟨hid, hentered, hkept, hgave⟩ := h.held _ resource hresource
    refine h.snoc ⟨nofun, fun _ _ _ heffect => ?_⟩ nofun (fun _ _ _ heffect => ?_)
      (fun id e he => ⟨(Connection.pending_erase hpending he).2, nofun⟩)
      (fun id found hfound => ?_)
    · cases heffect
      exact ⟨hcommand, hid.symm⟩
    · cases heffect
      rw [hid]
      exact ⟨hkept, hgave made hmade⟩
    · obtain ⟨hne, hbefore⟩ := Connection.resource?_erase hresources hfound
      refine .inl ⟨hbefore, fun heq => hne ?_⟩
      exact (Option.some.inj heq).symm.trans hid

/-- Receiving what is on the wire keeps the accounts, as its numbers are new. -/
theorem poised (h : Accounts received bumped log c) (tick : Tick)
    (hdistinct : ((received ++ c.wire.envelopes.toList).map Envelope.id).Nodup) :
    Accounts (received ++ c.wire.envelopes.toList) bumped log (c.poised tick) := by
  rw [List.map_append] at hdistinct
  have hnew : ∀ e ∈ c.wire.envelopes.toList, e.id ∉ Framecast.entered log := by
    intro e he hid
    obtain ⟨e', he', heq⟩ := h.entered _ hid
    exact List.disjoint_of_nodup_append hdistinct (heq ▸ List.mem_map_of_mem he')
      (List.mem_map_of_mem he)
  refine ⟨fun id e he => ?_, h.held, fun id hid => ?_, h.once, h.returned, h.labelled, h.origin⟩
  · rcases Replica.of_getElem?_keepEnvelopes he with hbefore | ⟨hmem, hid⟩
    · obtain ⟨hid, hmem, hnot⟩ := h.expected id e hbefore
      exact ⟨hid, List.mem_append_left _ hmem, hnot⟩
    · exact ⟨hid, List.mem_append_right _ hmem, hid ▸ hnew e hmem⟩
  · obtain ⟨e, he, heq⟩ := h.entered id hid
    exact ⟨e, List.mem_append_left _ he, heq⟩

/-- Changing a number in place keeps the accounts. -/
theorem bump (h : Accounts received bumped log c) {n : Nat} {replica : Replica}
    (hbump : c.replica.bump id = some (n, replica)) :
    Accounts received (id :: bumped) log ⟨replica, c.wire⟩ := by
  obtain ⟨resource, hresource, hnumber⟩ := Option.bind_eq_some_iff.mp hbump
  obtain ⟨m, hm, hafter⟩ := Option.map_eq_some_iff.mp hnumber
  obtain ⟨product, hproduct, hnumber⟩ := Option.bind_eq_some_iff.mp hm
  cases hafter
  refine ⟨h.expected, fun x found hfound => ?_, h.entered, h.once, h.returned, h.labelled,
    fun x hx x' made announced heffect => ?_⟩
  · unfold Replica.resource? at hfound
    rw [Std.TreeMap.getElem?_insert] at hfound
    simp only [Std.LawfulEqOrd.compare_eq_iff_eq] at hfound
    split at hfound
    · rename_i hid
      subst hid
      cases hfound
      obtain ⟨hid, hentered, hkept, hgave⟩ := h.held _ resource hresource
      refine ⟨hid, hentered, hkept, fun made hmade => ?_⟩
      obtain ⟨y, hy, hgave⟩ := hgave product hproduct
      refine ⟨y, hy, ?_⟩
      cases hgave with
      | loaded heffect hid => exact .loaded heffect hid fun hnot => absurd List.mem_cons_self hnot
      | mirrored heffect hid hmade =>
        subst hmade
        cases hnumber
    · obtain ⟨hid, hentered, hkept, hgave⟩ := h.held x found hfound
      refine ⟨hid, hentered, hkept, fun made hmade => ?_⟩
      obtain ⟨y, hy, hgave⟩ := hgave made hmade
      exact ⟨y, hy, hgave.bump id⟩
  · obtain ⟨y, hsub, hgave⟩ := h.origin x hx x' made announced heffect
    exact ⟨y, hsub, hgave.bump id⟩

/-- Calls that agree with the accounts come in pairs. -/
theorem paired (h : Accounts received bumped log c) : Paired bumped log := by
  refine ⟨h.once.sublist (asked_sublist h.labelled), h.returned,
    fun x hx => (h.labelled x hx).returned, h.origin, fun y hy hbarren hback => ?_,
    fun y hy heffect hid => ?_⟩
  · obtain ⟨x, hx, hreturned⟩ := List.mem_filterMap.mp hback
    obtain ⟨made, announced, heffect⟩ := Applied.returned?_eq_some.mp hreturned
    obtain ⟨z, hsub, hgave⟩ := h.origin x hx _ _ _ heffect
    have hz : z ∈ log := hsub.subset List.mem_cons_self
    have hyid : y.entered? = some y.record.id := by
      unfold Applied.entered?
      rcases hbarren with heffect | ⟨a, reason, heffect⟩ <;> rw [heffect] <;> rfl
    obtain rfl := eq_of_entered h.once hz hy (hgave.entered? (h.labelled z hz)) hyid
    obtain ⟨hskipped, hfailed⟩ := hgave.not_barren
    rcases hbarren with heffect | ⟨a, reason, heffect⟩
    · exact hskipped heffect
    · exact hfailed a reason heffect
  · obtain ⟨x, hx, hasked⟩ := List.mem_filterMap.mp hid
    have hyid : y.entered? = some y.record.id := by
      unfold Applied.entered?
      rw [heffect]
      rfl
    obtain rfl :=
      eq_of_entered h.once hx hy (Applied.entered?_of_asked? (h.labelled x hx) hasked) hyid
    obtain ⟨a, answer, hne, -⟩ := Applied.asked?_eq_some.mp hasked
    cases heffect.symm.trans hne

end Accounts

namespace ReplicaRun

variable {received : List Envelope} {bumped : List ResourceId} {log : List Applied} {c : Connection}

/-- Whatever a consumer goes through, the accounts are kept, if no two envelopes that it receives
have one number. -/
theorem accounts (h : ReplicaRun received bumped log c)
    (hdistinct : (received.map Envelope.id).Nodup) : Accounts received bumped log c := by
  have hupdate {received : List Envelope} {bumped : List ResourceId} {log : List Applied}
      {c : Connection} (tick : Tick) (h : Accounts received bumped log c)
      (hdistinct : ((received ++ c.wire.envelopes.toList).map Envelope.id).Nodup) :=
    Connection.ends_update_applies
      (P := Accounts (received ++ c.wire.envelopes.toList) bumped)
      (fun _ _ _ _ h happlies => h.applies happlies) tick log (h.poised tick hdistinct)
  have hbefore {received more : List Envelope} (h : ((received ++ more).map Envelope.id).Nodup) :
      (received.map Envelope.id).Nodup :=
    h.sublist ((List.sublist_append_left received more).map _)
  induction h with
  | created thread wire =>
    refine ⟨fun id e he => ?_, fun id found hfound => ?_, nofun, List.nodup_nil, List.nodup_nil,
      nofun, nofun⟩
    · have hnone : (Replica.create thread).pending[id]? = none := Std.TreeMap.getElem?_emptyc
      cases hnone.symm.trans he
    · have hnone : (Replica.create thread).resource? id = none := Std.TreeMap.getElem?_emptyc
      cases hnone.symm.trans hfound
  | registered _ _ _ ih =>
    have hkept := ih hdistinct
    exact ⟨hkept.expected, hkept.held, hkept.entered, hkept.once, hkept.returned, hkept.labelled,
      hkept.origin⟩
  | fed _ _ ih =>
    have hkept := ih hdistinct
    exact ⟨hkept.expected, hkept.held, hkept.entered, hkept.once, hkept.returned, hkept.labelled,
      hkept.origin⟩
  | bumped _ hbump ih => exact (ih hdistinct).bump hbump
  | updated _ tick hrun ih =>
    exact (hupdate tick (ih (hbefore hdistinct)) hdistinct).of_ok hrun
  | failed _ tick hrun ih =>
    exact (hupdate tick (ih (hbefore hdistinct)) hdistinct).of_error hrun

end ReplicaRun

end Framecast
