import Framecast.Proofs.Operation.Creation
import Framecast.Proofs.Storage.Values

/-!
# Writes as chains of elementary changes

Writing a value to an instance takes references on what the value names, stores
them, and gives back what the property held before. At the end no reference is
between two hands, whether the write went well or not. A write that fails has taken
no reference at all.
-/

namespace Framecast

namespace Registry

variable {r : Registry} {id : ResourceId} {prop : Property} {schema : Schema}

/-- How taking a reference ends. -/
theorem ends_retain (id : ResourceId) (r : Registry) :
    Ends (retain id) r
      (fun count after => ∃ res, r.resource? id = some res ∧ count = res.retained.refCount ∧
        after = r.modifyResource id Resource.retained)
      (fun e after => r.resource? id = none ∧ e = .notFound id ∧ after = r) := by
  unfold retain find
  simp only [Ends.bind_iff, Ends.get_iff]
  cases h : r.resource? id with
  | none => exact ⟨rfl, rfl, rfl⟩
  | some res => exact ⟨res, rfl, rfl, rfl⟩

/-- A registry that differs in the counts of its resources only, as far as look-ups and links go. -/
structure Recounted (r after : Registry) : Prop where
  /-- Each resource is still there, perhaps with another count. -/
  resources : ∀ {x res}, r.resource? x = some res →
    ∃ refCount, after.resource? x = some { res with refCount }
  /-- The links are the same. -/
  links : after.links = r.links

/-- Taking a reference changes a count only. -/
theorem recounted_retained (r : Registry) (id : ResourceId) :
    r.Recounted (r.modifyResource id Resource.retained) := by
  constructor
  · intro x res hx
    rw [resource?_modifyResource]
    split
    · rename_i hid
      rw [← hid, hx]
      exact ⟨_, rfl⟩
    · exact ⟨res.refCount, hx⟩
  · unfold modifyResource
    split <;> rfl

theorem Recounted.trans {r' r'' : Registry} (h : r.Recounted r') (h' : r'.Recounted r'') :
    r.Recounted r'' := by
  refine ⟨fun {x res} hx => ?_, h'.links.trans h.links⟩
  obtain ⟨_, hx⟩ := h.resources hx
  obtain ⟨_, hx⟩ := h'.resources hx
  exact ⟨_, hx⟩

/-- The registry with one more reference on each of some resources. -/
def retainAll (targets : List ResourceId) (r : Registry) : Registry :=
  targets.foldl (fun r x => r.modifyResource x Resource.retained) r

/-- Taking references changes counts only. -/
theorem recounted_retainAll (targets : List ResourceId) (r : Registry) :
    r.Recounted (retainAll targets r) := by
  induction targets generalizing r with
  | nil => exact ⟨fun {_ res} hx => ⟨res.refCount, hx⟩, rfl⟩
  | cons target rest ih => exact (recounted_retained r target).trans (ih _)

/-- Taking references on what is there is a chain of elementary changes. -/
theorem edits_retainAll {strict : Prop} {writer : ResourceId} {outside taken : Multiset ResourceId}
    {targets : List ResourceId} (h : ∀ x ∈ targets, ∃ res, r.resource? x = some res) :
    Edits strict writer ⟨r, outside, taken⟩
      ⟨retainAll targets r, targets + outside, targets + taken⟩ := by
  induction targets generalizing r outside taken with
  | nil =>
    rw [Multiset.coe_nil, Multiset.zero_add, Multiset.zero_add]
    exact .refl
  | cons target rest ih =>
    obtain ⟨res, hres⟩ := h target List.mem_cons_self
    refine .head (.retain hres) ?_
    have hlive : ∀ x ∈ rest, ∃ res,
        (r.modifyResource target Resource.retained).resource? x = some res := by
      intro x hx
      obtain ⟨res, hres⟩ := h x (List.mem_cons_of_mem _ hx)
      obtain ⟨_, hres⟩ := (recounted_retained r target).resources hres
      exact ⟨_, hres⟩
    have hrest := @ih (r.modifyResource target Resource.retained) (target ::ₘ outside)
      (target ::ₘ taken) hlive
    rwa [Multiset.add_cons, Multiset.add_cons, ← Multiset.cons_add, ← Multiset.cons_add,
      Multiset.cons_coe] at hrest

/-- How taking references one after another ends. It can only fail at one that is not there. -/
theorem ends_forM_retain (targets : List ResourceId) (r : Registry) :
    Ends (targets.forM fun target => discard (retain target)) r
      (fun _ after => after = retainAll targets r ∧
        ∀ x ∈ targets, ∃ res, r.resource? x = some res)
      (fun _ after => (∃ x ∈ targets, r.resource? x = none) ∧
        (targets.length ≤ 1 → after = r)) := by
  induction targets generalizing r with
  | nil => exact ⟨rfl, fun _ hx => nomatch hx⟩
  | cons target rest ih =>
    rw [List.forM_eq_forM, List.forM_cons, Ends.bind_iff, Ends.discard_iff, ← List.forM_eq_forM]
    apply (ends_retain target r).imp
    · rintro _ after ⟨res, hres, -, rfl⟩
      have hback {x : ResourceId} (hx : r.resource? x = none) :
          (r.modifyResource target Resource.retained).resource? x = none := by
        rw [resource?_modifyResource]
        split
        · rename_i h
          rw [h] at hx
          rw [hx, Option.map_none]
        · exact hx
      apply (ih _).imp
      · rintro _ after ⟨rfl, hlive⟩
        refine ⟨rfl, fun x hx => Option.ne_none_iff_exists'.mp fun hnone => ?_⟩
        rcases List.mem_cons.mp hx with rfl | hx
        · rw [hres] at hnone
          cases hnone
        · obtain ⟨_, hx⟩ := hlive x hx
          rw [hback hnone] at hx
          cases hx
      · rintro _ after ⟨⟨x, hx, hnone⟩, -⟩
        refine ⟨⟨x, List.mem_cons_of_mem _ hx, ?_⟩, ?_⟩
        · cases hxr : r.resource? x with
          | none => rfl
          | some res =>
            obtain ⟨_, hsome⟩ := (recounted_retained r target).resources hxr
            rw [hsome] at hnone
            cases hnone
        · intro hlength
          rw [List.length_cons] at hlength
          have hnil : rest = [] := List.eq_nil_of_length_eq_zero (by omega)
          rw [hnil] at hx
          cases hx
    · rintro _ after ⟨hnone, -, rfl⟩
      exact ⟨⟨target, List.mem_cons_self, hnone⟩, fun _ => rfl⟩

/-- Changing the bytes of a property of a live instance. -/
theorem ends_updateSlice {res : Resource} {bytes : Bytes} (h : r.resource? id = some res)
    (hs : res.storage = .fields schema bytes) (prop : Property) (f : Bytes → Bytes) :
    Ends (updateSlice id prop f) r
      (fun _ after => after = r.storeBytes id prop (f (prop.slice bytes))) (fun _ _ => False) := by
  unfold updateSlice fieldsOf find
  simp only [Ends.bind_iff, Ends.get_iff, h, Ends.pure_iff, hs, Ends.modify_iff]

/-- How the check of references ends. -/
theorem ends_checkTargets (prop : Property) (value : Value) (r : Registry) :
    Ends (checkTargets prop value) r
      (fun _ after => after = r ∧ ∀ expected, prop.target? = some expected →
        ∀ x ∈ targetsOf value, ∃ target, r.resource? x = some target ∧ target.type = expected)
      (fun _ after => after = r) := by
  unfold checkTargets
  cases ht : prop.target? with
  | none =>
    refine ⟨rfl, ?_⟩
    intro expected h
    cases h
  | some expected =>
    dsimp only
    have hloop : ∀ ids : List ResourceId,
        Ends (ids.forM (checkTarget expected)) r
          (fun _ after => after = r ∧
            ∀ x ∈ ids, ∃ target, r.resource? x = some target ∧ target.type = expected)
          (fun _ after => after = r) := by
      intro ids
      induction ids with
      | nil => exact ⟨rfl, by simp⟩
      | cons x rest ih =>
        rw [List.forM_eq_forM, List.forM_cons, ← List.forM_eq_forM]
        unfold checkTarget find
        simp only [Ends.bind_iff, Ends.get_iff]
        cases hx : r.resource? x with
        | none => rfl
        | some target =>
          rw [Ends.pure_iff]
          split
          · rfl
          · rename_i htype
            apply ih.imp
            · rintro _ after ⟨rfl, hrest⟩
              refine ⟨rfl, ?_⟩
              intro y hy
              rcases List.mem_cons.mp hy with rfl | hy
              · exact ⟨target, hx, by simpa using htype⟩
              · exact hrest y hy
            · exact fun _ _ h => h
    apply (hloop (targetsOf value)).imp
    · rintro _ after ⟨hafter, hall⟩
      refine ⟨hafter, fun expected' heq => ?_⟩
      cases heq
      exact hall
    · exact fun _ _ h => h

/-- Accepting or refusing what a schema says changes nothing. -/
theorem ends_liftSchema {α : Type} (x : Except SchemaError α) (r : Registry) :
    Ends (liftSchema x) r (fun a after => after = r ∧ x = .ok a) (fun _ after => after = r) := by
  cases x with
  | ok a => exact ⟨rfl, rfl⟩
  | error e => rfl

/-- The references that writing a value takes. -/
def takes (r : Registry) (prop : Property) : Value → List ResourceId
  | .text s => [r.internedId s].filter (· != 0)
  | .buffer _ => [r.supply.nextId]
  | value => if prop.isOwningRef then targetsOf value else []

/-- A chain that moves no reference in the end, takes no more than some, and writes to one instance
at most. -/
def Writes (r after : Registry) (id : ResourceId) (limit : Multiset ResourceId) : Prop :=
  ∃ more ≤ limit, ∀ strict outside taken,
    Edits strict id ⟨r, outside, taken⟩ ⟨after, outside, more + taken⟩

namespace Writes

variable {after later : Registry} {limit limit' : Multiset ResourceId}

theorem keepsOutside (h : r.Writes after id limit) : r.KeepsOutside after := by
  obtain ⟨more, -, hedits⟩ := h
  exact fun outside taken => ⟨more + taken, (hedits True outside taken).dealings⟩

protected theorem refl (r : Registry) (id : ResourceId) (limit : Multiset ResourceId) :
    r.Writes r id limit := by
  refine ⟨0, Multiset.zero_le _, fun _ _ taken => ?_⟩
  rw [Multiset.zero_add]

/-- A neutral chain takes nothing. -/
theorem of_neutral (h : r.Neutral after) (hid : id ≠ r.supply.nextId)
    (limit : Multiset ResourceId) : r.Writes after id limit := by
  refine ⟨0, Multiset.zero_le _, fun strict outside taken => ?_⟩
  rw [Multiset.zero_add]
  exact h strict id hid outside taken

/-- A neutral chain may go first. -/
theorem neutral_trans (h : r.Neutral after) (hid : id ≠ r.supply.nextId)
    (h' : after.Writes later id limit) : r.Writes later id limit := by
  obtain ⟨more, hle, hedits⟩ := h'
  exact ⟨more, hle, fun strict outside taken =>
    (h strict id hid outside taken).trans (hedits strict outside taken)⟩

end Writes

/-- An instance with other references in a property: they were taken and stored, and then those
that the property held before were given back. -/
def exchange (r : Registry) (id : ResourceId) (prop : Property) (bytes : Bytes)
    (targets : List ResourceId) : Registry :=
  ((prop.words (prop.slice bytes)).filter (· != 0)).foldl release
    ((retainAll (targets.filter (· != 0)) r).storeBytes id prop
      ((prop.slice bytes).setWords (padded prop.count targets)))

/-- How storing references in a property ends: they are exchanged, or one of them is not there. -/
theorem ends_replaceRefs_of_fields {res : Resource} {bytes : Bytes}
    (hres : r.resource? id = some res) (hstorage : res.storage = .fields schema bytes)
    (prop : Property) (targets : List ResourceId) :
    Ends (replaceRefs id prop targets) r
      (fun _ after => after = r.exchange id prop bytes targets ∧
        ∀ x ∈ targets.filter (· != 0), ∃ target, r.resource? x = some target)
      (fun _ after => (∃ x ∈ targets.filter (· != 0), r.resource? x = none) ∧
        (targets.length ≤ 1 → after = r)) := by
  unfold replaceRefs
  rw [Ends.bind_iff]
  have hfields : (fieldsOf id).run r = .ok (schema, bytes) r := by
    simp [fieldsOf, find, hres, hstorage]
  unfold Ends
  rw [hfields]
  show Ends _ r _ _
  rw [Ends.bind_iff]
  apply (ends_forM_retain _ r).imp
  · rintro _ retained ⟨rfl, hlive⟩
    obtain ⟨_, hres'⟩ := (recounted_retainAll (targets.filter (· != 0)) r).resources hres
    rw [Ends.bind_iff]
    apply (ends_updateSlice hres' hstorage prop _).imp
    · rintro _ stored rfl
      exact ⟨rfl, hlive⟩
    · exact fun _ _ h => h.elim
  · rintro _ failed ⟨hnone, hsame⟩
    exact ⟨hnone, fun hone => hsame ((List.length_filter_le _ _).trans hone)⟩

/-- How exchanging the references of a holder ends. The new ones must be such that no reference is
taken in vain: they are known to be there, or there is one at most. -/
theorem ends_replaceRefs (hw : r.WellFormed) (hinst : r.IsInstance id schema)
    (hprop : prop ∈ schema.layout.props) (hholder : prop.IsHolder) {targets : List ResourceId}
    (hcount : targets.length ≤ prop.count)
    (htargets : (∀ x ∈ targets.filter (· != 0), ∃ target, r.resource? x = some target ∧
        prop.target? = some target.type) ∨
      prop.isOwningRef = false ∧ targets.length ≤ 1) :
    Ends (replaceRefs id prop targets) r
      (fun _ after => r.Writes after id (targets.filter (· != 0)))
      (fun _ after => after = r) := by
  cases hres : r.resource? id with
  | none =>
    unfold replaceRefs
    rw [Ends.bind_iff]
    apply (ends_fieldsOf id r).imp
    · rintro _ after ⟨-, res, hsome, -⟩
      rw [hres] at hsome
      cases hsome
    · exact fun _ _ h => h
  | some res =>
    obtain ⟨bytes, hstorage⟩ := hinst res hres
    have hsound := hw.sound hres
    rw [hstorage] at hsound
    have hlayout := hsound.1
    have hlength := hlayout.length_slice hprop hsound.2
    have hown := hlayout.sound prop hprop
    apply (ends_replaceRefs_of_fields hres hstorage prop targets).imp
    · rintro _ after ⟨rfl, hlive⟩
      have hrecounted := recounted_retainAll (targets.filter (· != 0)) r
      obtain ⟨refCount, hres'⟩ := hrecounted.resources hres
      refine ⟨targets.filter (· != 0), le_refl _, fun strict outside taken => ?_⟩
      refine (edits_retainAll hlive).trans (.trans (.single (.store hres' hstorage hprop
        (Bytes.length_setWords _ _) ?_ ?_)) (edits_foldl_release _ _))
      · rw [heldIds_setWords_padded hown hholder hlength hcount,
          prop.heldIds_of_isHolder hown hholder]
        abel
      · constructor
        · intro howning x hx
          rw [heldIds_setWords_padded hown hholder hlength hcount] at hx
          rcases htargets with htargets | ⟨hnot, -⟩
          · obtain ⟨target, hfound, htype⟩ := htargets x hx
            obtain ⟨_, hfound⟩ := hrecounted.resources hfound
            exact ⟨_, hfound, htype⟩
          · rw [howning] at hnot
            cases hnot
        · intro hk
          rcases hholder with hs | ho
          · rw [hs] at hk
            cases hk
          · simp [Property.isOwningRef, hk, Kind.isReference] at ho
    · rintro _ failed ⟨⟨x, hx, hnone⟩, hsame⟩
      rcases htargets with htargets | ⟨-, hone⟩
      · obtain ⟨target, hfound, -⟩ := htargets x hx
        rw [hnone] at hfound
        cases hfound
      · exact hsame hone

/-- What is to be shown of an operation only has to be shown while numbers last. -/
theorem Grows.ends_of_lasts {α : Type} {m : RegistryM α} (hm : Grows m)
    {good : α → Registry → Prop} {bad : ResourceError → Registry → Prop}
    (h : r.supply.Lasts → Ends m r (fun a after => after.supply.Lasts → good a after)
      fun e after => after.supply.Lasts → bad e after) :
    Ends m r (fun a after => after.supply.Lasts → good a after)
      (fun e after => after.supply.Lasts → bad e after) := by
  by_cases hl : r.supply.Lasts
  · exact h hl
  · apply (hm r).imp
    · exact fun _ _ hle hl' => absurd (hl'.mono hle) hl
    · exact fun _ _ hle hl' => absurd (hl'.mono hle) hl

/-- What is to be shown of a good end only has to be shown while numbers last. -/
theorem Grows.ends_ok_of_lasts {α : Type} {m : RegistryM α} (hm : Grows m)
    {good : α → Registry → Prop}
    (h : r.supply.Lasts →
      Ends m r (fun a after => after.supply.Lasts → good a after) fun _ _ => True) :
    Ends m r (fun a after => after.supply.Lasts → good a after) fun _ _ => True := by
  by_cases hl : r.supply.Lasts
  · exact h hl
  · exact (hm r).imp (fun _ _ hle hlast => absurd (hlast.mono hle) hl) fun _ _ _ => trivial

/-- The words of a raw buffer end in the number under which it is held. -/
theorem heldIds_setWords_buffer (hkind : prop.kind = .arrayBuffer) (hp : prop.IsSound)
    {part : Bytes} (hpart : part.length = prop.length) (length shared target : UInt32) :
    prop.heldIds (part.setWords [length, shared, target]) = [target].filter (· != 0) := by
  have hcount := hp.count_eq 3 (by rw [hkind]; rfl)
  rw [prop.heldIds_of_arrayBuffer hkind, Bytes.word_setWords (by
    rw [hpart, Property.length, hcount]
    exact Nat.le_refl _)]
  rfl

/-- How setting a raw buffer ends: there was none before, and the new one was entered, referenced and
stored. -/
theorem ends_writeBuffer_of_fields {res : Resource} {bytes : Bytes}
    (hres : r.resource? id = some res) (hstorage : res.storage = .fields schema bytes)
    (hne : id ≠ r.supply.nextId) (prop : Property) (buffer : RawBuffer) :
    Ends (writeBuffer id prop buffer) r
      (fun _ after => (prop.slice bytes).word 2 = 0 ∧ ∃ created length,
        r.Spawns created arrayBufferType (.buffer buffer) {} r.allLinks ∧
          after = (created.modifyResource r.supply.nextId Resource.retained).storeBytes id prop
            ((prop.slice bytes).setWords
              [UInt32.ofNat length, if buffer.isShared then 1 else 0, r.supply.nextId]))
      (fun _ after => after = r) := by
  have hfields : (fieldsOf id).run r = .ok (schema, bytes) r := by
    simp [fieldsOf, find, hres, hstorage]
  unfold writeBuffer
  rw [Ends.bind_iff]
  unfold Ends
  rw [hfields]
  dsimp only
  show Ends _ r _ _
  split
  · rfl
  rename_i hunset
  rw [Ends.bind_iff, Ends.get_iff]
  split
  · rfl
  rw [Ends.bind_iff]
  apply (ends_createBuffer buffer r).imp
  · rintro _ created ⟨rfl, hspawns⟩
    obtain ⟨_, _, htarget, -⟩ := hspawns.found
    have hres' : created.resource? id = some res := by rw [hspawns.others id hne, hres]
    rw [Ends.bind_iff, Ends.discard_iff]
    apply (ends_retain _ created).imp
    · rintro _ retained ⟨_, _, -, rfl⟩
      obtain ⟨_, hres''⟩ := (recounted_retained created r.supply.nextId).resources hres'
      apply (ends_updateSlice hres'' hstorage prop _).imp
      · rintro _ stored rfl
        exact ⟨by simpa using hunset, created, _, hspawns, rfl⟩
      · exact fun _ _ h => h.elim
    · rintro _ failed ⟨hnone, -, -⟩
      rw [htarget] at hnone
      cases hnone
  · exact fun _ _ h => h.elim

/-- How setting a raw buffer ends. -/
theorem ends_writeBuffer (hw : r.WellFormed) (hinst : r.IsInstance id schema)
    (hprop : prop ∈ schema.layout.props) (hkind : prop.kind = .arrayBuffer) (buffer : RawBuffer) :
    Ends (writeBuffer id prop buffer) r
      (fun _ after => after.supply.Lasts → r.Writes after id {r.supply.nextId})
      (fun _ after => after.supply.Lasts → after = r) := by
  apply (spans_acts.writeBuffer id prop buffer).grows.ends_of_lasts
  intro hl
  cases hres : r.resource? id with
  | none =>
    unfold writeBuffer
    rw [Ends.bind_iff]
    apply (ends_fieldsOf id r).imp
    · rintro _ after ⟨-, res, hsome, -⟩
      rw [hres] at hsome
      cases hsome
    · exact fun _ _ h _ => h
  | some res =>
    obtain ⟨bytes, hstorage⟩ := hinst res hres
    have hsound := hw.sound hres
    rw [hstorage] at hsound
    have hlayout := hsound.1
    have hlength := hlayout.length_slice hprop hsound.2
    have hne : id ≠ r.supply.nextId := ne_nextId (hw.numbered hres).2 hl
    apply (ends_writeBuffer_of_fields hres hstorage hne prop buffer).imp
    · rintro _ after ⟨hunset, created, length, hspawns, rfl⟩ -
      obtain ⟨bindings, load, htarget, hsent⟩ := hspawns.found
      have hrecounted := recounted_retained created r.supply.nextId
      have hres' : created.resource? id = some res := by rw [hspawns.others id hne, hres]
      obtain ⟨refCount, hres''⟩ := hrecounted.resources hres'
      refine ⟨{r.supply.nextId}, le_refl _, fun strict outside taken => ?_⟩
      refine (hspawns.neutral strict id hne outside taken).trans
        (.head (.retain htarget) (.single (.store hres'' hstorage hprop
          (Bytes.length_setWords _ _) ?_ ⟨?_, ?_⟩)))
      · have hold : prop.heldIds (prop.slice bytes) = [] := by
          rw [prop.heldIds_of_arrayBuffer hkind, hunset]
          rfl
        rw [heldIds_setWords_buffer hkind (hlayout.sound prop hprop) hlength, hold]
        have hnew : [r.supply.nextId].filter (· != 0) = [r.supply.nextId] := by
          simp [nextId_ne_zero hl]
        rw [hnew, Multiset.coe_nil, Multiset.add_zero, Multiset.coe_singleton, Multiset.add_comm,
          Multiset.singleton_add]
      · intro howning
        simp [Property.isOwningRef, hkind, Kind.isReference] at howning
      · intro _ x hx
        rw [heldIds_setWords_buffer hkind (hlayout.sound prop hprop) hlength] at hx
        obtain rfl : x = r.supply.nextId := by simpa using (List.mem_filter.mp hx).1
        obtain ⟨count, hfound⟩ := hrecounted.resources htarget
        refine ⟨_, hfound, ⟨buffer, rfl⟩, fun k hk => ?_⟩
        rw [hrecounted.links, hspawns.length] at hk
        exact hsent k (List.mem_range.mpr hk) hk
    · exact fun _ _ h _ => h

/-- Storing bytes that hold nothing, where nothing was held, takes nothing. -/
theorem writes_storeBytes {res : Resource} {bytes part : Bytes} (hres : r.resource? id = some res)
    (hstorage : res.storage = .fields schema bytes) (hprop : prop ∈ schema.layout.props)
    (hpart : part.length = (prop.slice bytes).length) (hnone : ∀ part, prop.heldIds part = [])
    (limit : Multiset ResourceId) : r.Writes (r.storeBytes id prop part) id limit := by
  refine ⟨0, Multiset.zero_le _, fun strict outside taken => ?_⟩
  rw [Multiset.zero_add]
  refine .single (.store hres hstorage hprop hpart ?_ ⟨?_, ?_⟩)
  · rw [hnone, hnone]
  · simp [hnone]
  · simp [hnone]

/-- How changing bytes that hold nothing ends. -/
theorem ends_updateSlice_blank (hinst : r.IsInstance id schema) (hprop : prop ∈ schema.layout.props)
    {f : Bytes → Bytes} (hf : ∀ part, (f part).length = part.length)
    (hnone : ∀ part, prop.heldIds part = []) (limit : Multiset ResourceId) :
    Ends (updateSlice id prop f) r
      (fun _ after => r.Writes after id limit) (fun _ after => after = r) := by
  unfold updateSlice
  rw [Ends.bind_iff]
  apply (ends_fieldsOf id r).imp
  · rintro ⟨schema', bytes⟩ after ⟨rfl, res, hres, hstorage⟩
    obtain ⟨bytes', hstorage'⟩ := hinst res hres
    rw [hstorage'] at hstorage
    cases hstorage
    exact writes_storeBytes hres hstorage' hprop (hf _) hnone limit
  · exact fun _ _ h => h

/-- How encoding a plain value in place ends. -/
theorem ends_writePlain (hinst : r.IsInstance id schema) (hprop : prop ∈ schema.layout.props)
    (value : Value) (limit : Multiset ResourceId) :
    Ends (do
        let (_, bytes) ← fieldsOf id
        let part ← liftSchema (prop.encodePlain value (prop.slice bytes))
        modify (·.storeBytes id prop part)) r
      (fun _ after => r.Writes after id limit) (fun _ after => after = r) := by
  rw [Ends.bind_iff]
  apply (ends_fieldsOf id r).imp
  · rintro ⟨schema', bytes⟩ after ⟨rfl, res, hres, hstorage⟩
    obtain ⟨bytes', hstorage'⟩ := hinst res hres
    rw [hstorage'] at hstorage
    cases hstorage
    rw [Ends.bind_iff]
    apply (ends_liftSchema _ after).imp
    · rintro part r ⟨rfl, hpart⟩
      exact writes_storeBytes hres hstorage' hprop (prop.length_encodePlain hpart)
        (prop.heldIds_of_plain (prop.isPlain_of_encodePlain hpart)) limit
    · exact fun _ _ h => h
  · exact fun _ _ h => h

/-- How storing the references that a value names ends, once they were checked. -/
theorem ends_replaceRefs_targets (hw : r.WellFormed) (hinst : r.IsInstance id schema)
    (hprop : prop ∈ schema.layout.props) (hsound : prop.IsSound) (howning : prop.isOwningRef = true)
    {value : Value} {targets : List ResourceId} (hcount : targets.length ≤ prop.count)
    (hnamed : targets.filter (· != 0) = targetsOf value)
    (hchecked : ∀ expected, prop.target? = some expected → ∀ x ∈ targetsOf value,
      ∃ target, r.resource? x = some target ∧ target.type = expected) :
    Ends (replaceRefs id prop targets) r
      (fun _ after => r.Writes after id (targetsOf value))
      (fun _ after => after = r) := by
  have href : prop.kind.isReference = true := (Bool.and_eq_true_iff.mp howning).1
  obtain ⟨expected, hexpected⟩ := Option.isSome_iff_exists.mp (hsound.target href)
  rw [← hnamed]
  apply ends_replaceRefs hw hinst hprop (.inr howning) hcount
  refine .inl fun x hx => ?_
  obtain ⟨target, htarget, htype⟩ := hchecked expected hexpected x (hnamed ▸ hx)
  exact ⟨target, htarget, by rw [hexpected, htype]⟩

/-- How writing a text ends: it is interned, and the reference on it is stored. -/
theorem ends_writeText (hw : r.WellFormed) (hid : id.toNat ≤ r.supply.issued)
    (hinst : r.IsInstance id schema) (hprop : prop ∈ schema.layout.props)
    (hkind : prop.kind = .string) (hone : prop.count = 1) (s : String) :
    Ends (do let target ← createString s; replaceRefs id prop [target]) r
      (fun _ after => after.supply.Lasts → r.Writes after id (r.takes prop (.text s)))
      (fun _ after => after.supply.Lasts → r.Writes after id 0) := by
  have hnot : prop.isOwningRef = false := by
    simp [Property.isOwningRef, hkind, Kind.isReference]
  rw [Ends.bind_iff]
  apply (ends_createString s r).imp
  · rintro target interned ⟨rfl, hinterns⟩
    apply (spans_acts.replaceRefs id prop [r.internedId s]).grows.ends_of_lasts
    intro hl
    have hne : id ≠ r.supply.nextId := by
      rcases hinterns.supply with rfl | hsupply
      · exact ne_nextId hid hl
      · rw [hsupply] at hl
        exact ne_nextId hid hl.of_draw
    have hinst' : interned.IsInstance id schema := by
      intro res hres
      exact hinst res (by rw [← hinterns.others id hne, hres])
    have hw' : interned.WellFormed :=
      (hinterns.neutral True id hne 0 0).changes.wellFormed hw hl
    apply (ends_replaceRefs hw' hinst' hprop (.inl hkind) (by simp [hone])
      (.inr ⟨hnot, Nat.le_refl _⟩)).imp
    · exact fun _ _ h _ => .neutral_trans hinterns.neutral hne h
    · rintro _ after rfl -
      exact .of_neutral hinterns.neutral hne 0
  · exact fun _ _ h => h.elim

/-- How writing a value ends. -/
theorem ends_writeProp (hw : r.WellFormed) (hid : id.toNat ≤ r.supply.issued)
    (hinst : r.IsInstance id schema) (hprop : prop ∈ schema.layout.props) (hsound : prop.IsSound)
    (value : Value) :
    Ends (writeProp id prop value) r
      (fun _ after => after.supply.Lasts → r.Writes after id (r.takes prop value))
      (fun _ after => after.supply.Lasts → r.Writes after id 0) := by
  have hsame : ∀ after, after = r → r.Writes after id 0 := by
    rintro _ rfl
    exact .refl _ _ _
  unfold writeProp
  rw [Ends.bind_iff]
  apply (ends_liftSchema _ r).imp
  · rintro _ after ⟨rfl, hvalid⟩
    rw [Ends.bind_iff]
    apply (ends_checkTargets prop value after).imp
    · rintro _ r ⟨rfl, htargets⟩
      cases value with
      | text s =>
        have hkind := prop.kind_of_validate_text hvalid
        exact ends_writeText hw hid hinst hprop hkind (hsound.count_eq 1 (by rw [hkind]; rfl)) s
      | buffer b =>
        exact (ends_writeBuffer hw hinst hprop (prop.kind_of_validate_buffer hvalid) b).imp
          (fun _ _ h => h) fun _ after h hl => hsame after (h hl)
      | ref target =>
        have hkind := prop.kind_of_validate_ref hvalid
        have hone := hsound.count_eq 1 (by rw [hkind]; rfl)
        dsimp only
        split
        · rename_i hback
          apply (ends_updateSlice_blank hinst hprop (fun part => Bytes.length_setWord part 0 _)
            (prop.heldIds_of_backRef hsound hback) _).imp
          · exact fun _ _ h _ => h
          · exact fun _ after h _ => hsame after h
        · rename_i hback
          have howning := prop.isOwningRef_of_validate_ref hvalid hback
          have hends := ends_replaceRefs_targets hw hinst hprop hsound howning (by simp [hone])
            (filter_singleton_getD target) htargets
          simp only [takes, howning, if_true]
          exact hends.imp (fun _ _ h _ => h) (fun _ after h _ => hsame after h)
      | refs slots =>
        have hcount := (prop.kind_of_validate_refs hvalid).2
        have howning := prop.isOwningRef_of_validate_refs hsound hvalid
        have hends := ends_replaceRefs_targets hw hinst hprop hsound howning
          (by simpa using hcount) (filter_map_getD slots) htargets
        simp only [takes, howning, if_true]
        exact hends.imp (fun _ _ h _ => h) (fun _ after h _ => hsame after h)
      | bool | word | float | floats =>
        exact (ends_writePlain hinst hprop _ _).imp (fun _ _ h _ => h)
          (fun _ after h _ => hsame after h)
    · exact fun _ after h _ => hsame after h
  · exact fun _ after h _ => hsame after h

/-- How finding the property of a live instance ends. -/
theorem ends_propOf (id : ResourceId) (name : String) (r : Registry) :
    Ends (propOf id name) r
      (fun prop after => after = r ∧ ∃ res schema bytes, r.resource? id = some res ∧
        res.storage = .fields schema bytes ∧ schema.layout.prop? name = some prop)
      (fun _ after => after = r) := by
  unfold propOf
  rw [Ends.bind_iff]
  apply (ends_fieldsOf id r).imp
  · rintro ⟨schema, bytes⟩ after ⟨rfl, res, hres, hstorage⟩
    dsimp only
    cases hp : schema.layout.prop? name with
    | none => rfl
    | some prop => exact ⟨rfl, res, schema, bytes, hres, hstorage, hp⟩
  · exact fun _ _ h => h

/-- What writing a property that a live instance has under a name takes. -/
def takesFor (r : Registry) (id : ResourceId) (name : String) (value : Value) : List ResourceId :=
  match ((r.resource? id).bind fun res => res.storage.schema?).bind (·.layout.prop? name) with
  | some prop => r.takes prop value
  | none => []

/-- How writing a property ends that was found under its name. -/
theorem ends_writeProp_of_prop? (hw : r.WellFormed) {res : Resource} {bytes : Bytes}
    {name : String} (hres : r.resource? id = some res) (hstorage : res.storage = .fields schema bytes)
    (hprop : schema.layout.prop? name = some prop) (value : Value) :
    Ends (writeProp id prop value) r
      (fun _ after => after.supply.Lasts → r.Writes after id (r.takesFor id name value))
      (fun _ after => after.supply.Lasts → r.Writes after id 0) := by
  have hmem := (Layout.mem_of_prop? hprop).1
  have hsound := hw.sound hres
  rw [hstorage] at hsound
  have hinst : r.IsInstance id schema := by
    intro res' hres'
    rw [hres] at hres'
    cases hres'
    exact ⟨bytes, hstorage⟩
  have htakes : r.takesFor id name value = r.takes prop value := by
    simp [takesFor, hres, hstorage, Storage.schema?, hprop]
  rw [htakes]
  exact ends_writeProp hw (hw.numbered hres).2 hinst hmem (hsound.1.sound prop hmem) value

/-- A write ends as writing the property ends that was found, or it fails at once. -/
theorem IsPut.ends_of {name : String} {value : Value} {m : RegistryM Unit}
    (hm : IsPut id name value m) {good : Unit → Registry → Prop}
    {bad : ResourceError → Registry → Prop} (hbad : ∀ e, bad e r)
    (hwrite : ∀ res schema bytes prop, r.resource? id = some res →
      res.storage = .fields schema bytes → schema.layout.prop? name = some prop →
      Ends (writeProp id prop value) r good bad) : Ends m r good bad := by
  cases hm with
  | host | script =>
    first | unfold setProp | unfold setPropFromScript
    rw [Ends.bind_iff]
    apply (ends_propOf id name r).imp
    · rintro prop after ⟨rfl, res, schema, bytes, hres, hstorage, hprop⟩
      dsimp only
      split
      · exact hbad _
      · exact hwrite res schema bytes prop hres hstorage hprop
    · rintro e after rfl
      exact hbad e

/-- How a write ends. -/
theorem ends_put (hw : r.WellFormed) {name : String} {value : Value} {m : RegistryM Unit}
    (hm : IsPut id name value m) :
    Ends m r (fun _ after => after.supply.Lasts → r.Writes after id (r.takesFor id name value))
      (fun _ after => after.supply.Lasts → r.Writes after id 0) :=
  hm.ends_of (fun _ _ => .refl _ _ _) fun _ _ _ _ hres hstorage hprop =>
    ends_writeProp_of_prop? hw hres hstorage hprop value

end Registry

end Framecast
