import Framecast.Proofs.Operation.Checking
import Framecast.Proofs.Operation.Interning
import Framecast.Proofs.Run.Plans

/-!
# What the cache hands back

A creation under a key looks the key up once its arguments were checked and before it
does anything else. If something is live there, its number is the answer and nothing
happens: no number is given out, no text is interned, no reference is taken and no
intent is queued. If nothing is, something new is made under the next number. Whatever
is removed, in whichever way, leaves its key, and its number is never handed back.
-/

namespace Framecast

/-- The type and the key under which something is asked for. -/
def Action.slot? : Action → Option CacheSlot
  | .createOpaque _ type _ options => options.cacheKey?.map (CacheSlot.mk type)
  | .createInstance schema _ options => options.cacheKey?.map (CacheSlot.mk schema.name)
  | .createString text => if text = "" then none else some ⟨stringType, .text text⟩
  | _ => none

/-- Whether the arguments of a creation pass the checks: there is a link to the thread and the opaque
type was registered, or the instance may be created with its values. A text always passes. -/
def Action.Passes (r : Registry) : Action → Prop
  | .createOpaque thread type _ _ => (r.linkTo? thread).isSome ∧ type ∈ r.loaderTypes
  | .createInstance schema props _ => r.Allows schema props
  | _ => True

/-- The schemas once an action has asked for one. -/
def Action.enrolled (r : Registry) (action : Action) : Std.TreeMap String Schema :=
  (action.schema?.map r.enrolled).getD r.schemas

/-- An instance is asked for under its own type. -/
theorem Action.type_of_slot? {action : Action} {slot : CacheSlot} {schema : Schema}
    (hslot : action.slot? = some slot) (hschema : action.schema? = some schema) :
    slot.type = schema.name := by
  cases action with
  | createInstance other props options =>
    cases hschema
    obtain ⟨key, -, rfl⟩ := Option.map_eq_some_iff.mp hslot
    rfl
  | _ => cases hschema

/-- The schemas do not change if the one that is asked for has one of its type. -/
theorem Action.enrolled_eq {r : Registry} {action : Action}
    (h : ∀ schema, action.schema? = some schema → (r.schemas[schema.name]?).isSome) :
    action.enrolled r = r.schemas := by
  unfold enrolled
  cases hschema : action.schema? with
  | none => rfl
  | some schema =>
    obtain ⟨known, hknown⟩ := Option.isSome_iff_exists.mp (h schema hschema)
    show r.enrolled schema = _
    unfold Registry.enrolled
    rw [hknown]

/-- What is cached of a mould is cached under its type and key. -/
theorem Resource.slot?_of_mould {res : Resource} {type : String} {key? : Option CacheKey}
    {frame : Storage} (h : res.mould = ⟨type, key?, frame⟩) :
    res.slot? = key?.map (CacheSlot.mk type) := by
  have htype : res.type = type := congrArg Mould.type h
  have hkey : res.cacheKey? = key? := congrArg Mould.key? h
  unfold slot?
  rw [htype, hkey]

namespace Registry

variable {r : Registry} {x : ResourceId} {type text : String} {options : Options}

/-- Where an opaque resource is cached, a creation hands it back exactly if its arguments pass the
checks, and changes nothing. -/
theorem ends_createOpaque_cached (thread : Thread) (p : Payload)
    (hcached : r.cached? type options.cacheKey? = some x) :
    Ends (createOpaque thread type p options) r
      (fun id after => id = x ∧ ((r.linkTo? thread).isSome ∧ type ∈ r.loaderTypes) ∧ after = r)
      (fun _ after => ¬((r.linkTo? thread).isSome ∧ type ∈ r.loaderTypes) ∧ after = r) := by
  unfold createOpaque
  rw [Ends.bind_iff, Ends.get_iff]
  cases r.linkTo? thread with
  | none => exact ⟨fun h => (nomatch h.1), rfl⟩
  | some position =>
    dsimp only
    rw [hcached]
    split
    · rename_i hmissing
      exact ⟨fun h => by simp [h.2] at hmissing, rfl⟩
    · rename_i hthere
      exact ⟨rfl, ⟨rfl, by simpa using hthere⟩, rfl⟩

/-- Where a text is cached, interning hands it back and changes nothing. -/
theorem ends_createString_cached (hfull : text ≠ "")
    (hcached : r.cached? stringType (some (.text text)) = some x) :
    Ends (createString text) r (fun id after => id = x ∧ after = r) (fun _ _ => False) := by
  unfold createString
  rw [if_neg (by simpa using hfull), Ends.bind_iff, Ends.get_iff]
  dsimp only
  rw [hcached]
  exact ⟨rfl, rfl⟩

/-- A new instance has the next number. -/
theorem ends_createInstance_nextId {schema : Schema} (hsound : schema.layout.IsSound)
    (props : List (String × Value)) (huncached : r.cached? schema.name options.cacheKey? = none) :
    Ends (createInstance schema props options) r (fun id _ => id = r.supply.nextId)
      (fun _ _ => True) := by
  apply ends_createInstance_of hsound
  · intro id _ hcached
    rw [huncached] at hcached
    cases hcached
  · exact fun _ _ => trivial
  · intro schemas bytes values _ _
    apply ends_fillInstance_of
    exact (spans_acts.writeEach _ values _).imp (fun _ _ _ => ⟨fun _ _ => trivial, fun _ _ _ _ _ _ => rfl⟩)
      fun _ _ _ => trivial

end Registry

namespace Registry.IndexesAgree

variable {r : Registry} {x y : ResourceId} {res res' : Resource} {slot : CacheSlot}

theorem cached?_of_slot? (h : r.IndexesAgree) (hres : r.resource? x = some res)
    (hslot : res.slot? = some slot) : r.cached? slot.type (some slot.key) = some x := by
  obtain ⟨key, hkey, rfl⟩ := Option.map_eq_some_iff.mp hslot
  exact (h.cached _ _ x).mpr ⟨res, hres, rfl, hkey⟩

theorem eq_of_slot? (h : r.IndexesAgree) (hx : r.resource? x = some res)
    (hy : r.resource? y = some res') (hres : res.slot? = some slot) (hres' : res'.slot? = some slot) :
    x = y :=
  Option.some.inj ((h.cached?_of_slot? hx hres).symm.trans (h.cached?_of_slot? hy hres'))

/-- What a key leads to is live under it. -/
theorem slot?_of_cached? (h : r.IndexesAgree) (hcached : r.cached? slot.type (some slot.key) = some x) :
    ∃ res, r.resource? x = some res ∧ res.slot? = some slot := by
  obtain ⟨res, hres, htype, hkey⟩ := (h.cached _ _ x).mp hcached
  refine ⟨res, hres, ?_⟩
  unfold Resource.slot?
  rw [htype, hkey]
  rfl

end Registry.IndexesAgree

namespace Broadcast

variable {b : Broadcast} {action : Action} {slot : CacheSlot} {x : ResourceId}

/-- An operation of the producer that answers with one number if something is so, fails if not, and
leaves one registry behind in any case. -/
theorem onRegistry_eq {m : RegistryM ResourceId} {s : Registry} {P : Prop}
    (h : Ends m b.registry (fun id after => id = x ∧ P ∧ after = s) (fun _ after => ¬P ∧ after = s)) :
    (b.onRegistry m .created).2 = { b with registry := s } ∧
      (P ∧ (b.onRegistry m .created).1 = .created x ∨
        ¬P ∧ ∃ e, (b.onRegistry m .created).1 = .failed e) := by
  unfold onRegistry
  split
  · obtain ⟨rfl, hP, rfl⟩ := h.of_ok ‹_›
    exact ⟨rfl, .inl ⟨hP, rfl⟩⟩
  · obtain ⟨hP, rfl⟩ := h.of_error ‹_›
    exact ⟨rfl, .inr ⟨hP, _, rfl⟩⟩

/-- Where something is cached, a creation under its key hands it back exactly if the arguments pass the
checks, and changes nothing but the schemas. -/
theorem step_of_cached (hc : action.IsCompiled) (hslot : action.slot? = some slot)
    (hcached : b.registry.cached? slot.type (some slot.key) = some x) :
    (b.step action).2 =
        { b with registry := { b.registry with schemas := action.enrolled b.registry } } ∧
      (action.Passes b.registry ∧ (b.step action).1 = .created x ∨
        ¬action.Passes b.registry ∧ ∃ e, (b.step action).1 = .failed e) := by
  cases action with
  | createOpaque thread type p options =>
    obtain ⟨key, hkey, rfl⟩ := Option.map_eq_some_iff.mp hslot
    exact onRegistry_eq (Registry.ends_createOpaque_cached thread p (hkey ▸ hcached))
  | createInstance schema props options =>
    obtain ⟨key, hkey, rfl⟩ := Option.map_eq_some_iff.mp hslot
    exact onRegistry_eq (Registry.ends_createInstance_cached hc.isSound props (hkey ▸ hcached))
  | createString text =>
    change (if text = "" then none else some _) = some slot at hslot
    split at hslot
    · cases hslot
    · rename_i hfull
      cases hslot
      exact onRegistry_eq ((Registry.ends_createString_cached hfull hcached).imp
        (fun _ _ h => ⟨h.1, trivial, h.2⟩) fun _ _ h => h.elim)
  | _ => cases hslot

/-- Where nothing is cached, a creation under the key makes something new under the next number, if it
succeeds. -/
theorem step_of_uncached (hc : action.IsCompiled) (hw : b.registry.WellFormed)
    (hi : b.registry.IndexesLive) (hl : (b.step action).2.registry.supply.Lasts)
    (hslot : action.slot? = some slot)
    (huncached : b.registry.cached? slot.type (some slot.key) = none)
    (hanswer : (b.step action).1 = .created x) :
    x = b.registry.supply.nextId ∧
      ∃ res, (b.step action).2.registry.resource? x = some res ∧ res.slot? = some slot := by
  have hmade {m : RegistryM ResourceId} (hm : Ends m b.registry
      (fun id after => after.supply.Lasts → id = b.registry.supply.nextId ∧
        ∃ res, after.resource? id = some res ∧ res.slot? = some slot) (fun _ _ => True))
      (hlasts : (b.onRegistry m .created).2.registry.supply.Lasts)
      (hcreated : (b.onRegistry m .created).1 = .created x) : x = b.registry.supply.nextId ∧
        ∃ res, (b.onRegistry m .created).2.registry.resource? x = some res ∧
          res.slot? = some slot := by
    rcases (onRegistry_ends hm .created).1 with ⟨id, hid, hgood⟩ | ⟨e, hfailed, -⟩
    · cases hid.symm.trans hcreated
      exact hgood hlasts
    · cases hfailed.symm.trans hcreated
  cases action with
  | createOpaque thread type p options =>
    obtain ⟨key, hkey, rfl⟩ := Option.map_eq_some_iff.mp hslot
    refine hmade ((Registry.ends_createOpaque_adds thread type p options b.registry).imp ?_
      fun _ _ _ => trivial) hl hanswer
    rintro id after (⟨-, hcached⟩ | ⟨rfl, res, hadds, -, hmould⟩) -
    · rw [hkey, huncached] at hcached
      cases hcached
    · exact ⟨rfl, res, hadds.found, (Resource.slot?_of_mould hmould).trans hslot⟩
  | createInstance schema props options =>
    obtain ⟨key, hkey, rfl⟩ := Option.map_eq_some_iff.mp hslot
    refine hmade (((Registry.ends_createInstance_upholds hw hi hc.isSound props options).and
      (Registry.ends_createInstance_nextId hc.isSound props (hkey ▸ huncached))).imp ?_
      fun _ _ _ => trivial) hl hanswer
    rintro id after ⟨hends, rfl⟩ hlasts
    obtain ⟨-, res, frame, hres, hmould, -⟩ := hends hlasts
    exact ⟨rfl, res, hres, (Resource.slot?_of_mould hmould).trans hslot⟩
  | createString text =>
    change (if text = "" then none else some _) = some slot at hslot
    split at hslot
    · cases hslot
    · rename_i hfull
      cases hslot
      refine hmade ((Registry.ends_createString_interned hi hfull).imp ?_ fun _ _ h => h.elim) hl
        hanswer
      rintro _ after ⟨rfl, res, hinterned⟩ -
      refine ⟨?_, res, hinterned.found, Resource.slot?_of_mould hinterned.mould⟩
      unfold Registry.internedId
      rw [if_neg (by simpa using hfull), huncached]
      rfl
  | _ => cases hslot

end Broadcast

/-- What a creation under a key comes to at the end of a run. -/
structure Broadcast.Caches (b : Broadcast) (past : List Moment) (action : Action) (slot : CacheSlot) :
    Prop where
  /-- If something is live under the key, the answer is its number if the arguments pass the checks,
  and a failure if not. Nothing changes but the schemas. -/
  hit : ∀ x res, b.registry.resource? x = some res → res.slot? = some slot →
    (action.Passes b.registry ∧ (b.step action).1 = .created x ∨
      ¬action.Passes b.registry ∧ ∃ e, (b.step action).1 = .failed e) ∧
    (b.step action).2 =
      { b with registry := { b.registry with schemas := action.enrolled b.registry } }
  /-- Not even the schemas change if what is live is an instance, or if no instance is asked for. -/
  still : ∀ x res, b.registry.resource? x = some res → res.slot? = some slot →
    (∀ schema, action.schema? = some schema → ∃ own bytes, res.storage = .fields own bytes) →
      (b.step action).2 = b
  /-- If nothing is live under the key, what a creation answers with is new, and is live under it. -/
  fresh : (∀ x res, b.registry.resource? x = some res → res.slot? ≠ some slot) →
    ∀ id, (b.step action).1 = .created id → b.registry.supply.issued < id.toNat ∧
      ∃ res, (b.step action).2.registry.resource? id = some res ∧ res.slot? = some slot
  /-- A number that was given out and leads nowhere is not handed back, however that came. -/
  gone : ∀ x, x.toNat ≤ b.registry.supply.issued → b.registry.resource? x = none →
    (b.step action).1 ≠ .created x
  /-- What is handed back once something under the key is gone has a higher number, and is new or was
  made when the other was gone. -/
  later : ∀ m ∈ past, ∀ x res, m.before.registry.resource? x = some res → res.slot? = some slot →
    b.registry.resource? x = none → ∀ id, (b.step action).1 = .created id →
      x < id ∧ (b.registry.supply.issued < id.toNat ∨
        ∃ m' ∈ past, m'.Draws id ∧ m'.after.registry.resource? x = none)

namespace Run

variable {config : Config} {supply : Supply} {past : List Moment} {b : Broadcast}

/-- What is live at the end of a run and was live at some moment on the way is still in its place. -/
theorem slot?_of_mem (h : Run (.opened config supply) past b)
    (hc : ∀ m ∈ past, m.action.IsCompiled) (hl : b.registry.supply.Lasts) {m : Moment}
    (hm : m ∈ past) {x : ResourceId} {res res' : Resource}
    (hres : m.before.registry.resource? x = some res) (hres' : b.registry.resource? x = some res') :
    res'.slot? = res.slot? := by
  obtain ⟨later, earlier, rfl, hbefore, hissued⟩ := h.before_of_mem hc hm
  have hrest : ∀ m' ∈ earlier, m'.action.IsCompiled := fun m' hm' =>
    hc m' (List.mem_append_right _ (List.mem_cons_of_mem _ hm'))
  have hw := hbefore.wellFormed hrest (hl.mono hissued)
  have hrun : Run (.opened config supply) ((later ++ [m]) ++ earlier) b := by simpa using h
  obtain ⟨res₁, hres₁, hevolves⟩ := hrun.origin (fun m' hm' => hc m' (by simpa using hm')) hl hbefore
    (hw.numbered hres).2 hres'
  cases hres.symm.trans hres₁
  rw [Resource.slot?_of_mould hevolves.mould_eq]
  rfl

/-- What is live under a key was made when whatever was live under it before was gone. -/
theorem made_later (h : Run (.opened config supply) past b)
    (hc : ∀ m ∈ past, m.action.IsCompiled) (hl : b.registry.supply.Lasts) (slot : CacheSlot) :
    ∀ m ∈ past, ∀ x res, m.before.registry.resource? x = some res → res.slot? = some slot →
      b.registry.resource? x = none → ∀ y res', b.registry.resource? y = some res' →
        res'.slot? = some slot → ∃ m' ∈ past, m'.Draws y ∧ m'.after.registry.resource? x = none := by
  refine h.keeps (P := fun past b => ∀ m ∈ past, ∀ x res, m.before.registry.resource? x = some res →
    res.slot? = some slot → b.registry.resource? x = none → ∀ y res',
      b.registry.resource? y = some res' → res'.slot? = some slot →
        ∃ m' ∈ past, m'.Draws y ∧ m'.after.registry.resource? x = none) hc hl ?_ ?_
  · exact fun m hm => nomatch hm
  · intro past b action h hrest hone hlasts hl ih m hm x res hres hslot hgone y res' hres' hslot'
    have hw := h.wellFormed hrest hlasts
    by_cases hold : y.toNat ≤ b.registry.supply.issued
    · obtain ⟨old, hy, hevolves⟩ := Broadcast.origin_step hone hw hl hold hres'
      have hy' : old.slot? = some slot :=
        (Resource.slot?_of_mould hevolves.mould_eq).symm.trans hslot'
      have hnone : b.registry.resource? x = none := by
        cases hx : b.registry.resource? x with
        | none => rfl
        | some found =>
          have hfound : found.slot? = some slot := by
            rcases List.mem_cons.mp hm with rfl | hm
            · cases hres.symm.trans hx
              exact hslot
            · exact (h.slot?_of_mem hrest hlasts hm hres hx).trans hslot
          have hagree := (h.indexesFull hrest hlasts).agree (h.indexesLive hrest hlasts)
          rw [hagree.eq_of_slot? hx hy hfound hy', hres'] at hgone
          cases hgone
      rcases List.mem_cons.mp hm with rfl | hm
      · cases hres.symm.trans hnone
      · obtain ⟨m', hm', hdraws, hafter⟩ := ih m hm x res hres hslot hnone y old hy hy'
        exact ⟨m', List.mem_cons_of_mem _ hm', hdraws, hafter⟩
    · exact ⟨⟨b, action⟩, List.mem_cons_self, ⟨Nat.not_le.mp hold,
        ((Broadcast.wellFormed_step hone hw hl).numbered hres').2⟩, hgone⟩

/-- What a creation under a key answers with is live under it already, or is new and live under it. -/
theorem created_under (h : Run (.opened config supply) past b)
    (hc : ∀ m ∈ past, m.action.IsCompiled) {action : Action} (hone : action.IsCompiled)
    (hl : (b.step action).2.registry.supply.Lasts) {slot : CacheSlot}
    (hslot : action.slot? = some slot) {id : ResourceId} (hcreated : (b.step action).1 = .created id) :
    (∃ res, b.registry.resource? id = some res ∧ res.slot? = some slot) ∨
      b.registry.supply.issued < id.toNat ∧
        ∃ res, (b.step action).2.registry.resource? id = some res ∧ res.slot? = some slot := by
  have hlasts := hl.mono (b.issued_le_step hone)
  have hi := h.indexesLive hc hlasts
  cases hcached : b.registry.cached? slot.type (some slot.key) with
  | some x =>
    obtain ⟨res, hres, hlive⟩ := ((h.indexesFull hc hlasts).agree hi).slot?_of_cached? hcached
    obtain ⟨-, ⟨-, hx⟩ | ⟨-, e, hfailed⟩⟩ := Broadcast.step_of_cached hone hslot hcached
    · cases hx.symm.trans hcreated
      exact .inl ⟨res, hres, hlive⟩
    · cases hfailed.symm.trans hcreated
  | none =>
    obtain ⟨rfl, hmade⟩ := Broadcast.step_of_uncached hone (h.wellFormed hc hlasts) hi hl hslot
      hcached hcreated
    exact .inr ⟨by rw [Supply.toNat_nextId hlasts]; exact Nat.lt_succ_self _, hmade⟩

/-- A creation under the key of a live instance enrols nothing, since the type of the instance has a
schema. -/
theorem enrolled_of_live (h : Run (.opened config supply) past b)
    (hc : ∀ m ∈ past, m.action.IsCompiled) {action : Action} {slot : CacheSlot}
    (hslot : action.slot? = some slot) {x : ResourceId} {res : Resource}
    (hres : b.registry.resource? x = some res) (hlive : res.slot? = some slot)
    (hinstance : ∀ schema, action.schema? = some schema →
      ∃ own bytes, res.storage = .fields own bytes) :
    action.enrolled b.registry = b.registry.schemas := by
  refine Action.enrolled_eq fun schema hschema => ?_
  obtain ⟨own, bytes, hstorage⟩ := hinstance schema hschema
  obtain ⟨htype, -, known, hknown, -⟩ := h.isKnown hc x res hres own
    (Resource.frame_mould hstorage)
  obtain ⟨key, -, rfl⟩ := Option.map_eq_some_iff.mp hlive
  have hname : res.type = schema.name := Action.type_of_slot? hslot hschema
  rw [← hname, show res.type = own.name from htype, hknown]
  rfl

/-- What was live under a key and is gone was there before whatever is live under the key, which was
made when the other was gone. -/
theorem lt_of_gone (h : Run (.opened config supply) past b)
    (hc : ∀ m ∈ past, m.action.IsCompiled) (hl : b.registry.supply.Lasts) {slot : CacheSlot}
    {m : Moment} (hm : m ∈ past) {x : ResourceId} {res : Resource}
    (hres : m.before.registry.resource? x = some res) (hlive : res.slot? = some slot)
    (hnone : b.registry.resource? x = none) {y : ResourceId} {res' : Resource}
    (hres' : b.registry.resource? y = some res') (hlive' : res'.slot? = some slot) :
    x < y ∧ ∃ m' ∈ past, m'.Draws y ∧ m'.after.registry.resource? x = none := by
  obtain ⟨later, earlier, rfl, hbefore, hissued⟩ := h.before_of_mem hc hm
  have hrest : ∀ m' ∈ earlier, m'.action.IsCompiled := fun m' hm' =>
    hc m' (List.mem_append_right _ (List.mem_cons_of_mem _ hm'))
  have hbegun := hl.mono hissued
  have hunmade : m.before.registry.resource? y = none := by
    cases hold : m.before.registry.resource? y with
    | none => rfl
    | some old =>
      have hagree := (hbefore.indexesFull hrest hbegun).agree (hbefore.indexesLive hrest hbegun)
      have hsame := (h.slot?_of_mem hc hl hm hold hres').symm.trans hlive'
      rw [hagree.eq_of_slot? hres hold hlive hsame, hres'] at hnone
      cases hnone
  exact ⟨(h.makings hc hl).ordered m hm x y res res' hres hunmade hres',
    h.made_later hc hl slot m hm x res hres hlive hnone y res' hres' hlive'⟩

/-- Whatever was done, a creation under a key hands back what is live there and changes nothing, or
makes something new if nothing is. What is removed is never handed back, while fewer than `2 ^ 32 - 1`
numbers have been given out. -/
theorem caches_creations (h : Run (.opened config supply) past b)
    (hc : ∀ m ∈ past, m.action.IsCompiled) {action : Action} (hone : action.IsCompiled)
    (hl : (b.step action).2.registry.supply.Lasts) {slot : CacheSlot}
    (hslot : action.slot? = some slot) : b.Caches past action slot := by
  have hlasts := hl.mono (b.issued_le_step hone)
  have hagree := (h.indexesFull hc hlasts).agree (h.indexesLive hc hlasts)
  have hhit {x : ResourceId} {res : Resource} (hres : b.registry.resource? x = some res)
      (hlive : res.slot? = some slot) := Broadcast.step_of_cached hone hslot
    (hagree.cached?_of_slot? hres hlive)
  have hanswer {id : ResourceId} (hcreated : (b.step action).1 = .created id) :=
    h.created_under hc hone hl hslot hcreated
  constructor
  · exact fun x res hres hlive => (hhit hres hlive).symm
  · intro x res hres hlive hinstance
    refine (hhit hres hlive).1.trans ?_
    rw [h.enrolled_of_live hc hslot hres hlive hinstance]
  · intro hnone id hcreated
    rcases hanswer hcreated with ⟨res, hres, hlive⟩ | hfresh
    · exact absurd hlive (hnone id res hres)
    · exact hfresh
  · intro x hissued hnone hcreated
    rcases hanswer hcreated with ⟨res, hres, -⟩ | ⟨hnew, -⟩
    · rw [hnone] at hres
      cases hres
    · exact absurd hissued (Nat.not_le_of_lt hnew)
  · intro m hm x res hres hlive hnone id hcreated
    rcases hanswer hcreated with ⟨res', hres', hlive'⟩ | ⟨hnew, -⟩
    · obtain ⟨hlt, hmade⟩ := h.lt_of_gone hc hlasts hm hres hlive hnone hres' hlive'
      exact ⟨hlt, .inr hmade⟩
    · obtain ⟨later, earlier, rfl, hbefore, hissued⟩ := h.before_of_mem hc hm
      have hx := ((hbefore.wellFormed (fun m' hm' =>
        hc m' (List.mem_append_right _ (List.mem_cons_of_mem _ hm'))) (hlasts.mono hissued)).numbered
          hres).2
      exact ⟨UInt32.lt_iff_toNat_lt.mpr (Nat.lt_of_le_of_lt (hx.trans hissued) hnew), .inl hnew⟩

end Run

namespace Samples

/-- A node that was created under a key, was removed together with its text, and was created anew. -/
def rekeyed : List Moment × Broadcast :=
  (Broadcast.opened ⟨.game, 4⟩ ⟨0, .initial⟩).play
    [.createInstance ⟨0, node⟩ [("name", .text "a")] { cacheKey? := some (.number 7) },
      .dispose 1,
      .createInstance ⟨0, node⟩ [("name", .text "a")] { cacheKey? := some (.number 7) }]

/-- The node is asked for once more, with a text that nothing has. -/
def askAgain : Action :=
  .createInstance ⟨0, node⟩ [("name", .text "b")] { cacheKey? := some (.number 7) }

theorem isCompiled_rekeyed : ∀ m ∈ rekeyed.1, m.action.IsCompiled :=
  Broadcast.isCompiled_play _ (by simp [Action.IsCompiled, isCompiled_node])

/-- The new node is handed back as it is, and nothing happens. -/
theorem caches_creations_rekeyed :
    rekeyed.2.Caches rekeyed.1 askAgain ⟨"node", .number 7⟩ ∧
      (rekeyed.2.step askAgain).1 = .created 3 ∧ (rekeyed.2.step askAgain).2 = rekeyed.2 ∧
      rekeyed.2.registry.resource? 1 = none := by
  have hnode : (rekeyed.2.registry.resource? 3).map (fun res => (res.slot?, res.storage)) =
      some (some ⟨"node", .number 7⟩, .fields ⟨0, node⟩ [4, 0, 0, 0, 0, 0, 0, 0]) := by
    decide +kernel
  obtain ⟨res, hres, heq⟩ := Option.map_eq_some_iff.mp hnode
  obtain ⟨hlive, hstorage⟩ := Prod.mk.inj heq
  have hcompiled : askAgain.IsCompiled := isCompiled_node
  have hslot : askAgain.slot? = some ⟨"node", .number 7⟩ := rfl
  have hcaches := Run.caches_creations (.play _ _) isCompiled_rekeyed hcompiled (by decide +kernel)
    hslot
  exact ⟨hcaches, by decide +kernel,
    hcaches.still 3 res hres hlive fun _ _ => ⟨_, _, hstorage⟩, by decide +kernel⟩

/-- A node that was created under a key and removed, after which all other numbers were drawn
elsewhere. -/
def agedKey : List Moment × Broadcast :=
  (Broadcast.opened ⟨.game, 4⟩ ⟨0, .initial⟩).play
    [.createInstance ⟨0, node⟩ [] { cacheKey? := some (.number 7) },
      .dispose 1,
      .elsewhere (2 ^ 32 - 1) .initial]

theorem isCompiled_agedKey : ∀ m ∈ agedKey.1, m.action.IsCompiled :=
  Broadcast.isCompiled_play _ (by simp [Action.IsCompiled, isCompiled_node])

/-- Where the numbers have come around, the next creation under the key gets the number of what was
removed. -/
theorem renumbers_agedKey :
    Run (.opened ⟨.game, 4⟩ ⟨0, .initial⟩) agedKey.1 agedKey.2 ∧
      (∀ m ∈ agedKey.1, m.action.IsCompiled) ∧
      (∃ m ∈ agedKey.1, (m.before.registry.resource? 1).map Resource.slot? =
        some (some ⟨"node", .number 7⟩)) ∧
      agedKey.2.registry.resource? 1 = none ∧ (agedKey.2.step askAgain).1 = .created 1 ∧
      ¬agedKey.2.Caches agedKey.1 askAgain ⟨"node", .number 7⟩ := by
  have hanswer : (agedKey.2.step askAgain).1 = .created 1 := by decide +kernel
  have hnone : agedKey.2.registry.resource? 1 = none := by decide +kernel
  refine ⟨.play _ _, isCompiled_agedKey, by decide +kernel, hnone, hanswer, fun hcaches => ?_⟩
  exact hcaches.gone 1 (by decide +kernel) hnone hanswer

end Samples

end Framecast
