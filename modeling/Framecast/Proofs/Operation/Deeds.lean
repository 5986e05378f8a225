import Framecast.Proofs.Operation.Instance

/-!
# What an operation comes to

An operation of the host that takes no answers in is a chain of strokes, or adds a
resource. An instance that is being created is a draft at first: it was sent nowhere,
nobody awaits it and it has no hook, and other resources are stroked meanwhile. In the
end either the draft is gone again or the instance is sent and has its hook.
-/

namespace Framecast

namespace Registry

variable {r after : Registry}

/-- A stroke takes no answer in. -/
theorem Stroke.acks (h : r.Stroke after) : after.acks = r.acks := by
  cases h with
  | declare => rfl
  | touch => exact acks_modifyResource _ _ _
  | add h => exact h.acks
  | @remove _ res _ =>
    obtain ⟨_, heq⟩ := remove_eq res r
    rw [heq]
    unfold Registry.acks
    apply List.ext_getElem?
    intro k
    simp [Link.enqueue, Function.comp_def]

theorem Strokes.acks (h : r.Strokes after) : after.acks = r.acks := by
  induction h with
  | refl => rfl
  | tail _ hstep ih => exact hstep.acks.trans ih

/-- What each stroke keeps while numbers last, a chain of them keeps. -/
theorem Strokes.keep {P : Registry → Prop} (h : r.Strokes after) (hl : after.supply.Lasts)
    (hstep : ∀ s s', r.supply.issued ≤ s.supply.issued → s'.supply.Lasts → s.Stroke s' → P s → P s')
    (hP : P r) : P after := by
  induction h with
  | refl => exact hP
  | @tail s s' hs hone ih =>
    exact hstep s s' (Strokes.issued_le hs) hl hone (ih (hl.mono hone.issued_le))

/-- A registry to which a draft was added under the next number. -/
structure Drafts (r entered : Registry) (res : Resource) : Prop extends
    r.Places entered r.supply.nextId res where
  /-- It carries the number. -/
  keyed : res.id = r.supply.nextId
  /-- It has no hook yet. -/
  hook : res.hook? = none
  /-- It awaits nobody yet. -/
  load : res.load = .pending 0
  /-- Nobody waits for it. -/
  waiters : res.waiters = []
  /-- One number is given out. -/
  supply : entered.supply = r.supply.draw

/-- An instance that is entered is a draft. -/
theorem drafts_enterInstance (r : Registry) (schema : Schema) (bytes : Bytes) (options : Options) :
    r.Drafts (r.enterInstance schema bytes options).2
      ⟨r.supply.nextId, schema.name,
        options.name?.getD (defaultName schema.name r.supply.nextId), 0, .fields schema bytes,
        options.cacheKey?, none, [], .pending 0, []⟩ :=
  ⟨places_insert r schema.name (.fields schema bytes) { options with hook? := none }, rfl, rfl,
    rfl, rfl, rfl⟩

/-- What an operation comes to. If it adds a resource that the host may have given a hook, this says
the number and the hook. -/
inductive Deed (r : Registry) : Registry → Option (ResourceId × Option String) → Prop
  /-- Nothing is added but what has no hook. -/
  | strokes {after : Registry} (h : r.Strokes after) : Deed r after none
  /-- A resource is added. -/
  | adds {after : Registry} {res : Resource} (h : r.Adds after res) :
    Deed r after (some (r.supply.nextId, res.hook?))
  /-- A draft is added and is gone again. -/
  | drops {mid entered after : Registry} {res : Resource} (hmid : r.Strokes mid)
      (hdraft : mid.Drafts entered res) (hfilled : entered.Strokes after)
      (hgone : after.resource? mid.supply.nextId = none) : Deed r after none
  /-- A draft is added, gets its hook and is sent. -/
  | sends {mid entered filled after : Registry} {res old : Resource} {hook? : Option String}
      {bindings : List Binding} (hmid : r.Strokes mid) (hdraft : mid.Drafts entered res)
      (hfilled : entered.Strokes filled) (hold : filled.resource? mid.supply.nextId = some old)
      (hsent : filled.Places after mid.supply.nextId
        { old with hook?, bindings, load := awaiting bindings })
      (hsupply : after.supply = filled.supply) :
    Deed r after (some (mid.supply.nextId, hook?))

/-- No deed takes a number back. -/
theorem Deed.issued_le {new? : Option (ResourceId × Option String)} (h : r.Deed after new?) :
    r.supply.issued ≤ after.supply.issued := by
  have hdrafted {mid entered : Registry} {res : Resource} (hmid : r.Strokes mid)
      (hdraft : mid.Drafts entered res) : r.supply.issued ≤ entered.supply.issued := by
    rw [hdraft.supply]
    exact (Strokes.issued_le hmid).trans (Nat.le_succ _)
  cases h with
  | strokes h => exact Strokes.issued_le h
  | adds h =>
    rw [h.supply]
    exact Nat.le_succ _
  | drops hmid hdraft hfilled _ => exact (hdrafted hmid hdraft).trans (Strokes.issued_le hfilled)
  | sends hmid hdraft hfilled _ _ hsupply =>
    rw [hsupply]
    exact (hdrafted hmid hdraft).trans (Strokes.issued_le hfilled)

/-- A deed takes no answer in. -/
theorem Deed.acks {new? : Option (ResourceId × Option String)} (h : r.Deed after new?) :
    after.acks = r.acks := by
  cases h with
  | strokes h => exact Strokes.acks h
  | adds h => exact h.acks
  | drops hmid hdraft hfilled _ =>
    exact (Strokes.acks hfilled).trans (hdraft.acks.trans (Strokes.acks hmid))
  | sends hmid hdraft hfilled _ hsent _ =>
    exact hsent.acks.trans ((Strokes.acks hfilled).trans (hdraft.acks.trans (Strokes.acks hmid)))

/-- What is added has a number that was not given out before. -/
theorem Deed.issued_lt {id : ResourceId} {hook? : Option String}
    (h : r.Deed after (some (id, hook?))) (hl : after.supply.Lasts) :
    r.supply.issued < id.toNat := by
  cases h with
  | adds h =>
    rw [Supply.toNat_nextId (h.supply ▸ hl).of_draw]
    exact Nat.lt_succ_self _
  | sends hmid hdraft hfilled _ _ hsupply =>
    rw [hsupply] at hl
    have hlmid := hl.mono (Strokes.issued_le hfilled)
    rw [hdraft.supply] at hlmid
    rw [Supply.toNat_nextId hlmid.of_draw]
    exact Nat.lt_succ_of_le (Strokes.issued_le hmid)

/-- Something that may not hold of a draft, if there is one, is kept by a deed if strokes keep it, if
what is added has it, and if a draft has it when it is sent. In the end it may say something of what
was added. -/
theorem Deed.keep {P : Option ResourceId → Registry → Prop}
    {Q : Option (ResourceId × Option String) → Registry → Prop}
    {new? : Option (ResourceId × Option String)} (h : r.Deed after new?) (hl : after.supply.Lasts)
    (hstroke : ∀ draft? s s', r.supply.issued ≤ s.supply.issued →
      (∀ d, draft? = some d → d.toNat ≤ s.supply.issued) → s'.supply.Lasts → s.Stroke s' →
      P draft? s → P draft? s')
    (hkept : ∀ s, P none s → Q none s)
    (hadds : ∀ s' res, s'.supply.Lasts → r.Adds s' res → P none r →
      Q (some (r.supply.nextId, res.hook?)) s')
    (hdraft : ∀ s s' res, r.supply.issued ≤ s.supply.issued → s'.supply.Lasts → s.Drafts s' res →
      P none s → P (some s.supply.nextId) s')
    (hgone : ∀ d s, s.resource? d = none → P (some d) s → Q none s)
    (hsent : ∀ d s s' old hook? bindings, r.supply.issued < d.toNat → s.resource? d = some old →
      s.Places s' d { old with hook?, bindings, load := awaiting bindings } →
      s'.supply = s.supply → P (some d) s → Q (some (d, hook?)) s')
    (hP : P none r) : Q new? after := by
  have hfill {mid entered filled : Registry} {res : Resource} (hmid : r.Strokes mid)
      (hdrafted : mid.Drafts entered res) (hfilled : entered.Strokes filled)
      (hl : filled.supply.Lasts) :
      r.supply.issued < mid.supply.nextId.toNat ∧ P (some mid.supply.nextId) filled := by
    have hlentered : entered.supply.Lasts := hl.mono (Strokes.issued_le hfilled)
    have hlmid : mid.supply.Lasts := .of_draw (hdrafted.supply ▸ hlentered)
    have hid := Supply.toNat_nextId hlmid
    have hissued := Strokes.issued_le hmid
    have hPmid := Strokes.keep hmid hlmid
      (fun s s' hs hl' hone => hstroke none s s' hs (fun _ hd => by cases hd) hl' hone) hP
    have hPentered := hdraft mid entered res hissued hlentered hdrafted hPmid
    have hgrown : mid.supply.issued + 1 = entered.supply.issued := by
      rw [hdrafted.supply]
      rfl
    refine ⟨by omega, Strokes.keep hfilled hl (fun s s' hs hl' hone =>
      hstroke _ s s' (by omega) (fun d hd => ?_) hl' hone) hPentered⟩
    cases hd
    omega
  cases h with
  | strokes h =>
    exact hkept after (Strokes.keep h hl
      (fun s s' hs hl' hone => hstroke none s s' hs (fun _ hd => by cases hd) hl' hone) hP)
  | adds h => exact hadds after _ hl h hP
  | drops hmid hdrafted hfilled hnone =>
    exact hgone _ after hnone (hfill hmid hdrafted hfilled hl).2
  | @sends _ _ filled _ _ _ _ _ hmid hdrafted hfilled hold hplaced hsupply =>
    obtain ⟨hnew, hPfilled⟩ := hfill hmid hdrafted hfilled (hsupply ▸ hl)
    exact hsent _ filled after _ _ _ hnew hold hplaced hsupply hPfilled

/-- Giving a resource its hook places it. -/
theorem places_hook {id : ResourceId} {res : Resource} (h : r.resource? id = some res)
    (hook? : Option String) :
    r.Places (r.modifyResource id fun resource => { resource with hook? }) id { res with hook? } := by
  have hlookup := resource?_modifyResource r id fun resource => { resource with hook? }
  obtain ⟨_, heq⟩ := modifyResource_eq r id fun resource => { resource with hook? }
  refine ⟨?_, fun x hx => (hlookup x).trans (if_neg hx), by rw [heq], by rw [heq], by simp,
    by rw [heq], by rw [heq]⟩
  rw [hlookup, if_pos rfl, h]
  rfl

/-- Filling an instance ends with its being sent, if it is there when all values were written. If it
is gone by then, or a write has failed, it is not there in the end. -/
theorem ends_fillInstance_of {id : ResourceId} {values : List (Property × Value)} {options : Options}
    {good : ResourceId → Registry → Prop} {bad : ResourceError → Registry → Prop}
    (h : Ends (writeEach id values) r
      (fun _ filled => (filled.resource? id = none → ∀ e, bad e filled) ∧
        ∀ old bindings after, filled.resource? id = some old →
          filled.Places after id
            { old with hook? := options.hook?, bindings, load := awaiting bindings } →
          after.supply = filled.supply → good id after)
      (fun e failed => bad e (failed.destroy id))) :
    Ends (fillInstance id values options) r good bad := by
  unfold fillInstance
  rw [Ends.bind_iff, ends_writeAll_iff]
  refine h.imp ?_ fun _ _ h => h
  rintro _ filled ⟨hgone, hsent⟩
  rw [Ends.bind_iff, Ends.modify_iff, Ends.bind_iff, Ends.get_iff, Ends.bind_iff]
  cases hold : filled.resource? id with
  | none =>
    rw [modifyResource_of_none hold]
    refine (ends_bind_of_none hold _).imp (fun _ _ h => h.elim) ?_
    rintro e after rfl
    exact hgone hold e
  | some old =>
    have hhooked := places_hook hold options.hook?
    refine (ends_bind_places hhooked.found _).imp ?_ fun _ _ h => h.elim
    rintro _ after ⟨hsupply, bindings, hplaced⟩
    rw [Ends.pure_iff]
    rw [supply_modifyResource] at hsupply
    exact hsent old bindings after hold (hhooked.trans hplaced) hsupply

/-- A draft that is filled and sent, or is gone again. -/
theorem ends_fillInstance_deed {mid entered : Registry} {res : Resource} {schema : Schema}
    (hmid : r.Strokes mid) (hdraft : mid.Drafts entered res) (hw : entered.WellFormed)
    (hf : entered.Filling mid.supply.nextId schema) (hsound : schema.layout.IsSound)
    {values : List (Property × Value)} (hvalues : ∀ given ∈ values, given.1 ∈ schema.layout.props)
    (options : Options) :
    Ends (fillInstance mid.supply.nextId values options) entered
      (fun id after => after.supply.Lasts → id = mid.supply.nextId ∧
        r.Deed after (some (mid.supply.nextId, options.hook?)))
      (fun _ after => after.supply.Lasts → r.Deed after none) := by
  apply ends_fillInstance_of
  refine ((spans_acts.writeEach mid.supply.nextId values entered).and
    (ends_writeEach hw hf hsound hvalues)).imp ?_ ?_
  · rintro _ filled ⟨hacts, -⟩
    refine ⟨fun hnone _ _ => .drops hmid hdraft (Acts.strokes hacts) hnone, ?_⟩
    exact fun old bindings after hold hplaced hsupply _ =>
      ⟨rfl, .sends hmid hdraft (Acts.strokes hacts) hold hplaced hsupply⟩
  · rintro _ filled ⟨hacts, hwrites⟩ hl
    rw [supply_destroy] at hl
    obtain ⟨limit, hwrites⟩ := hwrites hl
    obtain ⟨hwfilled, -⟩ := hwrites.filling hw hl hf
    exact .drops hmid hdraft ((Acts.strokes hacts).trans (strokes_destroy filled _))
      (resource?_destroy_self hwfilled hl _)

/-- Creating an instance comes to adding it, or to nothing but its schema if it is cached. -/
theorem ends_createInstance_deed {schema : Schema} (hw : r.WellFormed)
    (hsound : schema.layout.IsSound) (props : List (String × Value)) (options : Options) :
    Ends (createInstance schema props options) r
      (fun id after => after.supply.Lasts → r.Deed after (some (id, options.hook?)) ∨
        r.Deed after none ∧ r.cached? schema.name options.cacheKey? = some id)
      (fun _ after => after.supply.Lasts → r.Deed after none) := by
  have hdeclare (schemas : Std.TreeMap String Schema) : r.Strokes { r with schemas } :=
    .single (.declare schemas r.loaderTypes (Nat.le_refl _))
  apply ends_createInstance_filling hw hsound
  · exact fun id schemas hcached => .inr ⟨.strokes (hdeclare schemas), hcached⟩
  · exact fun _ schemas => .strokes (hdeclare schemas)
  · rintro schemas bytes values hdrafted _ rfl - hwentered hf
    have hdraft := drafts_enterInstance { r with schemas } schema bytes options
    refine (ends_fillInstance_deed (hdeclare schemas) hdraft hwentered hf hsound
      hdrafted.mem_props options).imp ?_ fun _ _ h => h
    intro id after h hl
    obtain ⟨rfl, hdeed⟩ := h hl
    exact .inl hdeed

/-- Creating an opaque resource adds it as it was asked for, or does nothing if it is cached. -/
theorem ends_createOpaque_adds (thread : Thread) (type : String) (p : Payload) (options : Options)
    (r : Registry) :
    Ends (createOpaque thread type p options) r
      (fun id after => after = r ∧ r.cached? type options.cacheKey? = some id ∨
        id = r.supply.nextId ∧ ∃ res, r.Adds after res ∧ res.hook? = options.hook? ∧
          res.mould = ⟨type, options.cacheKey?, .payload p⟩)
      (fun _ after => after = r) := by
  unfold createOpaque
  rw [Ends.bind_iff, Ends.get_iff]
  cases r.linkTo? thread with
  | none => rfl
  | some position =>
    dsimp only
    split
    · rfl
    · cases hcached : r.cached? type options.cacheKey? with
      | some id => exact .inl ⟨rfl, rfl⟩
      | none =>
        exact (ends_spawn_adds type (.payload p) options [position] r).imp
          (fun _ _ h => .inr h) fun _ _ h => h.elim

/-- Creating an opaque resource comes to adding it, or to nothing if it is cached. -/
theorem ends_createOpaque_deed (thread : Thread) (type : String) (p : Payload) (options : Options)
    (r : Registry) :
    Ends (createOpaque thread type p options) r
      (fun id after => r.Deed after (some (id, options.hook?)) ∨
        r.Deed after none ∧ r.cached? type options.cacheKey? = some id)
      (fun _ after => r.Deed after none) := by
  apply (ends_createOpaque_adds thread type p options r).imp
  · rintro id after (⟨rfl, hcached⟩ | ⟨rfl, res, hadds, hhook, -⟩)
    · exact .inr ⟨.strokes .refl, hcached⟩
    · exact .inl (hhook ▸ .adds hadds)
  · rintro _ after rfl
    exact .strokes .refl

end Registry

end Framecast
