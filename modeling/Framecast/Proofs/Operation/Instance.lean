import Framecast.Proofs.Operation.Writing

/-!
# Instances as chains of elementary changes

A new instance is entered with bytes that hold nothing, the values that are not
plain are written to it one after another, and only then it is sent to the links.
If a write fails, the instance is destroyed again.
-/

namespace Framecast

namespace Registry

variable {r : Registry} {id : ResourceId} {schema : Schema} {options : Options}

/-- The schemas once one was asked for: it is entered if its type had none. -/
def enrolled (r : Registry) (schema : Schema) : Std.TreeMap String Schema :=
  match r.schemas[schema.name]? with
  | some _ => r.schemas
  | none => r.schemas.insert schema.name schema

/-- Whether the schema that is entered for a type agrees with one for this type. -/
def Knows (r : Registry) (schema : Schema) : Prop :=
  ∃ known, r.schemas[schema.name]? = some known ∧ known.agrees schema = true

/-- Entering a schema changes nothing else, and it is known then or another one was known before. -/
theorem ends_registerSchema (schema : Schema) (r : Registry) :
    Ends (registerSchema schema) r
      (fun _ after => after = { r with schemas := r.enrolled schema } ∧ after.Knows schema)
      (fun _ after => after = { r with schemas := r.enrolled schema }) := by
  unfold registerSchema
  rw [Ends.bind_iff, Ends.get_iff]
  cases hknown : r.schemas[schema.name]? with
  | some known =>
    have hsame : r = { r with schemas := r.enrolled schema } := by
      unfold enrolled
      rw [hknown]
    dsimp only
    split
    · exact hsame
    · rename_i hagrees
      exact ⟨hsame, known, hknown, by simpa using hagrees⟩
  | none =>
    refine ⟨?_, schema, ?_, schema.agrees_self⟩
    · unfold enrolled
      rw [hknown]
    · exact Std.TreeMap.getElem?_insert_self

/-- A value that was checked against the property it is meant for. -/
structure Checked (r : Registry) (schema : Schema) (given : String × Value)
    (found : Property × Value) : Prop where
  /-- The property is one of the schema. -/
  mem : found.1 ∈ schema.layout.props
  /-- It has the given name. -/
  name : found.1.name = given.1
  /-- The value is the given one. -/
  value : found.2 = given.2
  /-- The property accepts it. -/
  valid : found.1.validate found.2 = .ok ()
  /-- The references in it lead to live resources, if the property declares a target. -/
  targets : ∀ expected, found.1.target? = some expected → ∀ x ∈ targetsOf found.2,
    ∃ target, r.resource? x = some target ∧ target.type = expected

/-- Checking a supplied value changes nothing and finds one of the properties. -/
theorem ends_checkSupplied (schema : Schema) (given : String × Value) (r : Registry) :
    Ends (checkSupplied schema given) r
      (fun found after => after = r ∧ r.Checked schema given found) (fun _ after => after = r) := by
  unfold checkSupplied
  cases hp : schema.layout.prop? given.1 with
  | none => rfl
  | some prop =>
    obtain ⟨hmem, hname⟩ := Layout.mem_of_prop? hp
    dsimp only
    rw [Ends.bind_iff]
    apply (ends_liftSchema _ r).imp
    · rintro _ r ⟨rfl, hvalid⟩
      rw [Ends.bind_iff]
      apply (ends_checkTargets prop given.2 r).imp
      · rintro _ r ⟨rfl, htargets⟩
        exact ⟨rfl, hmem, hname, rfl, hvalid, htargets⟩
      · exact fun _ _ h => h
    · exact fun _ _ h => h

/-- Checking all supplied values changes nothing and finds properties of the schema. -/
theorem ends_mapM_checkSupplied (schema : Schema) (props : List (String × Value)) (r : Registry) :
    Ends (props.mapM (checkSupplied schema)) r
      (fun supplied after => after = r ∧ List.Forall₂ (r.Checked schema) props supplied)
      (fun _ after => after = r) := by
  induction props with
  | nil => exact ⟨rfl, .nil⟩
  | cons given rest ih =>
    rw [List.mapM_cons, Ends.bind_iff]
    apply (ends_checkSupplied schema given r).imp
    · rintro found r ⟨rfl, hfound⟩
      rw [Ends.bind_iff]
      apply ih.imp
      · rintro supplied r ⟨rfl, hsupplied⟩
        exact ⟨rfl, .cons hfound hsupplied⟩
      · exact fun _ _ h => h
    · exact fun _ _ h => h

/-- Encoding plain values sets one after another and keeps blank storage blank. -/
theorem ends_foldlM_encodeSupplied (hsound : schema.layout.IsSound)
    {plain : List (Property × Value)} (hplain : ∀ given ∈ plain, given.1 ∈ schema.layout.props)
    {storage : Bytes} (hblank : schema.layout.IsBlank storage) (r : Registry) :
    Ends (plain.foldlM encodeSupplied storage) r
      (fun bytes after => after = r ∧ schema.layout.IsBlank bytes ∧
        bytes = plain.foldl Property.setPlain storage) (fun _ after => after = r) := by
  induction plain generalizing storage with
  | nil => exact ⟨rfl, hblank, rfl⟩
  | cons given rest ih =>
    rw [List.foldlM_cons]
    unfold encodeSupplied
    simp only [Ends.bind_iff]
    apply (ends_liftSchema _ r).imp
    · rintro part r ⟨rfl, hpart⟩
      rw [Ends.pure_iff, List.foldl_cons, ← Property.splice_eq_setPlain hpart]
      exact ih (fun one hone => hplain one (List.mem_cons_of_mem _ hone))
        (hblank.splice hsound (hplain given List.mem_cons_self)
          (given.1.isPlain_of_encodePlain hpart) (given.1.length_encodePlain hpart))
    · exact fun _ _ h => h

/-- The writes that wait are writes to properties of the schema. -/
theorem mem_of_deferred {layout : Layout} {supplied : List (Property × Value)}
    (h : ∀ given ∈ supplied, given.1 ∈ layout.props) :
    ∀ given ∈ deferred layout supplied, given.1 ∈ layout.props := by
  intro given hgiven
  rcases List.mem_append.mp hgiven with hgiven | hgiven
  · exact h given (List.mem_filter.mp hgiven).1
  · obtain ⟨prop, hprop, hdefault⟩ := List.mem_filterMap.mp hgiven
    unfold deferredDefault at hdefault
    split at hdefault
    · cases hdefault
    · obtain ⟨value, -, rfl⟩ := Option.map_eq_some_iff.mp hdefault
      exact hprop

theorem quiet_schemas (r : Registry) (schemas : Std.TreeMap String Schema) :
    r.Quiet { r with schemas } :=
  ⟨fun _ => rfl, rfl, rfl, rfl, rfl, rfl, rfl, Nat.le_refl _⟩

/-- What a creation writes once its values were checked. -/
structure Drafted (r : Registry) (schema : Schema) (props : List (String × Value))
    (options : Options) (bytes : Bytes) (values : List (Property × Value)) : Prop where
  /-- The bytes hold nothing. -/
  blank : schema.layout.IsBlank bytes
  /-- Nothing is cached under the key of the new instance. -/
  uncached : r.cached? schema.name options.cacheKey? = none
  /-- The values that wait come from those that were supplied, all of which were checked, and the
  bytes are the default ones with the other supplied values set. -/
  values : ∃ supplied, List.Forall₂ (r.Checked schema) props supplied ∧
    values = deferred schema.layout supplied ∧
    bytes = (supplied.filter fun s => s.1.kind.isPlain).foldl Property.setPlain
      schema.layout.defaultBytes

/-- Each value among those that were checked was checked. -/
theorem exists_checked {props : List (String × Value)} {supplied : List (Property × Value)}
    (h : List.Forall₂ (r.Checked schema) props supplied) :
    ∀ found ∈ supplied, ∃ given, r.Checked schema given found := by
  induction h with
  | nil => exact fun _ h => nomatch h
  | cons hone _ ih =>
    intro found hfound
    rcases List.mem_cons.mp hfound with rfl | hfound
    · exact ⟨_, hone⟩
    · exact ih found hfound

/-- Values that were checked are for properties of the schema. -/
theorem mem_of_checked {props : List (String × Value)} {supplied : List (Property × Value)}
    (h : List.Forall₂ (r.Checked schema) props supplied) :
    ∀ found ∈ supplied, found.1 ∈ schema.layout.props := by
  intro found hfound
  obtain ⟨_, hchecked⟩ := exists_checked h found hfound
  exact hchecked.mem

/-- What is written is written to properties of the schema. -/
theorem Drafted.mem_props {props : List (String × Value)} {bytes : Bytes}
    {values : List (Property × Value)} (h : r.Drafted schema props options bytes values) :
    ∀ given ∈ values, given.1 ∈ schema.layout.props := by
  obtain ⟨supplied, hsupplied, rfl, -⟩ := h.values
  exact mem_of_deferred (mem_of_checked hsupplied)

/-- How the draft of an instance ends. -/
theorem ends_draft (hsound : schema.layout.IsSound) (props : List (String × Value))
    (options : Options) (r : Registry) :
    Ends (draft schema props options) r
      (fun drafted after => after = { r with schemas := r.enrolled schema } ∧ after.Knows schema ∧
        (∀ id, drafted = .cached id → r.cached? schema.name options.cacheKey? = some id) ∧
        ∀ bytes values, drafted = .fresh bytes values →
          r.Drafted schema props options bytes values)
      (fun _ after => after = { r with schemas := r.enrolled schema }) := by
  unfold draft
  rw [Ends.bind_iff]
  apply (ends_registerSchema schema r).imp
  · rintro _ after ⟨rfl, hknows⟩
    rw [Ends.bind_iff]
    apply (ends_mapM_checkSupplied schema props _).imp
    · rintro supplied _ ⟨rfl, hsupplied⟩
      rw [Ends.bind_iff]
      unfold checkRequired
      cases schema.layout.props.find? fun p => p.required && !isSupplied supplied p with
      | some missing => exact rfl
      | none =>
        dsimp only
        rw [Ends.pure_iff, Ends.bind_iff, Ends.get_iff]
        cases hcached : ({ r with schemas := r.enrolled schema } : Registry).cached? schema.name
            options.cacheKey? with
        | some id =>
          refine ⟨rfl, hknows, fun found h => ?_, fun bytes values h => ?_⟩
          · cases h
            exact hcached
          · cases h
        | none =>
          dsimp only
          rw [Ends.bind_iff]
          have hfilter : ∀ given ∈ supplied.filter fun s => s.1.kind.isPlain,
              given.1 ∈ schema.layout.props :=
            fun given hgiven => mem_of_checked hsupplied given (List.mem_filter.mp hgiven).1
          apply (ends_foldlM_encodeSupplied hsound hfilter
            (Layout.isBlank_defaultBytes hsound) _).imp
          · rintro bytes _ ⟨rfl, hblank, hbytes⟩
            refine ⟨rfl, hknows, fun id h => ?_, fun bytes' values h => ?_⟩
            · cases h
            · cases h
              have hchecked : List.Forall₂ (r.Checked schema) props supplied :=
                hsupplied.imp fun _ _ h => ⟨h.mem, h.name, h.value, h.valid, h.targets⟩
              exact ⟨hblank, hcached, supplied, hchecked, rfl, hbytes⟩
          · exact fun _ _ h => h
    · exact fun _ _ h => h
  · exact fun _ _ h => h

/-- A creation ends with its draft, or as the filling of the instance ends that was entered. Its
schema is entered in any case, and agrees with the one that is known unless the creation fails. -/
theorem ends_createInstance_knows (hsound : schema.layout.IsSound) {props : List (String × Value)}
    {good : ResourceId → Registry → Prop} {bad : ResourceError → Registry → Prop}
    (hgood : ∀ id, ({ r with schemas := r.enrolled schema } : Registry).Knows schema →
      r.cached? schema.name options.cacheKey? = some id →
      good id { r with schemas := r.enrolled schema })
    (hbad : ∀ e, bad e { r with schemas := r.enrolled schema })
    (hfresh : ∀ bytes values, ({ r with schemas := r.enrolled schema } : Registry).Knows schema →
      (draft schema props options).run r =
        .ok (.fresh bytes values) { r with schemas := r.enrolled schema } →
      r.Drafted schema props options bytes values →
      Ends (fillInstance r.supply.nextId values options)
        (({ r with schemas := r.enrolled schema } : Registry).enterInstance schema bytes options).2
        good bad) :
    Ends (createInstance schema props options) r good bad := by
  have hdraft := ends_draft hsound props options r
  unfold createInstance
  rw [Ends.bind_iff]
  cases hrun : (draft schema props options).run r with
  | error e after =>
    obtain rfl := hdraft.of_error hrun
    unfold Ends
    rw [hrun]
    exact hbad e
  | ok drafted after =>
    obtain ⟨rfl, hknows, hcached, hvalues⟩ := hdraft.of_ok hrun
    unfold Ends
    rw [hrun]
    cases drafted with
    | cached id => exact hgood id hknows (hcached id rfl)
    | fresh bytes values =>
      exact hfresh bytes values hknows hrun (hvalues bytes values rfl)

/-- A creation ends with its draft, or as the filling of the instance ends that was entered. -/
theorem ends_createInstance_of (hsound : schema.layout.IsSound) {props : List (String × Value)}
    {good : ResourceId → Registry → Prop} {bad : ResourceError → Registry → Prop}
    (hgood : ∀ id schemas, r.cached? schema.name options.cacheKey? = some id →
      good id { r with schemas })
    (hbad : ∀ e schemas, bad e { r with schemas })
    (hfresh : ∀ schemas bytes values,
      (draft schema props options).run r = .ok (.fresh bytes values) { r with schemas } →
      r.Drafted schema props options bytes values →
      Ends (fillInstance r.supply.nextId values options)
        (({ r with schemas } : Registry).enterInstance schema bytes options).2 good bad) :
    Ends (createInstance schema props options) r good bad :=
  ends_createInstance_knows hsound (fun id _ hcached => hgood id _ hcached) (fun e => hbad e _)
    fun bytes values _ hrun hdrafted => hfresh _ bytes values hrun hdrafted

/-- A new instance as long as it is being filled: it was sent nowhere, but what it holds was. -/
structure Filling (r : Registry) (id : ResourceId) (schema : Schema) : Prop where
  /-- Its number was given out. -/
  issued : id.toNat ≤ r.supply.issued
  /-- It is an instance of its schema. -/
  isInstance : r.IsInstance id schema
  /-- It was sent nowhere. -/
  unsent : ∀ res, r.resource? id = some res → res.bindings = []
  /-- The raw buffers it holds were sent everywhere. -/
  buffers : ∀ k < r.links.length, ∀ res, r.resource? id = some res → r.BuffersSent res.storage k

/-- Entering an instance whose bytes hold nothing under a free key is an elementary change. -/
theorem edit_enterInstance (hsound : schema.layout.IsSound) {bytes : Bytes}
    (hblank : schema.layout.IsBlank bytes)
    (huncached : r.cached? schema.name options.cacheKey? = none) (strict : Prop)
    (writer : ResourceId) (outside taken : Multiset ResourceId) :
    Edit strict writer ⟨r, outside, taken⟩
      ⟨(r.enterInstance schema bytes options).2, outside, taken⟩ :=
  .enter schema.name { options with hook? := none } ⟨hsound, hblank.1⟩ hblank.2
    (schema.isNamed_name bytes) huncached

/-- An instance that was entered is being filled. -/
theorem filling_enterInstance (hl : r.supply.Lasts) {bytes : Bytes}
    (hblank : schema.layout.IsBlank bytes) (options : Options) :
    (r.enterInstance schema bytes options).2.Filling r.supply.nextId schema := by
  have hfound := resource?_insert r schema.name (.fields schema bytes)
    { options with hook? := none } r.supply.nextId
  rw [if_pos rfl] at hfound
  refine ⟨Nat.le_of_eq (Supply.toNat_nextId hl), ?_, ?_, ?_⟩
  · intro res hres
    cases hfound.symm.trans hres
    exact ⟨bytes, rfl⟩
  · intro res hres
    cases hfound.symm.trans hres
    rfl
  · intro k _ res hres schema' bytes' hs prop hprop _ x hx
    cases hfound.symm.trans hres
    cases hs
    have hmem : x ∈ schema.layout.heldIds bytes := List.mem_flatMap.mpr ⟨prop, hprop, hx⟩
    rw [hblank.2] at hmem
    cases hmem

end Registry

/-- An instance that is being filled and written to goes on being filled. -/
theorem Edits.filling {strict : Prop} {id : ResourceId} {schema : Schema} {b b' : Book}
    (h : Edits strict id b b') (hw : b.registry.WellFormed) (hl : b'.registry.supply.Lasts)
    (hf : b.registry.Filling id schema) : b'.registry.Filling id schema := by
  refine (h.keep (P := fun b => b.registry.Filling id schema) hw hl ?_ hf).2
  intro b₁ b₂ hw₁ _ hl₂ hstep hf₁
  refine ⟨hf₁.issued.trans hstep.issued_le, hstep.isInstance hw₁ hl₂ hf₁.issued hf₁.isInstance,
    hstep.bindings_writer hl₂ hf₁.issued hf₁.unsent, ?_⟩
  intro k hk
  rw [hstep.length_links] at hk
  exact hstep.buffersSent hw₁ hl₂ hk (hf₁.buffers k hk)

namespace Registry

variable {r : Registry} {id : ResourceId} {schema : Schema} {options : Options}

/-- One chain of writes after another is a chain of writes. -/
theorem Writes.trans {after later : Registry} {limit limit' : Multiset ResourceId}
    (h : r.Writes after id limit) (h' : after.Writes later id limit') :
    r.Writes later id (limit + limit') := by
  obtain ⟨more, hle, hedits⟩ := h
  obtain ⟨more', hle', hedits'⟩ := h'
  refine ⟨more' + more, ?_, fun strict outside taken => ?_⟩
  · rw [Multiset.add_comm]
    exact add_le_add hle hle'
  · rw [Multiset.add_assoc]
    exact (hedits strict outside taken).trans (hedits' strict outside (more + taken))

/-- What holds at the start of a chain of writes and while numbers last holds at its end. -/
theorem Writes.filling {after : Registry} {limit : Multiset ResourceId}
    (h : r.Writes after id limit) (hw : r.WellFormed) (hl : after.supply.Lasts)
    (hf : r.Filling id schema) : after.WellFormed ∧ after.Filling id schema := by
  obtain ⟨more, -, hedits⟩ := h
  exact ⟨(hedits True 0 0).changes.wellFormed hw hl, (hedits True 0 0).filling hw hl hf⟩

/-- Writing one value to an instance that is being filled. -/
theorem ends_writeProp_filling (hw : r.WellFormed) (hf : r.Filling id schema)
    (hsound : schema.layout.IsSound) {given : Property × Value}
    (hgiven : given.1 ∈ schema.layout.props) :
    Ends (writeProp id given.1 given.2) r
      (fun _ after => after.supply.Lasts → r.Writes after id (r.takes given.1 given.2))
      (fun _ after => after.supply.Lasts → r.Writes after id 0) :=
  ends_writeProp hw hf.issued hf.isInstance hgiven (hsound.sound given.1 hgiven) given.2

/-- Writing values to an instance that is being filled. -/
theorem ends_writeEach (hw : r.WellFormed) (hf : r.Filling id schema)
    (hsound : schema.layout.IsSound) {values : List (Property × Value)}
    (hvalues : ∀ given ∈ values, given.1 ∈ schema.layout.props) :
    Ends (writeEach id values) r
      (fun _ after => after.supply.Lasts → ∃ limit, r.Writes after id limit)
      (fun _ after => after.supply.Lasts → ∃ limit, r.Writes after id limit) := by
  unfold writeEach
  apply Ends.forM
  · intro given hgiven s hs
    apply (spans_acts.writeProp id given.1 given.2).grows.ends_of_lasts
    intro hl
    obtain ⟨limit, hwrites⟩ := hs hl
    obtain ⟨hw', hf'⟩ := hwrites.filling hw hl hf
    apply (ends_writeProp_filling hw' hf' hsound (hvalues given hgiven)).imp
    · exact fun _ after hafter hl' => ⟨_, hwrites.trans (hafter hl')⟩
    · exact fun _ after hafter hl' => ⟨_, hwrites.trans (hafter hl')⟩
  · exact fun _ => ⟨0, .refl _ _ _⟩

theorem ends_bind_of_none (h : r.resource? id = none) (positions : List Nat) :
    Ends (bind id positions) r (fun _ _ => False) (fun _ after => after = r) := by
  unfold bind find
  simp only [Ends.bind_iff, Ends.get_iff, h, Ends.throw_iff]

/-- Binding what is there does not fail. -/
theorem ends_bind_of_some {res : Resource} (h : r.resource? id = some res)
    (positions : List Nat) :
    Ends (bind id positions) r (fun _ _ => True) (fun _ _ => False) := by
  unfold bind find
  simp only [Ends.bind_iff, Ends.get_iff, h, Ends.pure_iff, Ends.modify_iff]

/-- How the end of a creation ends, when the values were written: the instance gets its hook and is
sent over every link. -/
theorem ends_sendInstance (hf : r.Filling id schema) (hook? : Option String) :
    Ends (do
        modify (·.modifyResource id fun resource => { resource with hook? })
        bind id (← get).allLinks
        return id) r
      (fun _ after => ∀ strict writer, id ≠ writer → ∀ outside taken,
        Edits strict writer ⟨r, outside, taken⟩ ⟨after, outside, taken⟩)
      (fun _ after => ∀ strict writer, id ≠ writer → ∀ outside taken,
        Edits strict writer ⟨r, outside, taken⟩ ⟨after, outside, taken⟩) := by
  have hquiet : r.Quiet (r.modifyResource id fun resource => { resource with hook? }) :=
    quiet_modifyResource r id fun _ => rfl
  rw [Ends.bind_iff, Ends.modify_iff, Ends.bind_iff, Ends.get_iff, Ends.bind_iff]
  have hlookup := resource?_modifyResource r id (fun resource => { resource with hook? }) id
  rw [if_pos rfl] at hlookup
  cases hres : r.resource? id with
  | none =>
    rw [hres, Option.map_none] at hlookup
    apply (ends_bind_of_none hlookup _).imp
    · exact fun _ _ h => h.elim
    · rintro _ after rfl
      exact fun strict writer _ outside taken => .single (.quiet hquiet)
  | some res =>
    rw [hres, Option.map_some] at hlookup
    refine (ends_bind hlookup List.nodup_range ?_ ?_).imp ?_ ?_
    · rintro k - ⟨b, hb, -⟩
      rw [show res.bindings = [] from hf.unsent res hres] at hb
      cases hb
    · intro k _ hk schema' bytes hs prop hprop hkind x hx
      rw [links_modifyResource] at hk
      obtain ⟨hissued, hbound⟩ := hf.buffers k hk res hres schema' bytes hs prop hprop hkind x hx
      refine ⟨by rwa [supply_modifyResource], fun target htarget => ?_⟩
      rw [resource?_modifyResource] at htarget
      split at htarget
      · rename_i hid
        rw [hres] at htarget
        cases htarget
        exact hbound res (hid ▸ hres)
      · exact hbound target htarget
    · exact fun _ after hsends strict writer hother outside taken =>
        .head (.quiet hquiet) (hsends.edits strict writer hother outside taken)
    · exact fun _ _ h => h.elim

/-- An instance that was drafted is being filled once it was entered. -/
theorem Drafted.entered {props : List (String × Value)} {bytes : Bytes}
    {values : List (Property × Value)} (h : r.Drafted schema props options bytes values)
    (hw : r.WellFormed) (hsound : schema.layout.IsSound) (schemas : Std.TreeMap String Schema)
    (hl : (({ r with schemas } : Registry).enterInstance schema bytes options).2.supply.Lasts) :
    (({ r with schemas } : Registry).enterInstance schema bytes options).2.WellFormed ∧
      (({ r with schemas } : Registry).enterInstance schema bytes options).2.Filling
        r.supply.nextId schema := by
  have hmid : ({ r with schemas } : Registry).WellFormed := ⟨hw.1, hw.2, hw.3, hw.4⟩
  have henter := edit_enterInstance (r := { r with schemas }) hsound h.blank h.uncached True 0 0 0
  exact ⟨henter.wellFormed hmid hl, filling_enterInstance (.of_draw hl) h.blank options⟩

/-- While numbers last, a creation ends with its draft, or as the filling ends of an instance that
was entered and holds nothing yet. -/
theorem ends_createInstance_filling (hw : r.WellFormed) (hsound : schema.layout.IsSound)
    {props : List (String × Value)} {good : ResourceId → Registry → Prop}
    {bad : ResourceError → Registry → Prop}
    (hgood : ∀ id schemas, r.cached? schema.name options.cacheKey? = some id →
      good id { r with schemas })
    (hbad : ∀ e schemas, bad e { r with schemas })
    (hfresh : ∀ schemas bytes values, r.Drafted schema props options bytes values →
      ∀ entered, entered = (({ r with schemas } : Registry).enterInstance schema bytes options).2 →
      entered.supply.Lasts → entered.WellFormed → entered.Filling r.supply.nextId schema →
      Ends (fillInstance r.supply.nextId values options) entered
        (fun id after => after.supply.Lasts → good id after)
        (fun e after => after.supply.Lasts → bad e after)) :
    Ends (createInstance schema props options) r
      (fun id after => after.supply.Lasts → good id after)
      (fun e after => after.supply.Lasts → bad e after) := by
  apply ends_createInstance_of hsound
  · exact fun id schemas hcached _ => hgood id schemas hcached
  · exact fun e schemas _ => hbad e schemas
  · intro schemas bytes values _ hdrafted
    apply (grows_fillInstance _ values options).ends_of_lasts
    intro hl
    obtain ⟨hwentered, hf⟩ := hdrafted.entered hw hsound schemas hl
    exact hfresh schemas bytes values hdrafted _ rfl hl hwentered hf

/-- Filling an instance conserves the references outside, however it ends. -/
theorem ends_fillInstance (hw : r.WellFormed) (hf : r.Filling id schema)
    (hsound : schema.layout.IsSound) {values : List (Property × Value)}
    (hvalues : ∀ given ∈ values, given.1 ∈ schema.layout.props) (options : Options) :
    Ends (fillInstance id values options) r
      (fun _ after => after.supply.Lasts → r.KeepsOutside after)
      (fun _ after => after.supply.Lasts → r.KeepsOutside after) := by
  unfold fillInstance
  rw [Ends.bind_iff, ends_writeAll_iff]
  apply (ends_writeEach hw hf hsound hvalues).imp
  · intro _ s hs
    apply (grows_sendInstance id options.hook?).ends_of_lasts
    intro hl
    obtain ⟨limit, hwrites⟩ := hs hl
    obtain ⟨-, hf'⟩ := hwrites.filling hw hl hf
    obtain ⟨writer, hwriter⟩ : ∃ writer, id ≠ writer := ⟨id + 1, by simp⟩
    have hsends {after : Registry} (h : ∀ strict writer, id ≠ writer → ∀ outside taken,
        Edits strict writer ⟨s, outside, taken⟩ ⟨after, outside, taken⟩) : r.KeepsOutside after :=
      hwrites.keepsOutside.trans fun outside taken =>
        ⟨taken, (h True writer hwriter outside taken).dealings⟩
    exact (ends_sendInstance hf' options.hook?).imp (fun _ _ h _ => hsends h) fun _ _ h _ => hsends h
  · intro _ s hs hl
    rw [supply_destroy] at hl
    obtain ⟨limit, hwrites⟩ := hs hl
    refine hwrites.keepsOutside.trans fun outside taken => ⟨taken, ?_⟩
    have hdestroy : Edits False id ⟨s, outside, taken⟩ ⟨s.destroy id, outside, taken⟩ :=
      edits_destroy fun h => h.elim
    exact hdestroy.dealings

/-- Creating an instance conserves the references outside, however it ends. -/
theorem ends_createInstance (hw : r.WellFormed) (hsound : schema.layout.IsSound)
    (props : List (String × Value)) (options : Options) :
    Ends (createInstance schema props options) r
      (fun _ after => after.supply.Lasts → r.KeepsOutside after)
      (fun _ after => after.supply.Lasts → r.KeepsOutside after) := by
  apply ends_createInstance_of hsound
  · exact fun _ schemas _ _ => (quiet_schemas r schemas).keepsOutside
  · exact fun _ schemas _ => (quiet_schemas r schemas).keepsOutside
  · intro schemas bytes values _ hdrafted
    have hblank := hdrafted.blank
    have henter := edit_enterInstance (r := { r with schemas }) hsound hblank hdrafted.uncached
    have hentered : r.KeepsOutside
        (({ r with schemas } : Registry).enterInstance schema bytes options).2 :=
      (quiet_schemas r schemas).keepsOutside.trans fun outside taken =>
        ⟨taken, .single ⟨True, 0, henter True 0 outside taken⟩⟩
    apply (grows_fillInstance _ values options).ends_of_lasts
    intro hl
    have hf := filling_enterInstance (r := { r with schemas }) (.of_draw hl) hblank options
    apply (ends_fillInstance (hentered.changes.wellFormed hw hl) hf hsound hdrafted.mem_props
      options).imp
    · exact fun _ after h hl => hentered.trans (h hl)
    · exact fun _ after h hl => hentered.trans (h hl)

/-- Creating an instance takes no number back. -/
theorem ends_createInstance_issued (hsound : schema.layout.IsSound)
    (props : List (String × Value)) (options : Options) (r : Registry) :
    Ends (createInstance schema props options) r
      (fun _ after => r.supply.issued ≤ after.supply.issued)
      (fun _ after => r.supply.issued ≤ after.supply.issued) := by
  apply ends_createInstance_of hsound
  · exact fun _ _ _ => Nat.le_refl _
  · exact fun _ _ => Nat.le_refl _
  · intro schemas bytes values _ _
    apply (grows_fillInstance _ values options _).imp
    · exact fun _ _ h => (Nat.le_succ _).trans h
    · exact fun _ _ h => (Nat.le_succ _).trans h

end Registry

end Framecast
