import Framecast.Proofs.Operation.Answers

/-!
# Operations as chains of shifts

Whatever is done to a producer comes down to five kinds of shifts: a resource is
entered, changed, sent over a link or removed, or nothing changes that resources,
links and buffers show. This is so for every schema and however many numbers were
given out: a number may come around again, and then what is entered under it takes
the place of what was live.
-/

namespace Framecast

namespace Bytes

/-- A part as long as the one that it replaces keeps the length of the run, wherever it lies. -/
theorem length_splice_of_slice {bytes part : Bytes} {offset length : Nat}
    (h : part.length = (bytes.slice offset length).length) :
    (bytes.splice offset part).length = bytes.length := by
  simp only [slice, List.length_take, List.length_drop] at h
  simp only [splice, List.length_append, List.length_take, List.length_drop]
  omega

end Bytes

namespace Registry

/-- One shift. -/
inductive Shift : Registry → Registry → Prop
  /-- Nothing changes that resources, links or buffers show, and no number is given out. -/
  | quiet {r r' : Registry} (h : r.Quiet r') (hissued : r'.supply.issued = r.supply.issued) :
    Shift r r'
  /-- A resource changes and stays what it is and where it was sent. -/
  | touch {r : Registry} {id : ResourceId} {res res' : Resource} (h : r.resource? id = some res)
      (hev : res.Evolves res') (hbindings : res'.bindings = res.bindings) :
    Shift r { r with resources := r.resources.insert id res' }
  /-- A resource is entered under the next number. -/
  | enter {r : Registry} (type : String) (storage : Storage) (options : Options) :
    Shift r (r.insert type storage options).2
  /-- A resource is sent over a link. -/
  | ship {r : Registry} {id : ResourceId} {res : Resource} {k : Nat} {link : Link}
      (load : LoadState) (h : r.resource? id = some res) (hlink : r.links[k]? = some link) :
    Shift r
      { r with
        links := r.links.set k (link.ship k res r.tick).2
        resources := r.resources.insert id
          { res with bindings := res.bindings ++ [(link.ship k res r.tick).1], load } }
  /-- A resource is removed. -/
  | remove {r : Registry} {id : ResourceId} {res : Resource} (h : r.resource? id = some res) :
    Shift r (r.remove res)

/-- A chain of shifts. -/
abbrev Shifts : Registry → Registry → Prop := Relation.ReflTransGen Shift

variable {r r' r'' : Registry} {id : ResourceId} {res : Resource}

/-- A resource takes its place under its own number among others that are under theirs. -/
theorem IsKeyed.replace (hkeyed : r.IsKeyed) (hid : res.id = id)
    (hlookup : ∀ x, r'.resource? x = if x = id then some res else r.resource? x) : r'.IsKeyed := by
  intro x found hfound
  rw [hlookup] at hfound
  split at hfound
  · rename_i hx
    cases hfound
    rw [hx, hid]
  · exact hkeyed x found hfound

/-- Resources stay entered under their own numbers. -/
theorem Shift.isKeyed (h : r.Shift r') (hkeyed : r.IsKeyed) :
    r'.IsKeyed := by
  cases h with
  | quiet h =>
    intro x found hfound
    have hbody := h.resources x
    rw [hfound, Option.map_some] at hbody
    obtain ⟨res, hres, heq⟩ := Option.map_eq_some_iff.mp hbody.symm
    have hev : res.Evolves found := .of_body heq.symm
    exact hev.id.trans (hkeyed x res hres)
  | touch h hev =>
    exact hkeyed.replace (hev.id.trans (hkeyed _ _ h)) fun x => getElem?_insert _ _ x _
  | enter type storage options =>
    refine hkeyed.replace ?_ (resource?_insert r type storage options)
    rfl
  | ship load h =>
    have hid := hkeyed _ _ h
    refine hkeyed.replace ?_ fun x => getElem?_insert _ _ x _
    exact hid
  | remove h =>
    intro x found hfound
    rw [resource?_remove] at hfound
    split at hfound
    · cases hfound
    · exact hkeyed x found hfound

theorem Shifts.isKeyed (h : r.Shifts r') (hkeyed : r.IsKeyed) : r'.IsKeyed := by
  induction h with
  | refl => exact hkeyed
  | tail _ hstep ih => exact hstep.isKeyed ih

theorem Quiet.shifts (h : r.Quiet r') (hsupply : r'.supply = r.supply) : r.Shifts r' :=
  .single (.quiet h (by rw [hsupply]))

/-- A change of a resource that leaves it what it is, where there is one, is a chain. -/
theorem shifts_modifyResource (r : Registry) (id : ResourceId) {f : Resource → Resource}
    (hf : ∀ res, r.resource? id = some res → res.Evolves (f res) ∧ (f res).bindings = res.bindings) :
    r.Shifts (r.modifyResource id f) := by
  cases h : r.resource? id with
  | none => rw [modifyResource_of_none h]
  | some res =>
    rw [modifyResource_of_some h]
    obtain ⟨hev, hbindings⟩ := hf res h
    exact .single (.touch h hev hbindings)

theorem shifts_retained (r : Registry) (id : ResourceId) :
    r.Shifts (r.modifyResource id Resource.retained) :=
  shifts_modifyResource r id fun res _ => ⟨.counted res _, rfl⟩

theorem shifts_released (r : Registry) (id : ResourceId) :
    r.Shifts (r.modifyResource id Resource.released) :=
  shifts_modifyResource r id fun res _ => ⟨.counted res _, rfl⟩

/-- Dropping held references is a chain. -/
theorem shifts_foldl_dropHeld (held : List HeldRef) (state : Registry × List ResourceId) :
    state.1.Shifts (held.foldl dropHeld state).1 := by
  induction held generalizing state with
  | nil => exact .refl
  | cons one rest ih =>
    refine Relation.ReflTransGen.trans ?_ (ih _)
    unfold dropHeld
    split
    · dsimp only
      split <;> exact shifts_released _ _
    · exact .refl

/-- A cascade is a chain. -/
theorem shifts_cascade (n : Nat) (worklist : List ResourceId) (r : Registry) :
    r.Shifts (cascade n worklist r) := by
  induction n generalizing worklist r with
  | zero => exact .refl
  | succ n ih =>
    unfold cascade
    split
    · exact .refl
    · split
      · exact .refl
      · rename_i hres
        exact Relation.ReflTransGen.head (.remove hres)
          ((shifts_foldl_dropHeld _ (_, _)).trans (ih _ _))

/-- Replacing the bytes of a property by as many others is a chain. -/
theorem shifts_storeBytes {prop : Property} {part : Bytes} (h : r.FitsSlice id prop part) :
    r.Shifts (r.storeBytes id prop part) := by
  refine shifts_modifyResource r id fun res hres => ?_
  split
  · rename_i schema bytes hstorage
    have hlength : (prop.splice bytes part).length = bytes.length :=
      Bytes.length_splice_of_slice (h res schema bytes hres hstorage)
    refine ⟨⟨rfl, rfl, rfl, ?_, List.prefix_refl _, rfl⟩, rfl⟩
    rw [hstorage]
    exact ⟨_, rfl, hlength⟩
  · exact ⟨.refl res, rfl⟩

/-- Sending a resource over one more link, if there is one at the position, is a chain. -/
theorem shifts_bindOne (state : List Binding × List Link) (k : Nat) :
    (r.sending id res state).Shifts (r.sending id res (bindOne res r.tick state k)) := by
  unfold bindOne
  cases hlink : state.2[k]? with
  | none =>
    rw [updateLink_of_none _ hlink]
    simpa using Relation.ReflTransGen.refl
  | some link =>
    rw [updateLink_of_some _ hlink]
    have hfound : (r.sending id res state).resource? id = some { res with bindings := state.1 } := by
      rw [resource?_sending, if_pos rfl]
    have hlast := r.quiet_sending_sending id res state
      (state.1 ++ [(link.ship k res r.tick).1], state.2.set k (link.ship k res r.tick).2)
    exact .head (.ship res.load hfound hlink) (hlast.shifts rfl)

/-- Sending a resource over links is a chain. -/
theorem shifts_foldl_bindOne (positions : List Nat) (state : List Binding × List Link) :
    (r.sending id res state).Shifts
      (r.sending id res (positions.foldl (bindOne res r.tick) state)) := by
  induction positions generalizing state with
  | nil => exact .refl
  | cons k rest ih => exact (shifts_bindOne state k).trans (ih _)

/-- Binding a resource is a chain. -/
theorem within_bind (id : ResourceId) (positions : List Nat) : Within Shifts (bind id positions) := by
  intro r
  unfold bind find
  rw [Ends.bind_iff, Ends.bind_iff, Ends.get_iff]
  cases h : r.resource? id with
  | none => exact .refl
  | some res =>
    dsimp only
    rw [Ends.pure_iff, Ends.modify_iff]
    have hstart : r.Shifts (r.sending id res (res.bindings, r.links)) :=
      (quiet_sending h).shifts rfl
    exact hstart.trans ((shifts_foldl_bindOne positions _).trans
      ((quiet_sending_load _ _).shifts rfl))

/-- Adding a resource is a chain. -/
theorem within_spawn (type : String) (storage : Storage) (options : Options)
    (positions : List Nat) : Within Shifts (spawn type storage options positions) := by
  intro r
  unfold spawn
  rw [Ends.bind_iff, Ends.get_iff, ← Prod.mk.eta (p := r.insert type storage options)]
  dsimp only
  rw [Ends.bind_iff, Ends.set_iff]
  have hentered : r.Shifts (r.insert type storage options).2 :=
    .single (.enter type storage options)
  exact ((within_bind _ positions).bind fun _ => .pure _) _ |>.imp
    (fun _ _ h => hentered.trans h) fun _ _ h => hentered.trans h

/-- Chains of shifts span what the host does. -/
theorem spans_shifts : Spans Shifts where
  retained := shifts_retained
  dispose id r := by
    have hreleased := shifts_released r id
    apply (ends_dispose id r).imp
    · rintro _ after ⟨res, -, ⟨-, -, rfl⟩ | ⟨-, -, rfl⟩⟩
      · exact hreleased
      · exact hreleased.trans (shifts_cascade _ _ _)
    · rintro _ after ⟨-, -, rfl⟩
      exact .refl
  stored r id prop part h := shifts_storeBytes h
  spawn type storage options positions _ _ := within_spawn type storage options positions

/-- Creating an opaque resource is a chain. -/
theorem within_createOpaque (thread : Thread) (type : String) (p : Payload) (options : Options) :
    Within Shifts (createOpaque thread type p options) := by
  unfold createOpaque
  refine Within.get.bind fun r => ?_
  cases r.linkTo? thread with
  | none => exact .throw _
  | some position =>
    dsimp only
    split
    · exact .throw_bind _ _
    · cases r.cached? type options.cacheKey? with
      | some id => exact .pure id
      | none => exact within_spawn _ _ _ _

/-- Checking the values of a new instance is a chain. -/
theorem within_draft (schema : Schema) (props : List (String × Value)) (options : Options) :
    Within Shifts (draft schema props options) := by
  have hregister : Within Shifts (registerSchema schema) := by
    intro r
    unfold registerSchema
    rw [Ends.bind_iff, Ends.get_iff]
    cases r.schemas[schema.name]? with
    | none => exact (quiet_schemas r _).shifts rfl
    | some known =>
      dsimp only
      split
      · exact .refl
      · exact .refl
  have hcheck (given : String × Value) : Within Shifts (checkSupplied schema given) := by
    unfold checkSupplied
    split
    · exact .throw _
    · exact (Within.liftSchema _).bind fun _ => (Within.checkTargets _ _).bind fun _ => .pure _
  have hrequired (supplied : List (Property × Value)) :
      Within Shifts (checkRequired schema supplied) := by
    unfold checkRequired
    split
    · exact .throw _
    · exact .pure _
  have hencode (storage : Bytes) (given : Property × Value) :
      Within Shifts (encodeSupplied storage given) :=
    (Within.liftSchema _).bind fun _ => .pure _
  unfold draft
  refine hregister.bind fun _ => (Within.mapM hcheck _).bind fun supplied =>
    (hrequired supplied).bind fun _ => Within.get.bind fun r => ?_
  split
  · exact .pure _
  · exact (Within.foldlM hencode _ _).bind fun _ => .pure _

/-- Writing the values of a new instance is a chain, also if the instance is removed again. -/
theorem within_writeAll (id : ResourceId) (values : List (Property × Value)) :
    Within Shifts (writeAll id values) := by
  intro r
  rw [ends_writeAll_iff]
  exact (spans_shifts.writeEach id values r).imp (fun _ _ h => h)
    fun _ _ h => h.trans (shifts_cascade _ _ _)

/-- Filling a new instance is a chain. -/
theorem within_fillInstance (id : ResourceId) (values : List (Property × Value))
    (options : Options) : Within Shifts (fillInstance id values options) := by
  have hhook (res : Resource) : res.Evolves { res with hook? := options.hook? } :=
    ⟨rfl, rfl, rfl, .refl _, List.prefix_refl _, rfl⟩
  refine (within_writeAll id values).bind fun _ => Within.bind (Within.modify fun r => ?_)
    fun _ => Within.get.bind fun _ => (within_bind id _).bind fun _ => .pure _
  exact shifts_modifyResource r id fun res _ => ⟨hhook res, rfl⟩

/-- Creating an instance is a chain, whatever its schema. -/
theorem within_createInstance (schema : Schema) (props : List (String × Value))
    (options : Options) : Within Shifts (createInstance schema props options) := by
  unfold createInstance
  refine (within_draft schema props options).bind fun drafted => ?_
  cases drafted with
  | cached id => exact .pure id
  | fresh bytes values =>
    intro r
    rw [Ends.bind_iff, Ends.get_iff, ← Prod.mk.eta (p := r.enterInstance schema bytes options)]
    dsimp only
    rw [Ends.bind_iff, Ends.set_iff]
    have hentered : r.Shifts (r.enterInstance schema bytes options).2 :=
      .single (.enter schema.name (.fields schema bytes) { options with hook? := none })
    exact (within_fillInstance _ values options _).imp (fun _ _ h => hentered.trans h)
      fun _ _ h => hentered.trans h

/-- Waiting for a resource draws no number and no raw buffer. -/
theorem supply_await (r : Registry) (id : ResourceId) : (r.await id).2.supply = r.supply := by
  unfold await
  dsimp only
  split
  · exact supply_processAcks r
  · split
    · exact supply_processAcks r
    · exact supply_processAcks r
    · exact (supply_modifyResource _ _ _).trans (supply_processAcks r)

end Registry

end Framecast
