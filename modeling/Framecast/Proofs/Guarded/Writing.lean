import Framecast.Proofs.Feed.Log
import Framecast.Proofs.Fields.Altering
import Framecast.Proofs.Guarded.Follows
import Framecast.Proofs.Run.Steps

/-!
# Guarded writes

A registry is sturdy if all storage fits its layout and all bindings are to links that
there are. Every elementary change keeps it sturdy, whether or not numbers last, and
that is all that disposals and writes look up by position. So none of their guards
ever stops one.
-/

namespace Framecast

namespace Registry

/-- All storage fits its layout, and every binding is to a link that there is. -/
structure IsSturdy (r : Registry) : Prop where
  /-- Bindings are to links that there are. -/
  linked : r.IsLinked
  /-- Storage fits its layout. -/
  sound : ∀ {id res}, r.resource? id = some res → res.storage.IsSound

theorem WellFormed.isSturdy {r : Registry} (h : r.WellFormed) (hlinked : r.IsLinked) :
    r.IsSturdy := ⟨hlinked, h.sound⟩

variable {r after : Registry} {id : ResourceId} {res : Resource} {schema : Schema}
  {bytes part : Bytes} {prop : Property}

/-- Bytes of a property can be replaced by as many others. -/
theorem IsSturdy.storeBytes (h : r.IsSturdy) (hres : r.resource? id = some res)
    (hstorage : res.storage = .fields schema bytes) (hprop : prop ∈ schema.layout.props)
    (hpart : part.length = (prop.slice bytes).length) : (r.storeBytes id prop part).IsSturdy := by
  have hlookup := resource?_storeBytes hres hstorage prop part
  refine ⟨fun x res' hx => ?_, fun {x res'} hx => ?_⟩
  · have hlinks : (r.storeBytes id prop part).links = r.links := by simp [Registry.storeBytes]
    rw [hlinks]
    rw [hlookup] at hx
    split at hx
    · cases hx
      exact h.linked id res hres
    · exact h.linked x res' hx
  · rw [hlookup] at hx
    split at hx
    · cases hx
      have hsound := h.sound hres
      exact (Resource.Evolves.stored hsound hstorage hprop hpart).storage.isSound hsound
    · exact h.sound hx

end Registry

/-- An elementary change keeps a registry sturdy. -/
theorem Edit.isSturdy {strict : Prop} {writer : ResourceId} {b b' : Book}
    (h : Edit strict writer b b') (hs : b.registry.IsSturdy) : b'.registry.IsSturdy := by
  refine ⟨h.isLinked hs.linked, fun {x res'} hx => ?_⟩
  cases h.descent hx with
  | kept hres _ _ _ hstorage =>
    rw [hstorage]
    exact hs.sound hres
  | entered _ _ _ hnew => exact hnew.sound
  | stored _ hres hstorage hprop hpart _ heq =>
    subst heq
    have hsound := hs.sound hres
    exact (Resource.Evolves.stored hsound hstorage hprop hpart).storage.isSound hsound
  | @shipped res _ _ _ hres _ _ _ _ heq =>
    subst heq
    exact @Registry.IsSturdy.sound _ hs x res hres

namespace Registry

variable {r after : Registry} {id : ResourceId} {res : Resource} {schema : Schema}
  {bytes part : Bytes} {prop : Property}

/-- Chains of elementary changes keep a registry sturdy. -/
theorem Changes.isSturdy (h : r.Changes after) (hs : r.IsSturdy) : after.IsSturdy := by
  induction h with
  | refl => exact hs
  | tail _ hstep ih =>
    obtain ⟨_, _, _, _, _, _, hedit⟩ := hstep
    exact hedit.isSturdy ih

/-- A sturdy registry in which an instance of a certain schema is written to. What has its number is
no instance of another schema. -/
structure Stands (r : Registry) (id : ResourceId) (schema : Schema) : Prop where
  /-- The registry is sturdy. -/
  sturdy : r.IsSturdy
  /-- The instance has the schema. -/
  only : ∀ res other bytes, r.resource? id = some res → res.storage = .fields other bytes →
    other = schema

namespace Stands

/-- A change that spares all storage leaves the instance as it is. -/
theorem of_sparesBytes (h : r.Stands id schema) (hs : after.IsSturdy)
    (hspares : r.SparesBytes after) : after.Stands id schema := by
  refine ⟨hs, fun res' other bytes hres' hstorage => ?_⟩
  rcases hspares.origin hres' with ⟨res, hres, heq⟩ | ⟨-, p, hp⟩
  · exact h.only res other bytes hres (heq ▸ hstorage)
  · rw [hp] at hstorage
    cases hstorage

/-- Entering a payload leaves the instance as it is, unless it takes its number. -/
theorem of_spawns (h : r.Stands id schema) {type : String} {p : Payload} {options : Options}
    {positions : List Nat} (hspawns : r.Spawns after type p options positions) :
    after.Stands id schema := by
  refine ⟨hspawns.neutral.changes.isSturdy h.sturdy, fun res' other bytes hres' hstorage => ?_⟩
  by_cases hid : id = r.supply.nextId
  · obtain ⟨bindings, load, hfound, -⟩ := hspawns.found
    rw [hid, hfound] at hres'
    cases hres'
    cases hstorage
  · rw [hspawns.others id hid] at hres'
    exact h.only res' other bytes hres' hstorage

/-- Replacing bytes leaves the schema of the instance as it is. -/
theorem storeBytes (h : r.Stands id schema) (hres : r.resource? id = some res)
    (hstorage : res.storage = .fields schema bytes) (hprop : prop ∈ schema.layout.props)
    (hpart : part.length = (prop.slice bytes).length) :
    (r.storeBytes id prop part).Stands id schema := by
  refine ⟨h.sturdy.storeBytes hres hstorage hprop hpart,
    fun res' other bytes' hres' hstorage' => ?_⟩
  rw [resource?_storeBytes hres hstorage, if_pos rfl] at hres'
  cases hres'
  cases hstorage'
  rfl

/-- Taking a reference leaves the instance as it is. -/
theorem retained (h : r.Stands id schema) {target : ResourceId} {held : Resource}
    (hheld : r.resource? target = some held) :
    (r.modifyResource target Resource.retained).Stands id schema := by
  have hedit : Edit True 0 ⟨r, 0, 0⟩
      ⟨r.modifyResource target Resource.retained, target ::ₘ 0, target ::ₘ 0⟩ := .retain hheld
  exact h.of_sparesBytes (hedit.isSturdy h.sturdy) (.modifyResource r target fun _ => rfl)

/-- Releasing references leaves the instance as it is, if it survives. -/
theorem foldl_release (h : r.Stands id schema) (ids : List ResourceId) :
    (ids.foldl release r).Stands id schema := by
  have hedits : Edits True 0 ⟨r, 0 + (ids : Multiset ResourceId), 0⟩
      ⟨ids.foldl release r, 0, 0⟩ := edits_foldl_release ids r
  exact h.of_sparesBytes (hedits.changes.isSturdy h.sturdy) (.foldl_release ids r)

end Stands

end Registry

namespace Guarded

open Registry (Stands IsSturdy)

variable {r : Registry} {id : ResourceId} {schema : Schema} {prop : Property}

/-- In a sturdy registry a resource is removed without a fault. -/
theorem run_remove (h : r.IsSturdy) {res : Resource} (hres : r.resource? id = some res) :
    (remove res).run r = .ok () (r.remove res) := by
  unfold remove
  rw [EStateM.run_bind, run_forM_demandLink (h.linked id res hres).2]
  rfl

/-- In a sturdy registry a worklist is worked off without a fault. -/
theorem run_cascade (n : Nat) {worklist : List ResourceId} (h : r.IsSturdy) :
    (cascade n worklist).run r = .ok () (Registry.cascade n worklist r) := by
  induction n generalizing worklist r with
  | zero => rfl
  | succ n ih =>
    unfold cascade Registry.cascade
    rw [EStateM.run_bind]
    have hget : (get : GuardedM Registry).run r = .ok r r := rfl
    rw [hget]
    dsimp only
    cases hlive : r.nextLive worklist with
    | nil => rfl
    | cons id rest =>
      dsimp only
      cases hres : r.resource? id with
      | none => rfl
      | some res =>
        dsimp only
        have hremove : Edit False 0 ⟨r, 0, 0⟩ ⟨r.remove res, 0 + res.storage.heldIds, 0⟩ :=
          .remove hres False.elim
        have hremoved := hremove.isSturdy h
        have hdrop : Edits False 0
            ⟨r.remove res, 0 + (res.storage.heldRefs.map (·.id) : List ResourceId), 0⟩
            ⟨(res.storage.heldRefs.foldl Registry.dropHeld (r.remove res, rest)).1, 0, 0⟩ :=
          (Registry.edits_foldl_dropHeld res.storage.heldRefs (r.remove res, rest) False.elim).1
        rw [EStateM.run_bind, run_remove h hres, Storage.heldRefs?_eq (h.sound hres)]
        exact ih (hdrop.changes.isSturdy hremoved)

theorem run_destroy (h : r.IsSturdy) (id : ResourceId) :
    (destroy id).run r = .ok () (r.destroy id) := run_cascade r.size h

/-- In a sturdy registry a disposal is made without a fault. -/
theorem follows_dispose (h : r.IsSturdy) (id : ResourceId) :
    Follows (dispose id) (Registry.dispose id) r (fun _ _ => True) (fun _ => True) := by
  unfold dispose Registry.dispose Registry.find
  refine .bind (.of_plainly ?_)
  rw [Ends.bind_iff, Ends.get_iff]
  cases hres : r.resource? id with
  | none => trivial
  | some res =>
    rw [Ends.pure_iff]
    refine .bind (.of_modify ?_)
    split
    · exact .of_pure trivial
    · have hedit : Edit False 0 ⟨r, id ::ₘ 0, 0⟩
          ⟨r.modifyResource id Resource.released, 0, 0⟩ := .release hres
      exact ⟨by rw [EStateM.run_bind, run_destroy (hedit.isSturdy h) id]; rfl, trivial⟩

/-- In a sturdy registry a reference is released without a fault. -/
theorem run_release (h : r.IsSturdy) (id : ResourceId) :
    (release id).run r = .ok () (r.release id) := by
  have hfollows := follows_dispose h id
  unfold Follows Ends at hfollows
  show release id r = _
  unfold release Registry.release
  cases hm : (Registry.dispose id).run r with
  | ok gone after =>
    rw [hm] at hfollows
    rw [hfollows.1]
  | error e after =>
    rw [hm] at hfollows
    rw [hfollows.1]

/-- In a sturdy registry references are released without a fault. -/
theorem run_forM_release (h : r.IsSturdy) (ids : List ResourceId) :
    (ids.forM release).run r = .ok () (ids.foldl Registry.release r) := by
  induction ids generalizing r with
  | nil => rfl
  | cons id rest ih =>
    have hedits : Edits True 0 ⟨r, id ::ₘ 0, 0⟩ ⟨r.release id, 0, 0⟩ := Registry.edits_release r id
    rw [List.forM_eq_forM, List.forM_cons, EStateM.run_bind, run_release h id]
    exact ih (hedits.changes.isSturdy h)

/-- An instance that is written to has its schema, and its bytes fit. -/
theorem ends_fieldsOf_stands (h : r.Stands id schema) :
    Ends (Registry.fieldsOf id) r
      (fun found after => after = r ∧ ∃ res bytes, found = (schema, bytes) ∧
        r.resource? id = some res ∧ res.storage = .fields schema bytes ∧
        schema.layout.IsSound ∧ bytes.length = schema.layout.byteLength)
      (fun _ after => after = r) := by
  refine (Registry.ends_fieldsOf id r).imp ?_ fun _ _ h => h
  rintro ⟨other, bytes⟩ after ⟨rfl, res, hres, hstorage⟩
  obtain rfl := h.only res other bytes hres hstorage
  have hsound := h.sturdy.sound hres
  rw [hstorage] at hsound
  exact ⟨rfl, res, bytes, rfl, hres, hstorage, hsound⟩

/-- The bytes of a property are changed without a fault, if the change stays inside them. -/
theorem follows_updateSlice (h : r.Stands id schema) (hprop : prop ∈ schema.layout.props)
    {f : Bytes → Bytes} {f? : Bytes → Option Bytes}
    (hf : ∀ part, part.length = prop.length → f? part = some (f part))
    (hlength : ∀ part, (f part).length = part.length) :
    Follows (updateSlice id prop f?) (Registry.updateSlice id prop f) r
      (fun _ after => after.Stands id schema) (fun after => after.Stands id schema) := by
  unfold updateSlice Registry.updateSlice
  refine .bind (.of_plainly ((ends_fieldsOf_stands h).imp ?_ ?_))
  · rintro _ after ⟨rfl, res, bytes, rfl, hres, hstorage, hsound, hbytes⟩
    refine .of_inside (Property.slice?_eq hsound hprop hbytes)
      (.of_inside (hf _ (hsound.length_slice hprop hbytes)) (.of_modify ?_))
    exact h.storeBytes hres hstorage hprop (hlength _)
  · rintro _ after rfl
    exact h

/-- References are stored without a fault. -/
theorem follows_replaceRefs (h : r.Stands id schema) (hprop : prop ∈ schema.layout.props)
    (targets : List ResourceId) :
    Follows (replaceRefs id prop targets) (Registry.replaceRefs id prop targets) r
      (fun _ after => after.Stands id schema) (fun after => after.Stands id schema) := by
  unfold replaceRefs Registry.replaceRefs
  refine .bind (.of_plainly ((ends_fieldsOf_stands h).imp ?_ ?_))
  · rintro _ after ⟨rfl, _, bytes, rfl, -, -, hsound, hbytes⟩
    have hslice := hsound.length_slice hprop hbytes
    refine .of_inside (Property.slice?_eq hsound hprop hbytes)
      (.of_inside (Property.words?_eq hslice) (.bind (.of_plainly ?_)))
    have hretained : Ends
        ((targets.filter (· != 0)).forM fun target => discard (Registry.retain target)) after
        (fun _ s => s.Stands id schema) (fun _ s => s.Stands id schema) := by
      refine Ends.forM (fun target _ s hs => ?_) h
      rw [Ends.discard_iff]
      refine (Registry.ends_retain target s).imp ?_ ?_
      · rintro _ _ ⟨held, hheld, -, rfl⟩
        exact hs.retained hheld
      · rintro _ _ ⟨-, -, rfl⟩
        exact hs
    refine hretained.imp (fun _ retained hretained => ?_) fun _ _ h => h
    refine .bind ((follows_updateSlice hretained hprop
      (f := (·.setWords (Registry.padded prop.count targets)))
      (fun part hpart => Bytes.setWords?_eq ?_) fun part => Bytes.length_setWords _ _).imp ?_
        fun _ h => h)
    · rw [hpart]
      simp [Registry.padded, Property.length]
    · intro _ stored hstored
      exact ⟨run_forM_release hstored.sturdy _, hstored.foldl_release _⟩
  · rintro _ after rfl
    exact h

/-- A resource is bound without a fault to links that there are. -/
theorem follows_bind {positions : List Nat} (h : ∀ k ∈ positions, k < r.links.length)
    (id : ResourceId) :
    Follows (bind id positions) (Registry.bind id positions) r (fun _ _ => True)
      (fun _ => True) := by
  cases hres : r.resource? id with
  | none =>
    have hrun : (Registry.find id).run r = .error (.notFound id) r := by
      unfold Registry.find
      simp [hres]
      rfl
    unfold Registry.bind bind
    exact .bind (.of_plainly (by unfold Ends; rw [hrun]; trivial))
  | some res =>
    have hrun : (Registry.find id).run r = .ok res r := by
      unfold Registry.find
      simp [hres]
    have hplain : Follows (plainly (Registry.bind id positions)) (Registry.bind id positions) r
        (fun _ _ => True) (fun _ => True) :=
      .of_plainly ((Registry.ends_bind_of_some hres positions).imp (fun _ _ _ => trivial)
        fun _ _ _ => trivial)
    unfold bind
    refine .of_guard (b := res) (by rw [run_plainly, hrun]) (.of_guard (b := ()) ?_ hplain)
    exact run_forM_demandLink h

/-- A resource is entered and bound without a fault to links that there are. -/
theorem follows_spawn {positions : List Nat} (h : ∀ k ∈ positions, k < r.links.length)
    (type : String) (storage : Storage) (options : Options) :
    Follows (spawn type storage options positions) (Registry.spawn type storage options positions) r
      (fun _ _ => True) (fun _ => True) := by
  unfold spawn Registry.spawn
  refine .bind (.of_get (.bind (.of_set ?_)))
  refine .bind ((follows_bind ?_ _).imp (fun _ _ _ => .of_pure trivial) fun _ h => h)
  exact h

/-- A text is interned without a fault. -/
theorem follows_createString (text : String) (r : Registry) :
    Follows (createString text) (Registry.createString text) r (fun _ _ => True)
      (fun _ => True) := by
  unfold createString Registry.createString
  refine .ite (fun _ => .of_pure trivial) fun _ => .bind (.of_get ?_)
  dsimp only
  cases r.cached? stringType (some (.text text)) with
  | some id => exact .of_pure trivial
  | none => exact follows_spawn (fun k hk => List.mem_range.mp hk) _ _ _

/-- A raw buffer is entered without a fault. -/
theorem follows_createBuffer (buffer : RawBuffer) (r : Registry) :
    Follows (createBuffer buffer) (Registry.createBuffer buffer) r (fun _ _ => True)
      (fun _ => True) := by
  unfold createBuffer Registry.createBuffer
  exact .bind (.of_get (follows_spawn (fun k hk => List.mem_range.mp hk) _ _ _))

/-- An opaque resource is created without a fault. -/
theorem follows_createOpaque (thread : Thread) (type : String) (payload : Payload)
    (options : Options) (r : Registry) :
    Follows (createOpaque thread type payload options)
      (Registry.createOpaque thread type payload options) r (fun _ _ => True) (fun _ => True) := by
  unfold createOpaque Registry.createOpaque
  refine .bind (.of_get ?_)
  cases hlink : r.linkTo? thread with
  | none => exact .of_throw trivial
  | some position =>
    refine .ite (fun _ => .bind (.of_throw trivial)) fun _ => ?_
    cases r.cached? type options.cacheKey? with
    | some id => exact .of_pure trivial
    | none =>
      refine follows_spawn (fun k hk => ?_) _ _ _
      rw [List.mem_singleton.mp hk]
      exact (List.findIdx?_eq_some_iff_getElem.mp hlink).1

/-- A raw buffer is stored without a fault. -/
theorem follows_writeBuffer (h : r.Stands id schema) (hprop : prop ∈ schema.layout.props)
    (hkind : prop.kind = .arrayBuffer) (buffer : RawBuffer) :
    Follows (writeBuffer id prop buffer) (Registry.writeBuffer id prop buffer) r
      (fun _ after => after.Stands id schema) (fun after => after.Stands id schema) := by
  unfold writeBuffer Registry.writeBuffer
  refine .bind (.of_plainly ((ends_fieldsOf_stands h).imp ?_ ?_))
  · rintro _ after ⟨rfl, _, bytes, rfl, -, -, hsound, hbytes⟩
    have hslice := hsound.length_slice hprop hbytes
    have hcount := (hsound.sound prop hprop).count_eq 3 (by rw [hkind]; rfl)
    unfold Property.length at hslice
    refine .of_inside (Property.slice?_eq hsound hprop hbytes)
      (.of_inside (Bytes.word?_eq (by omega)) ?_)
    dsimp only
    refine .ite (fun _ => .bind (.of_throw h)) fun _ => .bind (.of_get ?_)
    refine .ite (fun _ => .bind (.of_throw h)) fun _ => ?_
    refine .bind (((follows_createBuffer buffer after).of_ends ?_))
    refine (Registry.ends_createBuffer buffer after).imp ?_ fun _ _ h => h.elim
    rintro target created ⟨-, hspawns⟩
    have hcreated := h.of_spawns hspawns
    refine .bind (.of_plainly ?_)
    rw [Ends.discard_iff]
    refine (Registry.ends_retain target created).imp ?_ ?_
    · rintro _ _ ⟨held, hheld, -, rfl⟩
      refine follows_updateSlice (hcreated.retained hheld) hprop (fun part hpart => ?_)
        fun part => Bytes.length_setWords _ _
      refine Bytes.setWords?_eq ?_
      rw [hpart]
      unfold Property.length
      simp [hcount]
    · rintro _ _ ⟨-, -, rfl⟩
      exact hcreated
  · rintro _ after rfl
    exact h

/-- A plain value is encoded in place without a fault. -/
theorem follows_writePlain (h : r.Stands id schema) (hprop : prop ∈ schema.layout.props)
    (value : Value) :
    Follows (writePlain id prop value) (do
        let (_, bytes) ← Registry.fieldsOf id
        let part ← Registry.liftSchema (prop.encodePlain value (prop.slice bytes))
        modify (·.storeBytes id prop part)) r
      (fun _ after => after.Stands id schema) (fun after => after.Stands id schema) := by
  unfold writePlain
  refine .bind (.of_plainly ((ends_fieldsOf_stands h).imp ?_ ?_))
  · rintro _ after ⟨rfl, res, bytes, rfl, hres, hstorage, hsound, hbytes⟩
    refine .of_inside (Property.slice?_eq hsound hprop hbytes)
      (.of_inside (Property.encodePlain?_eq (hsound.sound prop hprop)
        (hsound.length_slice hprop hbytes) value) (.bind (.of_plainly ?_)))
    cases hencoded : prop.encodePlain value (prop.slice bytes) with
    | error e => exact h
    | ok part =>
      have hstored : Follows (modify (·.storeBytes id prop part))
          (modify (·.storeBytes id prop part)) after (fun _ after => after.Stands id schema)
          (fun after => after.Stands id schema) :=
        .of_modify (h.storeBytes hres hstorage hprop (Property.length_encodePlain hencoded))
      exact hstored
  · rintro _ after rfl
    exact h

/-- A value is written without a fault. -/
theorem follows_writeProp (h : r.Stands id schema) (hprop : prop ∈ schema.layout.props)
    (hsound : prop.IsSound) (value : Value) :
    Follows (writeProp id prop value) (Registry.writeProp id prop value) r
      (fun _ after => after.Stands id schema) (fun after => after.Stands id schema) := by
  unfold writeProp Registry.writeProp
  refine .bind (.of_plainly ?_)
  cases hvalid : prop.validate value with
  | error e => exact h
  | ok u =>
    refine .bind (.of_plainly ((Registry.ends_checkTargets prop value r).imp ?_ ?_))
    · rintro _ after ⟨rfl, -⟩
      cases value with
      | text s =>
        refine .bind ((follows_createString s after).of_ends ?_)
        refine (Registry.ends_createString s after).imp ?_ fun _ _ h => h.elim
        rintro target interned ⟨-, hinterns⟩
        have hinterned : interned.Stands id schema := by
          rcases hinterns with rfl | ⟨-, -, hspawns⟩
          · exact h
          · exact h.of_spawns hspawns
        exact follows_replaceRefs hinterned hprop _
      | buffer b => exact follows_writeBuffer h hprop (prop.kind_of_validate_buffer hvalid) b
      | ref target =>
        refine .ite (fun _ => ?_) fun _ => ?_
        · have hcount := hsound.count_eq 1 (by rw [prop.kind_of_validate_ref hvalid]; rfl)
          refine follows_updateSlice h hprop (fun part hpart => ?_)
            fun part => Bytes.length_setWord _ _ _
          refine Bytes.setWord?_eq ?_ _
          rw [hpart]
          unfold Property.length
          omega
        · exact follows_replaceRefs h hprop _
      | refs slots => exact follows_replaceRefs h hprop _
      | bool | word | float | floats => exact follows_writePlain h hprop _
    · rintro _ after rfl
      exact h

/-- In a sturdy registry a property is written without a fault. -/
theorem follows_writeProp_of_propOf (h : r.IsSturdy) (id : ResourceId) (name : String)
    (value : Value) (check : Property → Bool) (refusal : Property → ResourceError) :
    Follows
      (do
        let prop ← plainly (Registry.propOf id name)
        if check prop then throw (.failure (refusal prop))
        writeProp id prop value)
      (do
        let prop ← Registry.propOf id name
        if check prop then throw (refusal prop)
        Registry.writeProp id prop value) r (fun _ after => after.IsSturdy)
      (fun after => after.IsSturdy) := by
  refine .bind (.of_plainly ((Registry.ends_propOf id name r).imp ?_ ?_))
  · rintro prop after ⟨rfl, res, schema, bytes, hres, hstorage, hprop⟩
    refine .ite (fun _ => .bind (.of_throw h)) fun _ => ?_
    have hmem := (Layout.mem_of_prop? hprop).1
    have hsound := h.sound hres
    rw [hstorage] at hsound
    have hstands : after.Stands id schema := by
      refine ⟨h, fun res' other bytes' hres' hstorage' => ?_⟩
      rw [hres] at hres'
      cases hres'
      rw [hstorage] at hstorage'
      cases hstorage'
      rfl
    exact (follows_writeProp hstands hmem (hsound.1.sound prop hmem) value).imp
      (fun _ _ h => h.sturdy) fun _ h => h.sturdy
  · rintro _ after rfl
    exact h

/-- In a sturdy registry the host writes a property without a fault. -/
theorem follows_setProp (h : r.IsSturdy) (id : ResourceId) (name : String) (value : Value) :
    Follows (setProp id name value) (Registry.setProp id name value) r
      (fun _ after => after.IsSturdy) (fun after => after.IsSturdy) :=
  follows_writeProp_of_propOf h id name value (fun prop => !prop.isMutable)
    fun _ => .immutableProp name

/-- In a sturdy registry a script writes a property without a fault. -/
theorem follows_setPropFromScript (h : r.IsSturdy) (id : ResourceId) (name : String)
    (value : Value) :
    Follows (setPropFromScript id name value) (Registry.setPropFromScript id name value) r
      (fun _ after => after.IsSturdy) (fun after => after.IsSturdy) :=
  follows_writeProp_of_propOf h id name value (fun prop => !prop.script)
    fun _ => .notScriptWritable name

end Guarded

end Framecast
