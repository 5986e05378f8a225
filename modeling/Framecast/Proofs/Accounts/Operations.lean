import Framecast.Proofs.Accounts.Balance
import Framecast.Proofs.Operation.Answers

/-!
# Operations keep the balance

What an operation does as a chain of strict changes keeps the balance. A creation
that fails is the exception: it removes an instance that may hold itself, and
that nothing else holds.
-/

namespace Framecast

namespace Registry

variable {r after : Registry} {outside : Multiset ResourceId} {id : ResourceId} {schema : Schema}

theorem IsBalanced.of_edits {writer : ResourceId} (hb : r.IsBalanced outside) (hw : r.WellFormed)
    (hl : after.supply.Lasts) (h : Edits True writer ⟨r, outside, 0⟩ ⟨after, outside, 0⟩) :
    after.IsBalanced outside :=
  h.isBalanced hw hl (by simp) hb

/-- A neutral chain keeps the balance. -/
theorem IsBalanced.of_neutral (hb : r.IsBalanced outside) (hw : r.WellFormed)
    (hl : after.supply.Lasts) (h : r.Neutral after) : after.IsBalanced outside := by
  obtain ⟨writer, hwriter⟩ : ∃ writer, writer ≠ r.supply.nextId :=
    ⟨r.supply.nextId + 1, by simp⟩
  exact hb.of_edits hw hl (h True writer hwriter outside 0)

/-- A chain of writes keeps the balance, if no count reaches its limit on the way. -/
theorem IsBalanced.of_writes {limit : Multiset ResourceId} (hb : r.IsBalanced outside)
    (hw : r.WellFormed) (hl : after.supply.Lasts) (h : r.Writes after id limit)
    (hroom : ∀ x ∈ limit, r.countOf x + limit.count x ≤ Resource.maxRefCount) :
    after.IsBalanced outside := by
  obtain ⟨more, hle, hedits⟩ := h
  have hchain := hedits True outside 0
  rw [Multiset.add_zero] at hchain
  apply hchain.isBalanced hw hl _ hb
  intro x hx
  exact (Nat.add_le_add_left (Multiset.count_le_of_le x hle) _).trans
    (hroom x (Multiset.mem_of_le hle hx))

/-- A reference outside is given back, or there was none to give back. -/
theorem IsBalanced.released {res : Resource} (hb : r.IsBalanced outside)
    (h : r.resource? id = some res) (hfree : id ∈ outside ∨ res.refCount = 0) :
    (r.modifyResource id Resource.released).IsBalanced (outside.erase id) := by
  have hcount := hb.counts h
  rw [Multiset.count_add] at hcount
  apply hb.recount h (f := Resource.released) (fun _ => ⟨rfl, rfl⟩)
  · rw [Multiset.count_add, Multiset.count_erase_self]
    show res.refCount - 1 = _
    rcases hfree with hmem | hzero
    · have := Multiset.count_pos.mpr hmem
      omega
    · omega
  · intro x hx
    exact Multiset.count_erase_of_ne hx _

/-- A disposal of what the host references, or of what no instance holds, keeps the balance. The
host has one reference less on it, if it had any. -/
theorem IsBalanced.ends_dispose (hb : r.IsBalanced outside) (hw : r.WellFormed)
    (hl : r.supply.Lasts) (hfree : id ∈ outside ∨ r.retainers id = []) :
    Ends (dispose id) r
      (fun gone after => (∃ res, r.resource? id = some res) ∧
        after.IsBalanced (outside.erase id) ∧
          (gone = false ∧ id ∈ outside ∧ after = r.modifyResource id Resource.released ∨
            gone = true ∧ after.resource? id = none ∧ after.supply.Lasts))
      (fun _ after => after = r) := by
  apply (Registry.ends_dispose id r).imp
  · rintro gone after ⟨res, hres, hcases⟩
    have hzero : id ∈ outside ∨ res.refCount = 0 := by
      by_cases hmem : id ∈ outside
      · exact .inl hmem
      · right
        rw [hb.counts hres, Multiset.count_add, Multiset.count_eq_zero_of_notMem hmem,
          ← length_retainers, hfree.resolve_left hmem]
        rfl
    have hreleased := hb.released hres hzero
    refine ⟨⟨res, hres⟩, ?_⟩
    obtain ⟨rfl, hmany, rfl⟩ | ⟨rfl, hone, rfl⟩ := hcases
    · exact ⟨hreleased, .inl ⟨rfl, hzero.resolve_right (by omega), rfl⟩⟩
    · have hrelease : Edit True 0 ⟨r, id ::ₘ 0, 0⟩
          ⟨r.modifyResource id Resource.released, 0, 0⟩ := .release hres
      have hl' : (r.modifyResource id Resource.released).supply.Lasts := by simpa using hl
      have hw' := hrelease.wellFormed hw hl'
      have hlasts : ((r.modifyResource id Resource.released).destroy id).supply.Lasts := by
        simpa using hl
      have hchain : Edits True 0 ⟨r.modifyResource id Resource.released, outside.erase id, 0⟩
          ⟨(r.modifyResource id Resource.released).destroy id, outside.erase id, 0⟩ := by
        apply edits_destroy
        intro _ res' hres'
        rw [resource?_modifyResource, if_pos rfl, hres] at hres'
        cases hres'
        show res.refCount - 1 = 0
        omega
      exact ⟨hreleased.of_edits hw' hlasts hchain,
        .inr ⟨rfl, resource?_destroy_self hw' hl' id, hlasts⟩⟩
  · rintro _ after ⟨-, -, rfl⟩
    rfl

/-- Whether no live resource holds a number but the resource of that number itself. -/
def IsSealed (r : Registry) (id : ResourceId) : Prop :=
  ∀ x res, r.resource? x = some res → x ≠ id → id ∉ res.storage.heldIds

/-- A resource that is gone stays so when references are dropped. -/
theorem resource?_dropHeld_of_none {state : Registry × List ResourceId}
    (h : state.1.resource? id = none) (held : HeldRef) :
    (dropHeld state held).1.resource? id = none := by
  rw [resource?_dropHeld, h]
  split <;> rfl

/-- References on a resource that is gone may be left out. -/
theorem foldl_dropHeld_filter (held : List HeldRef) {state : Registry × List ResourceId}
    (h : state.1.resource? id = none) :
    held.foldl dropHeld state = (held.filter fun one => !(one.id == id)).foldl dropHeld state := by
  induction held generalizing state with
  | nil => rfl
  | cons one rest ih =>
    by_cases hone : one.id = id
    · rw [List.foldl_cons, dropHeld_of_none (by rw [hone, h]), ih h,
        List.filter_cons_of_neg (by simp [hone])]
    · rw [List.foldl_cons, List.filter_cons_of_pos (by simp [hone]), List.foldl_cons,
        ih (resource?_dropHeld_of_none h one)]

/-- Destroying what only itself may hold keeps the balance. -/
theorem IsBalanced.destroy (hb : r.IsBalanced outside) (hw : r.WellFormed) (hl : r.supply.Lasts)
    (hsealed : r.IsSealed id) (hout : id ∉ outside) : (r.destroy id).IsBalanced outside := by
  have hlasts : (r.destroy id).supply.Lasts := by simpa using hl
  cases hres : r.resource? id with
  | none =>
    rw [destroy_of_none hres]
    exact hb
  | some res =>
    obtain ⟨n, -, hn⟩ := destroy_of_some hres
    have hgone : (r.remove res).resource? id = none := by
      rw [resource?_remove, if_pos (hw.keyed hres).symm]
    rw [foldl_dropHeld_filter _ hgone] at hn
    have hheld : ((res.storage.heldRefs.filter fun one => !(one.id == id)).map HeldRef.id) =
        res.storage.heldIds.filter fun x => !(x == id) := by
      rw [← res.storage.map_id_heldRefs, List.filter_map]
      rfl
    have hbalanced : (r.remove res).IsBalanced
        (outside + (res.storage.heldIds.filter fun x => !(x == id) : List ResourceId)) := by
      apply hb.remove hw hres _ hout hsealed
      have hsplit : ((res.storage.heldIds.filter fun x => !(x == id)) ++
          res.storage.heldIds.filter (· == id)).Perm res.storage.heldIds :=
        List.perm_append_comm.trans (List.filter_append_perm _ _)
      rw [Multiset.add_assoc, Multiset.coe_add, Multiset.coe_eq_coe.mpr hsplit]
    have hw' : (r.remove res).WellFormed := by
      have hremove : Edit False 0 ⟨r, 0, 0⟩ ⟨r.remove res, 0 + res.storage.heldIds, 0⟩ :=
        .remove hres fun h => h.elim
      exact hremove.wellFormed hw (by simpa using hl)
    obtain ⟨hdropped, hzero⟩ := @edits_foldl_dropHeld True 0 outside 0
      (res.storage.heldRefs.filter fun one => !(one.id == id)) (r.remove res, [])
      fun _ _ h => by cases h
    rw [hheld] at hdropped
    rw [hn] at hlasts ⊢
    exact Edits.isBalanced (hdropped.trans (edits_cascade n hzero)) hw' hlasts (by simp) hbalanced

end Registry

/-- While only the bytes of one instance are written, nothing else comes to hold it. -/
theorem Edits.isSealed {strict : Prop} {id : ResourceId} {b b' : Book} (h : Edits strict id b b')
    (hw : b.registry.WellFormed) (hl : b'.registry.supply.Lasts) (hs : b.registry.IsSealed id) :
    b'.registry.IsSealed id := by
  refine (h.keep (P := fun b => b.registry.IsSealed id) hw hl ?_ hs).2
  intro b₁ b₂ hw₁ _ _ hstep hs₁ x res' hx hne
  rcases hstep.origin hw₁ hx with ⟨res, hres, -, heq | ⟨heq, -⟩⟩ | ⟨-, -, -, hnew⟩
  · rw [heq]
    exact hs₁ x res hres hne
  · exact absurd heq hne
  · rw [hnew.blank]
    exact List.not_mem_nil

namespace Registry

variable {r after : Registry} {outside : Multiset ResourceId} {id : ResourceId} {schema : Schema}

/-- Whether a registry has room for more references: no count reaches its limit by them. -/
def Spares (r : Registry) (more : Multiset ResourceId) : Prop :=
  ∀ x ∈ more, r.countOf x + more.count x < Resource.maxRefCount

instance (r : Registry) (more : Multiset ResourceId) : Decidable (r.Spares more) :=
  -- named, since trying out every number is an instance too
  Multiset.decidableForallMultiset

/-- Whether no count reaches its limit while values are written one after another. A write that
fails takes no reference. -/
def SparesEach (id : ResourceId) : List (Property × Value) → Registry → Prop
  | [], _ => True
  | given :: rest, r =>
    match (writeProp id given.1 given.2).run r with
    | .ok _ after => r.Spares (r.takes given.1 given.2) ∧ SparesEach id rest after
    | .error _ _ => True

/-- Whether counts stay below their limit can be tried out. -/
def decideSparesEach (id : ResourceId) :
    (values : List (Property × Value)) → (r : Registry) → Decidable (SparesEach id values r)
  | [], _ => .isTrue trivial
  | given :: rest, r =>
    match hrun : (writeProp id given.1 given.2).run r with
    | .ok _ after =>
      have := decideSparesEach id rest after
      decidable_of_iff (r.Spares (r.takes given.1 given.2) ∧ SparesEach id rest after)
        (by simp only [SparesEach, hrun])
    | .error _ _ => .isTrue (by simp only [SparesEach, hrun])

instance (id : ResourceId) (values : List (Property × Value)) (r : Registry) :
    Decidable (SparesEach id values r) := decideSparesEach id values r

/-- An instance that is being filled while the books are balanced. -/
structure FillingBalanced (r : Registry) (outside : Multiset ResourceId) (id : ResourceId)
    (schema : Schema) : Prop where
  /-- The registry is well formed. -/
  wellFormed : r.WellFormed
  /-- The instance was sent nowhere. -/
  filling : r.Filling id schema
  /-- Nothing else holds it. -/
  isSealed : r.IsSealed id
  /-- The books are balanced. -/
  balanced : r.IsBalanced outside

/-- A chain of writes leaves an instance that is being filled while the books are balanced. -/
theorem FillingBalanced.of_writes {limit : Multiset ResourceId}
    (h : r.FillingBalanced outside id schema) (hl : after.supply.Lasts)
    (hwrites : r.Writes after id limit) (hspare : r.Spares limit) :
    after.FillingBalanced outside id schema := by
  obtain ⟨hw, hf⟩ := hwrites.filling h.wellFormed hl h.filling
  refine ⟨hw, hf, ?_, ?_⟩
  · obtain ⟨more, -, hedits⟩ := hwrites
    exact Edits.isSealed (hedits True 0 0) h.wellFormed hl h.isSealed
  · exact h.balanced.of_writes h.wellFormed hl hwrites fun x hx => (hspare x hx).le

/-- Writing values to a new instance keeps the balance. -/
theorem FillingBalanced.ends_writeEach (h : r.FillingBalanced outside id schema)
    (hsound : schema.layout.IsSound) {values : List (Property × Value)}
    (hvalues : ∀ given ∈ values, given.1 ∈ schema.layout.props) (hspare : SparesEach id values r) :
    Ends (writeEach id values) r
      (fun _ after => after.supply.Lasts → after.FillingBalanced outside id schema)
      (fun _ after => after.supply.Lasts → after.FillingBalanced outside id schema) := by
  unfold writeEach
  induction values generalizing r with
  | nil => exact fun _ => h
  | cons given rest ih =>
    rw [List.forM_eq_forM, List.forM_cons, ← List.forM_eq_forM]
    have hone := ends_writeProp_filling h.wellFormed h.filling hsound
      (hvalues given List.mem_cons_self)
    have hgrows := (spans_acts.writeEach id rest).grows
    have hfilled : ∀ given ∈ rest, given.1 ∈ schema.layout.props :=
      fun one hone => hvalues one (List.mem_cons_of_mem _ hone)
    unfold SparesEach at hspare
    rw [Ends.bind_iff]
    cases hrun : (writeProp id given.1 given.2).run r with
    | ok a after =>
      rw [hrun] at hspare
      unfold Ends
      rw [hrun]
      apply hgrows.ends_of_lasts
      intro hl
      exact ih (h.of_writes hl (hone.of_ok hrun hl) hspare.1) hfilled hspare.2
    | error e after =>
      unfold Ends
      rw [hrun]
      exact fun hl => h.of_writes hl (hone.of_error hrun hl)
        fun _ hx => absurd hx (Multiset.notMem_zero _)

/-- Filling a new instance keeps the balance, however it ends. -/
theorem FillingBalanced.ends_fillInstance (h : r.FillingBalanced outside id schema)
    (hsound : schema.layout.IsSound) {values : List (Property × Value)}
    (hvalues : ∀ given ∈ values, given.1 ∈ schema.layout.props) (options : Options)
    (hout : id ∉ outside) (hspare : SparesEach id values r) :
    Ends (fillInstance id values options) r
      (fun _ after => after.supply.Lasts → after.IsBalanced outside)
      (fun _ after => after.supply.Lasts → after.IsBalanced outside) := by
  unfold fillInstance
  rw [Ends.bind_iff, ends_writeAll_iff]
  apply (h.ends_writeEach hsound hvalues hspare).imp
  · intro _ s hs
    apply (grows_sendInstance id options.hook?).ends_of_lasts
    intro hl
    have hs := hs hl
    obtain ⟨writer, hwriter⟩ : ∃ writer, id ≠ writer := ⟨id + 1, by simp⟩
    apply (ends_sendInstance hs.filling options.hook?).imp
    · exact fun _ after hafter hl =>
        hs.balanced.of_edits hs.wellFormed hl (hafter True writer hwriter outside 0)
    · exact fun _ after hafter hl =>
        hs.balanced.of_edits hs.wellFormed hl (hafter True writer hwriter outside 0)
  · intro _ s hs hl
    rw [supply_destroy] at hl
    have hs := hs hl
    exact hs.balanced.destroy hs.wellFormed hl hs.isSealed hout

/-- Whether no count reaches its limit while an instance is created. -/
def SparesCreation (r : Registry) (schema : Schema) (props : List (String × Value))
    (options : Options) : Prop :=
  match (draft schema props options).run r with
  | .ok (.fresh bytes values) drafted =>
    SparesEach (drafted.enterInstance schema bytes options).1 values
      (drafted.enterInstance schema bytes options).2
  | _ => True

instance (r : Registry) (schema : Schema) (props : List (String × Value)) (options : Options) :
    Decidable (r.SparesCreation schema props options) := by
  unfold SparesCreation
  split <;> infer_instance

/-- Creating an instance keeps the balance, however it ends. -/
theorem IsBalanced.ends_createInstance (hb : r.IsBalanced outside) (hw : r.WellFormed)
    (hsound : schema.layout.IsSound) (props : List (String × Value)) (options : Options)
    (hspare : r.SparesCreation schema props options) :
    Ends (createInstance schema props options) r
      (fun _ after => after.supply.Lasts → after.IsBalanced outside)
      (fun _ after => after.supply.Lasts → after.IsBalanced outside) := by
  have hschemas : ∀ schemas, ({ r with schemas } : Registry).IsBalanced outside :=
    fun schemas => hb.of_body fun _ => rfl
  apply ends_createInstance_of hsound
  · exact fun _ schemas _ _ => hschemas schemas
  · exact fun _ schemas _ => hschemas schemas
  · intro schemas bytes values hdraft hdrafted
    have hblank := hdrafted.blank
    apply (grows_fillInstance _ values options).ends_of_lasts
    intro hl
    have hl₀ : r.supply.Lasts := .of_draw hl
    have hw₀ : ({ r with schemas } : Registry).WellFormed :=
      (quiet_schemas r schemas).changes.wellFormed hw hl₀
    have henter := edit_enterInstance (r := { r with schemas }) hsound hblank hdrafted.uncached
      True 0 outside 0
    have hw₁ := henter.wellFormed hw₀ hl
    have hb₁ := (hschemas schemas).of_edits hw₀ hl (.single henter)
    have hout : r.supply.nextId ∉ outside + r.holdings := by
      rw [← Multiset.count_eq_zero]
      exact hb.count_nextId hw hl₀
    rw [Multiset.mem_add, not_or] at hout
    have hsealed : (({ r with schemas } : Registry).enterInstance schema bytes options).2.IsSealed
        r.supply.nextId := by
      intro x res hx hne hmem
      have hx := (resource?_insert _ _ _ _ _).symm.trans hx
      rw [if_neg hne] at hx
      exact hout.2 (Resources.mem_gather.mpr ⟨x, res, hx, hmem⟩)
    unfold SparesCreation at hspare
    rw [hdraft] at hspare
    exact FillingBalanced.ends_fillInstance
      ⟨hw₁, filling_enterInstance (r := { r with schemas }) hl₀ hblank options, hsealed, hb₁⟩
      hsound hdrafted.mem_props options hout.1 hspare

end Registry

end Framecast
