import Framecast.Proofs.Guarded.Writing
import Framecast.Proofs.Operation.Instance

/-!
# Guarded creations

The bytes of a new instance are encoded inside storage that is as long as its layout
says, and the values that wait are written to an instance that stands. If one of these
writes fails, the registry is sturdy still, so that the removal does not fault either.
-/

namespace Framecast

namespace Guarded

open Registry (Stands IsSturdy)

variable {r : Registry} {id : ResourceId} {schema : Schema}

/-- Plain values are encoded without a fault. -/
theorem follows_foldlM_encodeSupplied (hsound : schema.layout.IsSound)
    {plain : List (Property × Value)} (hplain : ∀ given ∈ plain, given.1 ∈ schema.layout.props)
    {storage : Bytes} (hblank : schema.layout.IsBlank storage) :
    Follows (plain.foldlM encodeSupplied storage) (plain.foldlM Registry.encodeSupplied storage) r
      (fun _ _ => True) (fun _ => True) := by
  induction plain generalizing storage with
  | nil => exact .of_pure trivial
  | cons given rest ih =>
    have hgiven := hplain given List.mem_cons_self
    rw [List.foldlM_cons, List.foldlM_cons]
    unfold encodeSupplied Registry.encodeSupplied
    refine .bind (.of_inside (Property.slice?_eq hsound hgiven hblank.1) (.of_inside
      (Property.encodePlain?_eq (hsound.sound given.1 hgiven)
        (hsound.length_slice hgiven hblank.1) given.2) (.bind (.of_plainly ?_))))
    refine (Registry.ends_liftSchema _ r).imp ?_ fun _ _ _ => trivial
    rintro part _ ⟨rfl, hpart⟩
    refine .of_pure (ih (fun one hone => hplain one (List.mem_cons_of_mem _ hone)) ?_)
    exact hblank.splice hsound hgiven (given.1.isPlain_of_encodePlain hpart)
      (given.1.length_encodePlain hpart)

/-- The values of an instance are checked and encoded without a fault. -/
theorem follows_draft (hsound : schema.layout.IsSound) (props : List (String × Value))
    (options : Options) :
    Follows (draft schema props options) (Registry.draft schema props options) r
      (fun _ _ => True) (fun _ => True) := by
  unfold draft Registry.draft
  refine .bind (.of_plainly ((Registry.ends_registerSchema schema r).imp ?_ fun _ _ _ => trivial))
  rintro _ _ -
  refine .bind (.of_plainly
    ((Registry.ends_mapM_checkSupplied schema props _).imp ?_ fun _ _ _ => trivial))
  rintro supplied registered ⟨rfl, hsupplied⟩
  refine .bind (.of_plainly ?_)
  unfold Registry.checkRequired
  cases schema.layout.props.find? fun p => p.required && !Registry.isSupplied supplied p with
  | some missing => exact trivial
  | none =>
    rw [Ends.pure_iff]
    refine .bind (.of_get ?_)
    cases registered.cached? schema.name options.cacheKey? with
    | some found => exact .of_pure trivial
    | none =>
      have hplain : ∀ given ∈ supplied.filter fun s => s.1.kind.isPlain,
          given.1 ∈ schema.layout.props := fun given hgiven =>
        Registry.mem_of_checked hsupplied given (List.mem_filter.mp hgiven).1
      refine .of_inside (Layout.defaultBytes?_eq hsound) (.bind ?_)
      exact (follows_foldlM_encodeSupplied hsound hplain (Layout.isBlank_defaultBytes hsound)).imp
        (fun _ _ _ => .of_pure trivial) fun _ h => h

/-- Values are written to an instance without a fault, one after another. -/
theorem follows_writeEach (h : r.Stands id schema) (hsound : schema.layout.IsSound)
    {values : List (Property × Value)} (hvalues : ∀ given ∈ values, given.1 ∈ schema.layout.props) :
    Follows (writeEach id values) (Registry.writeEach id values) r
      (fun _ after => after.Stands id schema) (fun after => after.Stands id schema) := by
  unfold writeEach Registry.writeEach
  refine .forM (P := fun r => r.Stands id schema) (fun given hgiven s hs => ?_) h
  exact follows_writeProp hs (hvalues given hgiven) (hsound.sound given.1 (hvalues given hgiven)) _

/-- The values of a new instance are written without a fault, and after a failure it is removed
without one. -/
theorem follows_writeAll (h : r.Stands id schema) (hsound : schema.layout.IsSound)
    {values : List (Property × Value)} (hvalues : ∀ given ∈ values, given.1 ∈ schema.layout.props) :
    Follows (writeAll id values) (Registry.writeAll id values) r (fun _ _ => True)
      (fun _ => True) := by
  have hwritten := follows_writeEach h hsound hvalues
  have hplain : (Registry.writeAll id values).run r = Registry.writeAll id values r := rfl
  have hguarded : (writeAll id values).run r = writeAll id values r := rfl
  unfold Follows Ends at *
  rw [hplain, hguarded]
  unfold writeAll Registry.writeAll
  cases hm : (Registry.writeEach id values).run r with
  | ok a after =>
    rw [hm] at hwritten
    rw [hwritten.1]
    exact ⟨rfl, trivial⟩
  | error e after =>
    rw [hm] at hwritten
    rw [hwritten.1]
    dsimp only
    rw [run_destroy hwritten.2.sturdy id]
    exact ⟨rfl, trivial⟩

/-- A new instance is filled and sent without a fault. -/
theorem follows_fillInstance (h : r.Stands id schema) (hsound : schema.layout.IsSound)
    {values : List (Property × Value)} (hvalues : ∀ given ∈ values, given.1 ∈ schema.layout.props)
    (options : Options) :
    Follows (fillInstance id values options) (Registry.fillInstance id values options) r
      (fun _ _ => True) (fun _ => True) := by
  unfold fillInstance Registry.fillInstance
  refine .bind ((follows_writeAll h hsound hvalues).imp (fun _ filled _ => ?_) fun _ h => h)
  refine .bind (.of_modify (.bind (.of_get (.bind ?_))))
  exact (follows_bind (fun k hk => List.mem_range.mp hk) id).imp (fun _ _ _ => .of_pure trivial)
    fun _ h => h

/-- A new instance stands as soon as it is entered. -/
theorem stands_enterInstance (h : r.IsSturdy) (hsound : schema.layout.IsSound) {bytes : Bytes}
    (hblank : schema.layout.IsBlank bytes)
    (huncached : r.cached? schema.name options.cacheKey? = none) :
    (r.enterInstance schema bytes options).2.Stands r.supply.nextId schema := by
  have henter := Registry.edit_enterInstance hsound hblank huncached True 0 0 0
  refine ⟨henter.isSturdy h, fun res other bytes' hres hstorage => ?_⟩
  have hfound := Registry.resource?_insert r schema.name (.fields schema bytes)
    { options with hook? := none } r.supply.nextId
  rw [if_pos rfl] at hfound
  cases hfound.symm.trans hres
  cases hstorage
  rfl

/-- In a sturdy registry an instance is created without a fault. -/
theorem follows_createInstance (h : r.IsSturdy) (hsound : schema.layout.IsSound)
    (props : List (String × Value)) (options : Options) :
    Follows (createInstance schema props options) (Registry.createInstance schema props options) r
      (fun _ _ => True) (fun _ => True) := by
  unfold createInstance Registry.createInstance
  refine .bind ((follows_draft hsound props options).of_ends
    ((Registry.ends_draft hsound props options r).imp ?_ fun _ _ _ => trivial))
  rintro drafted _ ⟨rfl, -, -, hfresh⟩
  cases drafted with
  | cached id => exact .of_pure trivial
  | fresh bytes values =>
    have hdrafted := hfresh bytes values rfl
    have hquiet : Edit True 0 ⟨r, 0, 0⟩ ⟨{ r with schemas := r.enrolled schema }, 0, 0⟩ :=
      .quiet (Registry.quiet_schemas r _)
    have hstands := stands_enterInstance (r := { r with schemas := r.enrolled schema })
      (hquiet.isSturdy h) hsound hdrafted.blank hdrafted.uncached
    exact .bind (.of_get (.bind (.of_set
      (follows_fillInstance hstands hsound hdrafted.mem_props options))))

end Guarded

end Framecast
