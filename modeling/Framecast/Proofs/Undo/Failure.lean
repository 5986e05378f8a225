import Framecast.Proofs.Run.Segments
import Framecast.Proofs.Undo.Attempt

/-!
# Failed creations

A creation that fails leaves no trace: the same resources are live, with the same
counts, bytes and loading, listed in the same order and cached under the same
keys, and the host is told of no removal. That is so as long as somebody has a
reference on whatever the written values refer to. What nobody has a reference on
is taken for abandoned when the failed creation gives its own reference back.
-/

namespace Framecast

namespace Registry

variable {r : Registry} {schema : Schema} {props : List (String × Value)} {options : Options}

/-- Whether somebody has a reference on every resource that the values of a creation refer to, if
they pass the checks. -/
def SustainsCreation (r : Registry) (schema : Schema) (props : List (String × Value))
    (options : Options) : Prop :=
  match (draft schema props options).run r with
  | .ok (.fresh _ values) _ => ∀ given ∈ values, r.Sustains given.2
  | _ => True

/-- The values that a creation writes to a new instance, if they pass the checks. -/
def draftedValues (r : Registry) (schema : Schema) (props : List (String × Value))
    (options : Options) : List (Property × Value) :=
  match (draft schema props options).run r with
  | .ok (.fresh _ values) _ => values
  | _ => []

/-- What a creation refers to is what the values refer to that it writes. -/
theorem sustainsCreation_iff :
    r.SustainsCreation schema props options ↔
      ∀ given ∈ r.draftedValues schema props options, r.Sustains given.2 := by
  unfold SustainsCreation draftedValues
  split
  · exact Iff.rfl
  · constructor
    · intro _ given hgiven
      cases hgiven
    · exact fun _ => trivial

instance (r : Registry) (schema : Schema) (props : List (String × Value)) (options : Options) :
    Decidable (r.SustainsCreation schema props options) :=
  decidable_of_iff (∀ given ∈ r.draftedValues schema props options, r.Sustains given.2)
    sustainsCreation_iff.symm

/-- The references among the written values lead to live resources. Defaults are texts. -/
theorem Drafted.live (hsound : schema.layout.IsSound) {bytes : Bytes}
    {values : List (Property × Value)} (h : r.Drafted schema props options bytes values) :
    ∀ given ∈ values, given.1.isOwningRef = true →
      ∀ x ∈ targetsOf given.2, ∃ target, r.resource? x = some target := by
  obtain ⟨supplied, hsupplied, rfl, -⟩ := h.values
  intro given hgiven howning x hx
  have href : given.1.kind.isReference = true := (Bool.and_eq_true_iff.mp howning).1
  rcases List.mem_append.mp hgiven with hgiven | hgiven
  · obtain ⟨one, hchecked⟩ := exists_checked hsupplied given (List.mem_filter.mp hgiven).1
    obtain ⟨expected, hexpected⟩ :=
      Option.isSome_iff_exists.mp ((hsound.sound given.1 hchecked.mem).target href)
    obtain ⟨target, htarget, -⟩ := hchecked.targets expected hexpected x hx
    exact ⟨target, htarget⟩
  · obtain ⟨prop, hprop, hdefault⟩ := List.mem_filterMap.mp hgiven
    unfold deferredDefault at hdefault
    split at hdefault
    · cases hdefault
    · rename_i hnot
      obtain ⟨value, hvalue, rfl⟩ := Option.map_eq_some_iff.mp hdefault
      rcases ((hsound.sound prop hprop).default value hvalue).2 with hplain | hstring
      · simp [hplain] at hnot
      · have href : prop.kind.isReference = true := href
        rw [hstring] at href
        cases href

/-- A creation that fails restores what there was, if what its values refer to is referenced. -/
theorem ends_createInstance_restores (hw : r.WellFormed) (hi : r.IndexesIssued)
    (hsound : schema.layout.IsSound)
    (htext : schema.name = stringType → ∀ text, options.cacheKey? ≠ some (.text text))
    (hheld : r.SustainsCreation schema props options)
    (hspare : r.SparesCreation schema props options) :
    Ends (createInstance schema props options) r (fun _ _ => True)
      (fun _ after => after.supply.Lasts → r.Restores after) := by
  apply ends_createInstance_of hsound
  · exact fun _ _ _ => trivial
  · exact fun _ _ _ => ⟨fun _ => rfl, fun _ => rfl, rfl, rfl⟩
  · intro schemas bytes values hdraft hdrafted
    have hfilled : Ends (fillInstance r.supply.nextId values options)
        (({ r with schemas } : Registry).enterInstance schema bytes options).2
        (fun _ after => after.supply.Lasts → True)
        (fun _ after => after.supply.Lasts → r.Restores after) := by
      apply (grows_fillInstance _ values options).ends_of_lasts
      intro hl
      have hw' : ({ r with schemas } : Registry).WellFormed :=
        (quiet_schemas r schemas).changes.wellFormed hw (.of_draw hl)
      have htrial : ({ r with schemas } : Registry).Trial
          (({ r with schemas } : Registry).enterInstance schema bytes options).2 r.supply.nextId
            schema 0 [] := .start hw' hi hsound hdrafted.blank hdrafted.uncached htext hl
      have hold : ∀ given ∈ values, given.1.isOwningRef = true →
          ∀ x ∈ targetsOf given.2, x.toNat ≤ r.supply.issued := by
        intro given hgiven howning x hx
        obtain ⟨target, htarget⟩ := hdrafted.live hsound given hgiven howning x hx
        exact (hw.numbered htarget).2
      unfold SustainsCreation at hheld
      unfold SparesCreation at hspare
      rw [hdraft] at hheld hspare
      apply (htrial.ends_fillInstance hw' hsound options hdrafted.mem_props hheld hold hspare).imp
      · exact fun _ _ _ _ => trivial
      · intro _ after h hl
        obtain ⟨hresources, hlisted, hcache, hjournal⟩ := h hl
        exact ⟨hresources, hlisted, hcache, hjournal⟩
    exact hfilled.imp (fun _ _ _ => trivial) fun _ _ h => h

end Registry

namespace Run

variable {config : Config} {supply : Supply} {past : List Moment} {b : Broadcast}

/-- A creation that fails leaves no trace, in whatever state it is tried: the same resources are
live and unchanged, every type lists them in the same order, the same are cached, and the host is
told nothing. What the written values refer to must be referenced, no count may reach its limit,
and the instance may not be what a text is known as. -/
theorem undoes_failed_creation (h : Run (.opened config supply) past b)
    (hc : ∀ m ∈ past, m.action.IsCompiled) {schema : Schema} (hschema : schema.layout.IsCompiled)
    {props : List (String × Value)} {options : Options}
    (htext : schema.name = stringType → ∀ text, options.cacheKey? ≠ some (.text text))
    (hheld : b.registry.SustainsCreation schema props options)
    (hspare : b.registry.SparesCreation schema props options) {cause : ResourceError}
    {after : Broadcast} (hfailed : b.step (.createInstance schema props options) =
      (.failed cause, after)) (hl : after.registry.supply.Lasts) :
    (∀ id, after.registry.resource? id = b.registry.resource? id) ∧
      (∀ type, after.registry.idsOfType type = b.registry.idsOfType type) ∧
        (∀ type key?, after.registry.cached? type key? = b.registry.cached? type key?) ∧
          after.registry.journal = b.registry.journal := by
  have hcompiled : (Action.createInstance schema props options).IsCompiled := hschema
  have hissued := b.issued_le_step hcompiled
  rw [hfailed] at hissued
  have hl₀ := hl.mono hissued
  have hends := Registry.ends_createInstance_restores (h.wellFormed hc hl₀)
    ((h.indexesLive hc hl₀).indexesIssued (h.wellFormed hc hl₀)) hschema.isSound htext hheld hspare
  have hstep : b.onRegistry (Registry.createInstance schema props options) .created =
      (.failed cause, after) := hfailed
  rcases (Broadcast.onRegistry_ends hends .created).1 with ⟨id, hcreated, -⟩ | ⟨_, -, hafter⟩
  · rw [hstep] at hcreated
    cases hcreated
  · rw [hstep] at hafter
    have hrestores := hafter hl
    refine ⟨hrestores.resources, fun type => ?_, fun type key? => ?_, hrestores.journal⟩
    · exact congrArg List.reverse (hrestores.listed type)
    · unfold Registry.cached?
      rw [hrestores.cache]

end Run

namespace Samples

/-- What is declared of a sheet: a reference to another sheet, and a raw buffer. -/
def sheetDeclared : List Declaration :=
  [.reference "base" "sheet", .ofKind "data" .arrayBuffer]

/-- The layout of a sheet. -/
def sheet : Layout := ⟨"sheet", sheetDeclared.zipWith Declaration.place [0, 4], 16⟩

theorem isCompiled_sheet : sheet.IsCompiled := by
  refine ⟨"sheet", sheetDeclared, ?_, by decide +kernel⟩
  intro d hd n hn
  simp only [sheetDeclared, List.mem_cons, List.not_mem_nil, or_false] at hd
  rcases hd with rfl | rfl
  · exact Option.some.inj hn
  · exact Option.some.inj hn

/-- A sheet with a hook. -/
def oneSheet : List Moment × Broadcast :=
  (Broadcast.opened ⟨.game, 4⟩ ⟨0, .initial⟩).play
    [.createInstance ⟨0, sheet⟩ [] { hook? := some "gone" }]

/-- A sheet that is based on the first one and gets its buffer twice. -/
def overfilled : Action :=
  .createInstance ⟨0, sheet⟩ [("base", .ref (some 1)), ("data", .buffer (.frozen 1 [7])),
    ("data", .buffer (.frozen 1 [7]))] {}

/-- The producer with the sheet, on which the host has a reference. -/
def kept : Broadcast := (oneSheet.2.step (.retain 1)).2

/-- When the host has a reference on the sheet, a failed creation on top of it leaves no trace. -/
theorem kept_restored :
    (kept.step overfilled).1 = .failed (.bufferAlreadySet 2 "data") ∧
      (∀ id, (kept.step overfilled).2.registry.resource? id = kept.registry.resource? id) ∧
        (∀ type, (kept.step overfilled).2.registry.idsOfType type =
          kept.registry.idsOfType type) ∧
        (∀ type key?, (kept.step overfilled).2.registry.cached? type key? =
          kept.registry.cached? type key?) ∧
        (kept.step overfilled).2.registry.journal = kept.registry.journal := by
  have hfailed : (kept.step overfilled).1 = .failed (.bufferAlreadySet 2 "data") := by
    decide +kernel
  have hrun : Run (.opened ⟨.game, 4⟩ ⟨0, .initial⟩) (⟨oneSheet.2, .retain 1⟩ :: oneSheet.1) kept :=
    .snoc (.play _ _) (.retain 1)
  have hcompiled : ∀ m ∈ (⟨oneSheet.2, .retain 1⟩ : Moment) :: oneSheet.1,
      m.action.IsCompiled := by
    intro m hm
    simp only [oneSheet, Broadcast.play, List.foldl_cons, List.foldl_nil, List.mem_cons,
      List.not_mem_nil, or_false] at hm
    rcases hm with rfl | rfl
    · trivial
    · exact isCompiled_sheet
  exact ⟨hfailed, Run.undoes_failed_creation hrun hcompiled isCompiled_sheet
    (fun h => absurd h (by decide)) (by decide +kernel) (by decide +kernel) (Prod.ext hfailed rfl)
    (by decide +kernel)⟩

/-- When nobody has a reference on the sheet, it is gone after the same creation failed, and its
hook has run. -/
theorem oneSheet_lost :
    (oneSheet.2.step overfilled).1 = .failed (.bufferAlreadySet 2 "data") ∧
      (oneSheet.2.registry.resource? 1).map Resource.refCount = some 0 ∧
        (oneSheet.2.step overfilled).2.registry.resource? 1 = none ∧
          oneSheet.2.registry.journal = #[] ∧
            (oneSheet.2.step overfilled).2.registry.journal = #[.hook "gone" 1] :=
  ⟨by decide +kernel, by decide +kernel, Option.isNone_iff_eq_none.mp (by decide +kernel),
    by decide +kernel, by decide +kernel⟩

end Samples

end Framecast
