import Framecast.Proofs.Fields.Readback

/-!
# Writing and reading back

A value that was written is read back in the form in which a property shows it: plain
values bit by bit, references with the number zero read as none, collections filled up
with none. A raw buffer is found under the number that it was entered under. What is
written stays inside the bytes of its property, and no other instance that survives the
write is touched by it, whatever the references that it gives back take with them.
-/

namespace Framecast

/-- What a property shows once a value was written to it. A text is shown as what it was interned
as, which the value alone does not tell. -/
def Property.readback? (p : Property) : Value → Option Value
  | .text _ => none
  | .ref target => some (.ref (target.bind Registry.idAt))
  | .refs slots =>
    let shown := slots.map (·.bind Registry.idAt)
    some (.refs (if p.kind = .refArray then shown.takeWhile Option.isSome
      else shown ++ List.replicate (p.count - slots.length) none))
  | value => some value

namespace Property

variable {p : Property} {value : Value} {part : Bytes}

theorem words_of_count_one (hone : p.count = 1) (part : Bytes) : p.words part = [part.word 0] := by
  unfold words
  rw [hone]
  rfl

/-- A plain property shows the plain value whose words it has. -/
theorem plainValue?_of_validate (hsound : p.IsSound) (hvalid : p.validate value = .ok ())
    {words : List UInt32} (hplain : plainWords? value = some words) (hwords : p.words part = words) :
    p.plainValue? part = some value := by
  obtain ⟨_, hshape, -⟩ := Layout.ok_of_bind hvalid
  have hword (hone : p.count = 1) : [part.word 0] = words :=
    (words_of_count_one hone part).symm.trans hwords
  have hcount := hsound.count_eq
  unfold checkShape at hshape
  unfold plainValue?
  cases value with
  | bool b =>
    cases hplain
    cases hk : p.kind <;> rw [hk] at hshape hcount <;> cases hshape
    rw [List.head_eq_of_cons_eq (hword (hcount 1 rfl))]
    cases b <;> rfl
  | word w =>
    cases hplain
    cases hk : p.kind <;> rw [hk] at hshape hcount <;> cases hshape
    all_goals rw [List.head_eq_of_cons_eq (hword (hcount 1 rfl))]
  | float x =>
    cases hplain
    cases hk : p.kind <;> rw [hk] at hshape hcount <;> cases hshape
    rw [List.head_eq_of_cons_eq (hword (hcount 1 rfl))]
  | floats xs =>
    cases hplain
    have hbits : (xs.map Binary32.bits).map Binary32.mk = xs := by
      rw [List.map_map]
      exact List.map_id xs
    rw [hwords, hbits]
    cases hk : p.kind <;> rw [hk] at hshape <;> first | rfl | cases hshape
  | text | buffer | ref | refs => cases hplain

end Property

namespace Registry
variable {r after : Registry} {id : ResourceId} {prop : Property} {value : Value} {part : Bytes}

/-- A reference is written as its number, also if it points backwards. -/
theorem encoding_ref (hone : prop.count = 1) (target : Option ResourceId) (part : Bytes) :
    r.encoding prop (.ref target) part = part.setWords [target.getD 0] := by
  unfold encoding
  dsimp only
  split
  · rfl
  · rw [hone]
    rfl

/-- A number that is zero is read as none, also where none is written. -/
theorem idAt_getD (target : Option ResourceId) : idAt (target.getD 0) = target.bind idAt := by
  cases target <;> rfl

/-- Filling up with zeros is read as filling up with none. -/
theorem map_idAt_padded {count : Nat} {slots : List (Option ResourceId)}
    (hcount : slots.length ≤ count) :
    (padded count (slots.map (·.getD 0))).map idAt =
      slots.map (·.bind idAt) ++ List.replicate (count - slots.length) none := by
  rw [padded_eq (by simpa using hcount), List.map_append, List.map_map, List.length_map,
    List.map_replicate]
  congr 1
  exact List.map_congr_left fun slot _ => idAt_getD slot

/-- Nothing that fills up a list is shown. -/
theorem takeWhile_append_replicate_none (slots : List (Option ResourceId)) (n : Nat) :
    (slots ++ List.replicate n none).takeWhile Option.isSome = slots.takeWhile Option.isSome := by
  induction slots with
  | nil => cases n <;> rfl
  | cons slot rest ih => cases slot <;> simp [ih]

/-- A property shows a raw buffer that was written to it if the buffer is found under its number. -/
theorem valueOf_encoding_buffer (hsound : prop.IsSound) (hkind : prop.kind = .arrayBuffer)
    (hpart : part.length = prop.length) {buffer : RawBuffer}
    (hentered : after.buffer? r.supply.nextId = some buffer) :
    after.valueOf prop (r.encoding prop (.buffer buffer) part) = .buffer buffer := by
  have hcount := hsound.count_eq 3 (by rw [hkind]; rfl)
  have hplain : prop.plainValue? (r.encoding prop (.buffer buffer) part) = none := by
    unfold Property.plainValue?
    rw [hkind]
  have hword : (r.encoding prop (.buffer buffer) part).word 2 = r.supply.nextId := by
    unfold encoding
    rw [Bytes.word_setWords (by
      rw [hpart, Property.length, hcount]
      exact Nat.le_refl _)]
    rfl
  unfold valueOf
  rw [hplain, hkind]
  dsimp only
  rw [hword, hentered]
  rfl

/-- A property shows a reference that was written to it. -/
theorem valueOf_encoding_ref (hsound : prop.IsSound) (hkind : prop.kind = .ref)
    (hpart : part.length = prop.length) (target : Option ResourceId) :
    after.valueOf prop (r.encoding prop (.ref target) part) = .ref (target.bind idAt) := by
  have hone := hsound.count_eq 1 (by rw [hkind]; rfl)
  have hplain (part : Bytes) : prop.plainValue? part = none := by
    unfold Property.plainValue?
    rw [hkind]
  have hword : (part.setWords [target.getD 0]).word 0 = target.getD 0 := by
    rw [Bytes.word_setWords (by
      rw [hpart, Property.length, hone]
      exact Nat.le_refl _)]
    rfl
  unfold valueOf
  rw [hplain, hkind, encoding_ref hone]
  dsimp only
  rw [hword, idAt_getD]

/-- A property that holds several references has those that were written to it, filled up with
none. -/
theorem map_idAt_words_encoding (hpart : part.length = prop.length)
    {slots : List (Option ResourceId)} (hcount : slots.length ≤ prop.count) :
    (prop.words (r.encoding prop (.refs slots) part)).map idAt =
      slots.map (·.bind idAt) ++ List.replicate (prop.count - slots.length) none := by
  have hwords : prop.words (r.encoding prop (.refs slots) part) =
      padded prop.count (slots.map (·.getD 0)) := prop.words_setWords hpart (by simp [padded])
  rw [hwords, map_idAt_padded hcount]

/-- A property to which a value was written shows it, a raw buffer if it is found under the number
that it was entered under. -/
theorem valueOf_encoding (hsound : prop.IsSound) (hvalid : prop.validate value = .ok ())
    (hpart : part.length = prop.length)
    (hentered : ∀ b, value = .buffer b → after.buffer? r.supply.nextId = some b) {shown : Value}
    (hshown : prop.readback? value = some shown) :
    after.valueOf prop (r.encoding prop value part) = shown := by
  cases value with
  | text s => cases hshown
  | buffer b =>
    cases hshown
    exact valueOf_encoding_buffer hsound (prop.kind_of_validate_buffer hvalid) hpart (hentered b rfl)
  | ref target =>
    cases hshown
    exact valueOf_encoding_ref hsound (prop.kind_of_validate_ref hvalid) hpart target
  | refs slots =>
    cases hshown
    obtain ⟨hkind, hcount⟩ := prop.kind_of_validate_refs hvalid
    have hplain (part : Bytes) : prop.plainValue? part = none := by
      unfold Property.plainValue?
      rcases hkind with hk | hk <;> rw [hk]
    unfold valueOf
    rw [hplain]
    rcases hkind with hk | hk
    · rw [hk, map_idAt_words_encoding hpart hcount, takeWhile_append_replicate_none]
      rfl
    · rw [hk, map_idAt_words_encoding hpart hcount]
      rfl
  | bool | word | float | floats =>
    cases hshown
    have hwords := words_encoding (r := r) hsound (.inl (prop.isPlain_of_validate hvalid rfl)) hvalid
      hpart
    unfold valueOf
    rw [Property.plainValue?_of_validate hsound hvalid rfl hwords]

/-- An instance whose bytes have changed in one property has them changed there only. -/
theorem Alters.storage_self {f : Bytes → Bytes} {res res' : Resource} {schema : Schema}
    {bytes : Bytes} (h : r.Alters after (Storage.Spliced id prop f)) (hw : r.WellFormed)
    (hres : r.resource? id = some res) (hstorage : res.storage = .fields schema bytes)
    (hres' : after.resource? id = some res') :
    res'.storage = .fields schema (prop.splice bytes (f (prop.slice bytes))) := by
  rcases h.origin hres' with ⟨found, hfound, hspliced⟩ | ⟨hnew, -⟩
  · rw [hres] at hfound
    cases hfound
    unfold Storage.Spliced at hspliced
    rw [if_pos rfl] at hspliced
    obtain ⟨_, _, hsame, hspliced⟩ := hspliced
    obtain ⟨rfl, rfl⟩ := Storage.fields.inj (hstorage.symm.trans hsame)
    exact hspliced
  · exact absurd (hw.numbered hres).2 (Nat.not_le_of_lt hnew)

/-- Where the bytes of one instance have changed, every other instance that is there was there
before with the same bytes. -/
theorem Alters.storage_other {f : Bytes → Bytes} {x : ResourceId} {res' : Resource}
    {schema : Schema} {bytes : Bytes} (h : r.Alters after (Storage.Spliced id prop f)) (hne : x ≠ id)
    (hres' : after.resource? x = some res') (hstorage' : res'.storage = .fields schema bytes) :
    ∃ res, r.resource? x = some res ∧ res.storage = .fields schema bytes := by
  rcases h.origin hres' with ⟨res, hres, hspliced⟩ | ⟨-, p, hp⟩
  · unfold Storage.Spliced at hspliced
    rw [if_neg hne] at hspliced
    exact ⟨res, hres, hspliced.symm.trans hstorage'⟩
  · rw [hstorage'] at hp
    cases hp

/-- A raw buffer that was written to a property is found under the number that was next. -/
theorem ends_writeProp_entered {res : Resource} {schema : Schema} {bytes : Bytes}
    (hres : r.resource? id = some res) (hstorage : res.storage = .fields schema bytes)
    (hne : id ≠ r.supply.nextId) (prop : Property) (value : Value) :
    Ends (writeProp id prop value) r
      (fun _ after => ∀ b, value = .buffer b → after.buffer? r.supply.nextId = some b)
      (fun _ _ => True) := by
  by_cases hbuffer : ∃ b, value = .buffer b
  · obtain ⟨b, rfl⟩ := hbuffer
    unfold writeProp
    rw [Ends.bind_iff]
    apply (ends_liftSchema _ r).imp
    · rintro _ after ⟨rfl, -⟩
      rw [Ends.bind_iff]
      apply (ends_checkTargets prop (.buffer b) after).imp
      · rintro _ r ⟨rfl, -⟩
        apply (ends_writeBuffer_of_fields hres hstorage hne prop b).imp
        · rintro _ after ⟨-, created, length, hspawns, rfl⟩ _ ⟨⟩
          obtain ⟨bindings, load, hfound, -⟩ := hspawns.found
          have hholder : created.resource? id = some res := by rw [hspawns.others id hne, hres]
          have hholder' : (created.modifyResource r.supply.nextId Resource.retained).resource? id =
              some res := by
            rw [resource?_modifyResource, if_neg hne, hholder]
          unfold buffer?
          rw [resource?_storeBytes hholder' hstorage, if_neg hne.symm, resource?_modifyResource,
            if_pos rfl, hfound]
          rfl
        · exact fun _ _ _ => trivial
      · exact fun _ _ _ => trivial
    · exact fun _ _ _ => trivial
  · exact (spans_acts.writeProp id prop value r).imp
      (fun _ _ _ b heq => absurd ⟨b, heq⟩ hbuffer) fun _ _ _ => trivial

/-- A registry in which a value was written to a property of an instance that had certain bytes. -/
structure WritesOnly (r after : Registry) (id : ResourceId) (schema : Schema) (bytes : Bytes)
    (prop : Property) (value : Value) : Prop where
  /-- If the instance is still there, its bytes have changed inside the property only. -/
  outside : ∀ res', after.resource? id = some res' → ∃ bytes', res'.storage = .fields schema bytes' ∧
    bytes'.length = bytes.length ∧
    ∀ i, i < prop.offset ∨ prop.stop ≤ i → bytes'[i]? = bytes[i]?
  /-- If it is still there, the property shows the value. -/
  readback : ∀ res', after.resource? id = some res' → ∀ shown, prop.readback? value = some shown →
    after.getProp id prop.name = .ok shown
  /-- Any other instance that is there was there before, with the same bytes. -/
  others : ∀ x ≠ id, ∀ res' schema bytes, after.resource? x = some res' →
    res'.storage = .fields schema bytes →
      ∃ res, r.resource? x = some res ∧ res.storage = .fields schema bytes

/-- What a write puts is written there only. -/
theorem Alters.writesOnly {res : Resource} {schema : Schema} {bytes : Bytes} {name : String}
    (h : r.Alters after (Storage.Spliced id prop (r.encoding prop value))) (hw : r.WellFormed)
    (hres : r.resource? id = some res) (hstorage : res.storage = .fields schema bytes)
    (hprop : schema.layout.prop? name = some prop) (hvalid : prop.validate value = .ok ())
    (hentered : ∀ b, value = .buffer b → after.buffer? r.supply.nextId = some b) :
    r.WritesOnly after id schema bytes prop value := by
  obtain ⟨hmem, hname⟩ := Layout.mem_of_prop? hprop
  have hsound := hw.sound hres
  rw [hstorage] at hsound
  have hown := hsound.1.sound prop hmem
  have hpart := hsound.1.length_slice hmem hsound.2
  have hencoded := (r.length_encoding prop value (prop.slice bytes)).trans hpart
  refine ⟨fun res' hres' => ?_, fun res' hres' shown hshown => ?_,
    fun x hne res' schema bytes => h.storage_other hne⟩
  · refine ⟨_, h.storage_self hw hres hstorage hres', ?_, fun i hi => ?_⟩
    · rw [hsound.1.length_splice hmem hsound.2 hencoded, hsound.2]
    · have hstop := hsound.1.stop_le prop hmem
      unfold Property.stop at hi hstop
      unfold Property.splice
      rw [Bytes.getElem?_splice (by rw [hencoded, hsound.2]; exact hstop), if_neg]
      rw [hencoded]
      omega
  · unfold getProp
    rw [hres']
    dsimp only
    rw [h.storage_self hw hres hstorage hres']
    dsimp only
    rw [hname, hprop]
    dsimp only
    rw [hsound.1.slice_splice_self hmem hsound.2 hencoded,
      valueOf_encoding hown hvalid hpart hentered hshown]

/-- How a write ends: it was made to a property of an instance, and written there only. -/
theorem ends_put_writesOnly (hw : r.WellFormed) (hl : r.supply.Lasts) {name : String}
    {m : RegistryM Unit} (hm : IsPut id name value m) :
    Ends m r
      (fun _ after => ∃ res schema bytes prop, r.resource? id = some res ∧
        res.storage = .fields schema bytes ∧ schema.layout.prop? name = some prop ∧
          r.WritesOnly after id schema bytes prop value)
      (fun _ _ => True) := by
  refine hm.ends_of (fun _ => trivial) fun res schema bytes prop hres hstorage hprop => ?_
  have hne : id ≠ r.supply.nextId := ne_nextId (hw.numbered hres).2 hl
  refine ((ends_writeProp_alters hl id prop value).and
    (ends_writeProp_entered hres hstorage hne prop value)).imp ?_ fun _ _ _ => trivial
  rintro _ after ⟨⟨hvalid, halters⟩, hentered⟩
  exact ⟨res, schema, bytes, prop, hres, hstorage, hprop,
    halters.writesOnly hw hres hstorage hprop hvalid hentered⟩

end Registry

namespace Run

variable {config : Config} {supply : Supply} {past : List Moment} {b : Broadcast}

/-- Whatever was done, while fewer than `2 ^ 32 - 1` numbers have been given out, a value that the host
or a script writes is read back if the instance is still there, and nothing changes in any instance that
is still there but the bytes of its property. -/
theorem write_reads_back (h : Run (.opened config supply) past b)
    (hc : ∀ m ∈ past, m.action.IsCompiled) (hl : b.registry.supply.Lasts) {id : ResourceId}
    {name : String} {value : Value} {action : Action}
    (haction : action = .setProp id name value ∨ action = .setPropFromScript id name value)
    (hdone : (b.step action).1 = .done) :
    ∃ res schema bytes prop, b.registry.resource? id = some res ∧
      res.storage = .fields schema bytes ∧ schema.layout.prop? name = some prop ∧
        b.registry.WritesOnly (b.step action).2.registry id schema bytes prop value := by
  have hw := h.wellFormed hc hl
  have hends {m : RegistryM Unit} (hm : Registry.IsPut id name value m)
      (hstep : b.step action = b.onRegistry m fun _ => .done) :
      ∃ res schema bytes prop, b.registry.resource? id = some res ∧
        res.storage = .fields schema bytes ∧ schema.layout.prop? name = some prop ∧
          b.registry.WritesOnly (b.step action).2.registry id schema bytes prop value := by
    rw [hstep] at hdone ⊢
    rcases (Broadcast.onRegistry_ends (Registry.ends_put_writesOnly hw hl hm) fun _ => .done).1 with
      ⟨_, -, hwritten⟩ | ⟨e, hfailed, -⟩
    · exact hwritten
    · rw [hdone] at hfailed
      cases hfailed
  rcases haction with rfl | rfl
  · exact hends .host rfl
  · exact hends .script rfl

end Run

namespace Samples

/-- What is declared of a board: a rank, and three slots for boards that are pinned to it. -/
def boardDeclared : List Declaration :=
  [.ofKind "rank" .u32, { Declaration.refMap "pins" "board" 3 with isMutable := true }]

/-- The layout of a board. -/
def board : Layout := ⟨"board", boardDeclared.zipWith Declaration.place [0, 4], 16⟩

theorem isCompiled_board : board.IsCompiled := by
  refine ⟨"board", boardDeclared, ?_, by decide +kernel⟩
  intro d hd n hn
  simp only [boardDeclared, List.mem_cons, List.not_mem_nil, or_false] at hd
  rcases hd with rfl | rfl
  · exact Option.some.inj hn
  · cases hn

/-- Three boards, of which the first is pinned to the last. -/
def pinned : List Moment × Broadcast :=
  (Broadcast.opened ⟨.game, 4⟩ ⟨0, .initial⟩).play
    [.createInstance ⟨0, board⟩ [] {}, .createInstance ⟨0, board⟩ [("rank", .word 5)] {},
      .createInstance ⟨0, board⟩ [("rank", .word 7)] {}, .setProp 3 "pins" (.refs [some 1])]

/-- The second board is pinned to the last in place of the first. -/
def repinned : Answer × Broadcast := pinned.2.step (.setProp 3 "pins" (.refs [some 0, some 2]))

theorem isCompiled_pinned : ∀ m ∈ pinned.1, m.action.IsCompiled :=
  Broadcast.isCompiled_play _ (by simp [Action.IsCompiled, isCompiled_board])

/-- The slots are read back with none for zero and none for the rest. The first board is gone, and
the other two have the ranks that they had. -/
theorem write_reads_back_repinned : repinned.1 = .done ∧
    repinned.2.registry.getProp 3 "pins" = .ok (.refs [none, some 2, none]) ∧
    repinned.2.registry.resource? 1 = none ∧
    repinned.2.registry.getProp 2 "rank" = .ok (.word 5) ∧
    repinned.2.registry.getProp 3 "rank" = .ok (.word 7) := by
  have hrun : Run (.opened ⟨.game, 4⟩ ⟨0, .initial⟩) pinned.1 pinned.2 := .play _ _
  have hdone : repinned.1 = .done := by decide +kernel
  have hbefore : (pinned.2.registry.resource? 3).map Resource.storage =
      some (.fields ⟨0, board⟩ [7, 0, 0, 0, 1, 0, 0, 0, 0, 0, 0, 0, 0, 0, 0, 0]) := by decide +kernel
  have hafter : (repinned.2.registry.resource? 3).isSome = true := by decide +kernel
  obtain ⟨last, hlast⟩ := Option.isSome_iff_exists.mp hafter
  obtain ⟨res, schema, bytes, prop, hres, hstorage, hprop, hwritten⟩ :=
    Run.write_reads_back hrun isCompiled_pinned (by decide +kernel) (.inl rfl) hdone
  rw [hres, Option.map_some, hstorage, Option.some.injEq] at hbefore
  obtain ⟨rfl, rfl⟩ := Storage.fields.inj hbefore
  obtain rfl : (boardDeclared.zipWith Declaration.place [0, 4])[1] = prop :=
    Option.some.inj (.trans (by decide +kernel) hprop)
  exact ⟨hdone, hwritten.readback last hlast _ (by decide +kernel), by decide +kernel,
    by decide +kernel, by decide +kernel⟩

end Samples

end Framecast
