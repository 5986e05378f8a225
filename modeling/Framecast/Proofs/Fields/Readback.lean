import Framecast.Proofs.Fields.Texts
import Framecast.Proofs.Registry.Listing

/-!
# Reading back what was written

A text that was written is read back exactly if the key of the text leads to it and to
nothing else. What it replaces in the property must be a text as well: then it goes
alone, and cannot take along what was written in its place.
-/

namespace Framecast

namespace Registry

/-- Whether a resource has a type and a key without being what is meant by them. -/
def Squats (r : Registry) (x : ResourceId) (type : String) (key : CacheKey)
    (meant : Storage → Prop) : Prop :=
  ∃ res, r.resource? x = some res ∧ res.type = type ∧ res.cacheKey? = some key ∧ ¬meant res.storage

/-- Whether a resource is cached under a text of the type of texts without being this text. -/
def SquatsText (r : Registry) (x : ResourceId) (text : String) : Prop :=
  r.Squats x stringType (.text text) (· = .payload (.text text))

variable {r after : Registry} {id x : ResourceId} {schema : Schema} {prop : Property}
  {text : String} {res : Resource} {bytes : Bytes}

/-- Whether a property that an instance has under a name holds a number. -/
def HeldUnder (r : Registry) (id : ResourceId) (name : String) (x : ResourceId) : Prop :=
  ∃ res schema bytes prop, r.resource? id = some res ∧ res.storage = .fields schema bytes ∧
    schema.layout.prop? name = some prop ∧ x ∈ prop.heldIds (prop.slice bytes)

/-- A number leads to a text if the text is the payload there. -/
theorem string?_eq_some :
    r.string? x = some text ↔
      ∃ res, r.resource? x = some res ∧ res.storage = .payload (.text text) := by
  unfold string?
  rw [Option.bind_eq_some_iff]
  refine exists_congr fun res => and_congr_right fun _ => ?_
  cases res.storage with
  | fields schema bytes => simp [Storage.payload?]
  | payload p => cases p <;> simp [Storage.payload?, Payload.text?]

/-- A number leads to a raw buffer if the raw buffer is the payload there. -/
theorem buffer?_eq_some {b : RawBuffer} : r.buffer? x = some b ↔
    ∃ res, r.resource? x = some res ∧ res.storage = .payload (.buffer b) := by
  unfold buffer?
  rw [Option.bind_eq_some_iff]
  refine exists_congr fun res => and_congr_right fun _ => ?_
  cases res.storage with
  | fields schema bytes => simp [Storage.payload?]
  | payload p => cases p <;> simp [Storage.payload?, Payload.buffer?]

/-- What squats under a key is what the key leads to. -/
theorem Squats.cached? {type : String} {key : CacheKey} {meant : Storage → Prop}
    (h : r.Squats x type key meant) (ha : r.IndexesAgree) :
    r.cached? type (some key) = some x := by
  obtain ⟨res, hres, htype, hkey, -⟩ := h
  exact (ha.cached type key x).mpr ⟨res, hres, htype, hkey⟩

/-- What was interned is the text exactly if nothing squats under it. -/
theorem Interned.storage_iff {target : Resource} (h : r.Interned after text target)
    (ha : r.IndexesAgree) (hfull : text ≠ "") :
    target.storage = .payload (.text text) ↔ ∀ x, ¬r.SquatsText x text := by
  refine ⟨fun hstorage x hsquat => ?_, fun hnone => ?_⟩
  · -- what squats would be what was cached, and be left as it is
    have hcached := hsquat.cached? ha
    have hid : r.internedId text = x := by
      unfold internedId
      rw [if_neg (by simpa using hfull), hcached]
      rfl
    rcases h.interns with rfl | ⟨-, huncached, -⟩
    · obtain ⟨res, hres, -, -, hother⟩ := hsquat
      have hfound := h.found
      rw [hid, hres] at hfound
      cases hfound
      exact hother hstorage
    · rw [hcached] at huncached
      cases huncached
  · rcases h.made with hmade | hold
    · exact hmade
    · by_contra hother
      exact hnone _ ⟨target, hold, congrArg Mould.type h.mould, congrArg Mould.key? h.mould, hother⟩

/-- The value of a text property is the text that its number leads to. -/
theorem valueOf_text (hkind : prop.kind = .string) (part : Bytes) :
    r.valueOf prop part = .text ((r.string? (part.word 0)).getD "") := by
  have hplain : prop.plainValue? part = none := by
    unfold Property.plainValue?
    rw [hkind]
  unfold valueOf
  rw [hplain, hkind]

/-- After a text was written to an instance that stays live, its property has the text that the
number leads to under which it was interned. -/
theorem getProp_of_puts (hw : r.WellFormed) {name : String} (h : r.Puts after id name (.text text))
    (hlive : after.resource? id = some res) :
    after.getProp id name = .ok (.text ((after.string? (r.internedId text)).getD "")) := by
  obtain ⟨old, schema, bytes, prop, hold, hstorage, hprop, hvalid, halters⟩ := h
  have hmem := (Layout.mem_of_prop? hprop).1
  have hkind := prop.kind_of_validate_text hvalid
  have hsound := hw.sound hold
  rw [hstorage] at hsound
  have hown := hsound.1.sound prop hmem
  have hpart := hsound.1.length_slice hmem hsound.2
  rcases halters.origin hlive with ⟨found, hfound, hspliced⟩ | ⟨hnew, -⟩
  · rw [hold] at hfound
    cases hfound
    unfold Storage.Spliced at hspliced
    rw [if_pos rfl] at hspliced
    obtain ⟨_, _, hsame, hspliced⟩ := hspliced
    obtain ⟨rfl, rfl⟩ := Storage.fields.inj (hstorage.symm.trans hsame)
    have hwords := words_encoding_text (r := r) hown hkind hpart text
    have hone : prop.count = 1 := hown.count_eq 1 (by rw [hkind]; rfl)
    have hword : (r.encoding prop (.text text) (prop.slice bytes)).word 0 = r.internedId text := by
      unfold Property.words at hwords
      rw [hone] at hwords
      exact List.head_eq_of_cons_eq hwords
    unfold getProp
    rw [hlive]
    dsimp only
    rw [hspliced]
    dsimp only
    rw [hprop]
    dsimp only
    rw [hsound.1.slice_splice_self hmem hsound.2 ((r.length_encoding prop _ _).trans hpart),
      valueOf_text hkind, hword]
  · exact absurd (hw.numbered hold).2 (Nat.not_le_of_lt hnew)

/-- A text that is not empty is there after it was written, as it was interned, if what the property
held before does not squat under a text. -/
theorem ends_writeProp_lands (hw : r.WellFormed) (hi : r.IndexesLive) (hl : r.supply.Lasts)
    (htextual : r.IsTextual) (hres : r.resource? id = some res)
    (hstorage : res.storage = .fields schema bytes) (hmem : prop ∈ schema.layout.props)
    (hheld : ∀ w ∈ prop.heldIds (prop.slice bytes), ∀ s, ¬r.SquatsText w s) (hfull : text ≠ "") :
    Ends (writeProp id prop (.text text)) r
      (fun _ after => after.supply.Lasts → ∃ interned target res', r.Interned interned text target ∧
        after.resource? (r.internedId text) = some res' ∧ res'.mould = target.mould)
      (fun _ _ => True) := by
  have hsound := hw.sound hres
  rw [hstorage] at hsound
  refine ((ends_writeProp_text hi id prop hfull).and
    (ends_writeProp_alters hl id prop (.text text))).imp ?_ fun _ _ _ => trivial
  rintro _ after
    ⟨⟨interned, target, holder, _, _, hinterned, hholder, hsame, rfl⟩, hvalid, -⟩ hlast
  have hkind := prop.kind_of_validate_text hvalid
  have hown := hsound.1.sound prop hmem
  have hacts := acts_exchange interned id prop ‹Bytes› [r.internedId text]
  have hlast' : interned.supply.Lasts := hlast.mono (Acts.strokes hacts).issued_le
  have hinto := Acts.upholds hinterned.acts hw.isKeyed hlast'
  have hout := Acts.upholds hacts hinto.keyed hlast
  obtain ⟨hne, hissued, -⟩ := hinterned.numbered hw hlast'
  rw [hinterned.interns.others id (ne_nextId (hw.numbered hres).2 hl), hres] at hholder
  cases hholder
  obtain ⟨rfl, rfl⟩ := Storage.fields.inj (hstorage.symm.trans hsame)
  obtain ⟨res', hres'⟩ : ∃ res', (interned.exchange id prop bytes
      [r.internedId text]).resource? (r.internedId text) = some res' := by
    refine exists_exchange hinto.keyed hne hinterned.found
      (hown.count_eq 1 (by rw [hkind]; rfl)) bytes fun w hw hzero found hfound => ?_
    have hmemw : w ∈ prop.heldIds (prop.slice bytes) := by
      rw [prop.heldIds_of_isHolder hown (.inl hkind)]
      exact List.mem_filter.mpr ⟨hw, by simpa using hzero⟩
    have htext := htextual id res hres schema bytes hstorage prop hmem hkind w hmemw
    obtain ⟨old, hold, hmould, hcount⟩ := hinto.origin htext.issued hfound
    obtain ⟨s, frame, hnamed⟩ := htext.named old hold
    have hpayload : old.storage = .payload (.text s) := by
      by_contra hother
      exact hheld w hmemw s
        ⟨old, hold, congrArg Mould.type hnamed, congrArg Mould.key? hnamed, hother⟩
    exact ⟨⟨.text s, (Resource.payload_iff_of_mould hmould).mpr hpayload⟩,
      hcount (htext.counted old hold)⟩
  obtain ⟨found, hfound, hmould, -⟩ := hout.origin hissued hres'
  rw [hinterned.found] at hfound
  cases hfound
  exact ⟨interned, target, res', hinterned, hres', hmould⟩

/-- A text that was written to a property is found under its number exactly if it is empty or
nothing squats under it, provided that what the property held before does not squat either. -/
theorem ends_writeProp_found (hw : r.WellFormed) (hi : r.IndexesLive) (ha : r.IndexesAgree)
    (hl : r.supply.Lasts) (htextual : r.IsTextual) {name : String}
    (hres : r.resource? id = some res) (hstorage : res.storage = .fields schema bytes)
    (hprop : schema.layout.prop? name = some prop)
    (hheld : ∀ w ∈ prop.heldIds (prop.slice bytes), ∀ s, ¬r.SquatsText w s) (text : String) :
    Ends (writeProp id prop (.text text)) r
      (fun _ after => after.supply.Lasts → ((after.string? (r.internedId text)).getD "" = text ↔
        (text ≠ "" → ∀ x, ¬r.SquatsText x text)))
      (fun _ _ => True) := by
  by_cases hfull : text = ""
  · -- nothing has the number of the empty text
    subst hfull
    refine (ends_writeProp_of_prop? hw hres hstorage hprop (.text "")).imp ?_ fun _ _ _ => trivial
    intro _ after hwrites hl
    have hw' := (hwrites hl).keepsOutside.changes.wellFormed hw hl
    have hnone : after.resource? 0 = none := by
      cases hzero : after.resource? 0 with
      | none => rfl
      | some found => exact absurd rfl (hw'.numbered hzero).1
    refine iff_of_true ?_ fun hne => absurd rfl hne
    show (after.string? 0).getD "" = ""
    unfold string?
    rw [hnone]
    rfl
  · refine (ends_writeProp_lands hw hi hl htextual hres hstorage (Layout.mem_of_prop? hprop).1
      hheld hfull).imp ?_ fun _ _ _ => trivial
    intro _ after hlands hlast
    obtain ⟨interned, target, res', hinterned, hres', hmould⟩ := hlands hlast
    have hsome : (after.string? (r.internedId text)).getD "" = text ↔
        after.string? (r.internedId text) = some text := by
      cases after.string? (r.internedId text) with
      | none => exact iff_of_false (Ne.symm hfull) nofun
      | some found => simp
    rw [hsome, string?_eq_some, hres']
    simp only [Option.some.injEq, exists_eq_left', hfull, ne_eq, not_false_eq_true, forall_const]
    rw [Resource.payload_iff_of_mould hmould, hinterned.storage_iff ha hfull]

/-- A write that succeeds is read back from an instance that stays live, exactly if the text is
empty or nothing squats under it. -/
theorem ends_put_reads (hw : r.WellFormed) (hi : r.IndexesLive) (ha : r.IndexesAgree)
    (hl : r.supply.Lasts) (htextual : r.IsTextual) {name : String}
    (hheld : ∀ w, r.HeldUnder id name w → ∀ s, ¬r.SquatsText w s)
    {m : RegistryM Unit} (hm : IsPut id name (.text text) m) :
    Ends m r
      (fun _ after => after.supply.Lasts → ∀ res, after.resource? id = some res →
        (after.getProp id name = .ok (.text text) ↔ (text ≠ "" → ∀ x, ¬r.SquatsText x text)))
      (fun _ _ => True) := by
  have hfound : Ends m r
      (fun _ after => after.supply.Lasts → ((after.string? (r.internedId text)).getD "" = text ↔
        (text ≠ "" → ∀ x, ¬r.SquatsText x text)))
      (fun _ _ => True) :=
    hm.ends_of (fun _ => trivial) fun res schema bytes prop hres hstorage hprop =>
      ends_writeProp_found hw hi ha hl htextual hres hstorage hprop
        (fun w hw => hheld w ⟨res, schema, bytes, prop, hres, hstorage, hprop, hw⟩) text
  refine (hfound.and (ends_put_alters hl hm)).imp ?_ fun _ _ _ => trivial
  rintro _ after ⟨hstring, hputs⟩ hlast res hres
  rw [getProp_of_puts hw hputs hres, ← hstring hlast, Except.ok.injEq, Value.text.injEq]

end Registry

end Framecast
