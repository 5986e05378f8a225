import Framecast.Proofs.Fields.Readback
import Framecast.Proofs.Run.Schemas

/-!
# What deduplication hands back

Texts, raw buffers, opaque resources and instances share one cache, which goes by type
and key, and what is cached is handed back unseen. So an interned text is the text, and
an instance that was asked for is one, exactly if nothing of another kind is cached in
its place. Whatever squats there was put there by the host, which has used the name of
a type for something else. Instances of a type that are handed back are of a schema that
agrees with the one that was asked for in any case.
-/

namespace Framecast

/-- Whether the storage is that of an instance. -/
def Storage.IsFields (s : Storage) : Prop := ∃ schema bytes, s = .fields schema bytes

/-- What the answers of deduplication are worth at a moment of a run. -/
structure Moment.FindsKind (past : List Moment) (m : Moment) : Prop where
  /-- Interning a text that is not empty answers with a number, and this leads to the text exactly
  if nothing squats under it. -/
  text : ∀ text, m.action = .createString text → text ≠ "" → ∃ id, m.answer = .created id ∧
    (m.after.registry.string? id = some text ↔ ∀ x, ¬m.before.registry.SquatsText x text)
  /-- A text that was written to an instance which stays live is read back exactly if it is empty or
  nothing squats under it, provided that what the property held before does not squat under a
  text. -/
  write : ∀ id name text,
    m.action = .setProp id name (.text text) ∨ m.action = .setPropFromScript id name (.text text) →
    m.answer = .done →
    (∀ w, m.before.registry.HeldUnder id name w → ∀ s, ¬m.before.registry.SquatsText w s) →
    ∀ res, m.after.registry.resource? id = some res →
      (m.after.registry.getProp id name = .ok (.text text) ↔
        (text ≠ "" → ∀ x, ¬m.before.registry.SquatsText x text))
  /-- A creation of an instance that succeeds answers with something live, and this is an instance
  of a schema that agrees with the one asked for exactly if nothing else squats under its key. -/
  creation : ∀ schema props options id, m.action = .createInstance schema props options →
    m.answer = .created id → ∃ res, m.after.registry.resource? id = some res ∧
      ((∃ other bytes, res.storage = .fields other bytes ∧ other.agrees schema = true) ↔
        ∀ x key, options.cacheKey? = some key →
          ¬m.before.registry.Squats x schema.name key Storage.IsFields)
  /-- What squats under a text was asked for as it is, under this text and the type of texts. -/
  squatText : ∀ x text, m.before.registry.SquatsText x text → ∃ m' ∈ past, ∃ frame,
    m'.made? = some (x, ⟨stringType, some (.text text), frame⟩) ∧ frame ≠ .payload (.text text)
  /-- What squats under the key of an instance was asked for as a payload of this type, or it is a
  text and the type is the one of texts. -/
  squat : ∀ x type key, m.before.registry.Squats x type key Storage.IsFields →
    (∃ m' ∈ past, ∃ p, m'.made? = some (x, ⟨type, some key, .payload p⟩)) ∨
      type = stringType ∧ ∃ s, key = .text s

namespace Makings

variable {past : List Moment} {b : Broadcast}

/-- What is live was asked for, or is incidental. -/
theorem asked_or_incidental (h : Makings past b) {x : ResourceId} {res : Resource}
    (hres : b.registry.resource? x = some res) :
    (∃ m ∈ past, m.made? = some (x, res.mould)) ∨ res.mould.IsIncidental := by
  obtain ⟨m, hm, -, hasked, hincidental⟩ := h.made x res hres
  by_cases hmade : ∃ asked, m.made? = some (x, asked)
  · obtain ⟨asked, hmade⟩ := hmade
    exact .inl ⟨m, hm, hasked asked hmade ▸ hmade⟩
  · exact .inr (hincidental fun asked hsome => hmade ⟨asked, hsome⟩)

/-- What squats under a text was asked for. -/
theorem squatText (h : Makings past b) {x : ResourceId} {text : String}
    (hsquat : b.registry.SquatsText x text) : ∃ m ∈ past, ∃ frame,
      m.made? = some (x, ⟨stringType, some (.text text), frame⟩) ∧
        frame ≠ .payload (.text text) := by
  obtain ⟨res, hres, htype, hkey, hother⟩ := hsquat
  have hframe : res.storage.frame ≠ .payload (.text text) :=
    fun heq => hother (Storage.frame_eq_payload.mp heq)
  rcases h.asked_or_incidental hres with ⟨m, hm, hmade⟩ | hincidental
  · unfold Resource.mould at hmade
    rw [htype, hkey] at hmade
    exact ⟨m, hm, _, hmade, hframe⟩
  · -- a text that was made on the way is under itself
    generalize hmould : res.mould = mould at hincidental
    have hasked : some (.text text) = mould.key? := hkey.symm.trans (congrArg Mould.key? hmould)
    have hsame : res.storage.frame = mould.frame := congrArg Mould.frame hmould
    cases hincidental with
    | text =>
      cases hasked
      exact absurd hsame hframe
    | buffer => cases hasked

/-- What squats under the key of an instance was asked for, or is a text. -/
theorem squat (h : Makings past b) {x : ResourceId} {type : String} {key : CacheKey}
    (hsquat : b.registry.Squats x type key Storage.IsFields) :
    (∃ m ∈ past, ∃ p, m.made? = some (x, ⟨type, some key, .payload p⟩)) ∨
      type = stringType ∧ ∃ s, key = .text s := by
  obtain ⟨res, hres, rfl, hkey, hother⟩ := hsquat
  obtain ⟨p, hp⟩ : ∃ p, res.storage = .payload p := by
    cases hs : res.storage with
    | payload p => exact ⟨p, rfl⟩
    | fields schema bytes => exact absurd ⟨schema, bytes, hs⟩ hother
  have hmould : res.mould = ⟨res.type, some key, .payload p⟩ := by
    unfold Resource.mould
    rw [hkey, hp]
    rfl
  rcases h.asked_or_incidental hres with ⟨m, hm, hmade⟩ | hincidental
  · exact .inl ⟨m, hm, p, hmould ▸ hmade⟩
  · rw [hmould] at hincidental
    generalize res.type = type at hincidental
    cases hincidental
    exact .inr ⟨rfl, _, rfl⟩

end Makings

namespace Broadcast

variable {b : Broadcast}

/-- Interning a text answers with a number that leads to the text exactly if nothing squats under
it. -/
theorem finds_text (hi : b.registry.IndexesLive) (ha : b.registry.IndexesAgree) {text : String}
    (hfull : text ≠ "") : ∃ id, (b.step (.createString text)).1 = .created id ∧
      ((b.step (.createString text)).2.registry.string? id = some text ↔
        ∀ x, ¬b.registry.SquatsText x text) := by
  rcases (onRegistry_ends (Registry.ends_createString_interned hi hfull) .created).1 with
    ⟨id, hanswer, rfl, target, hinterned⟩ | ⟨e, -, hfalse⟩
  · refine ⟨_, hanswer, ?_⟩
    rw [← hinterned.storage_iff ha hfull, Registry.string?_eq_some]
    refine ⟨?_, fun hstorage => ⟨target, hinterned.found, hstorage⟩⟩
    rintro ⟨found, hfound, hstorage⟩
    obtain rfl := Option.some.inj (hinterned.found.symm.trans hfound)
    exact hstorage
  · exact hfalse.elim

/-- A write that succeeds is read back from an instance that stays live, exactly if the text is
empty or nothing squats under it. -/
theorem reads_put {m : RegistryM Unit} {id : ResourceId} {name text : String}
    (hm : Registry.IsPut id name (.text text) m) (hw : b.registry.WellFormed)
    (hi : b.registry.IndexesLive) (ha : b.registry.IndexesAgree) (htextual : b.registry.IsTextual)
    (hl : (b.onRegistry m fun _ => .done).2.registry.supply.Lasts)
    (hlb : b.registry.supply.Lasts)
    (hheld : ∀ w, b.registry.HeldUnder id name w → ∀ s, ¬b.registry.SquatsText w s)
    (hdone : (b.onRegistry m fun _ => .done).1 = .done) {res : Resource}
    (hres : (b.onRegistry m fun _ => .done).2.registry.resource? id = some res) :
    (b.onRegistry m fun _ => .done).2.registry.getProp id name = .ok (.text text) ↔
      (text ≠ "" → ∀ x, ¬b.registry.SquatsText x text) := by
  rcases (onRegistry_ends (Registry.ends_put_reads hw hi ha hlb htextual hheld hm)
    fun _ => .done).1 with ⟨_, -, hreads⟩ | ⟨e, hanswer, -⟩
  · exact hreads hl res hres
  · rw [hdone] at hanswer
    cases hanswer

end Broadcast

namespace Registry

/-- What a creation of an instance hands back is an instance exactly if nothing else squats under its
key. -/
theorem isFields_iff {r : Registry} {id : ResourceId} {schema : Schema} {options : Options}
    {res : Resource} {frame : Storage} (ha : r.IndexesAgree)
    (hmould : res.mould = ⟨schema.name, options.cacheKey?, frame⟩)
    (horigin : frame = .fields schema [] ∧ r.cached? schema.name options.cacheKey? = none ∨
      r.resource? id = some res ∧ r.cached? schema.name options.cacheKey? = some id) :
    res.storage.IsFields ↔ ∀ x key, options.cacheKey? = some key →
      ¬r.Squats x schema.name key Storage.IsFields := by
  rcases horigin with ⟨rfl, huncached⟩ | ⟨hold, hcached⟩
  · refine iff_of_true ?_ fun x key hkey hsquat => ?_
    · have hframe : res.storage.frame = .fields schema [] := congrArg Mould.frame hmould
      cases hs : res.storage with
      | payload p =>
        rw [hs] at hframe
        cases hframe
      | fields other bytes => exact ⟨other, bytes, rfl⟩
    · rw [hkey, hsquat.cached? ha] at huncached
      cases huncached
  · refine ⟨fun hfields x key hkey hsquat => ?_, fun hnone => ?_⟩
    · -- what squats would be what was cached
      rw [hkey, hsquat.cached? ha] at hcached
      cases hcached
      obtain ⟨squatter, hsquatter, -, -, hother⟩ := hsquat
      rw [hold] at hsquatter
      cases hsquatter
      exact hother hfields
    · by_contra hother
      obtain ⟨slot, -, hslot⟩ := mem_cache_of_cached? hcached
      obtain ⟨key, hkey, -⟩ := Option.map_eq_some_iff.mp hslot
      exact hnone id key hkey ⟨res, hold, congrArg Mould.type hmould,
        (congrArg Mould.key? hmould).trans hkey, hother⟩

end Registry

namespace Run

variable {config : Config} {supply : Supply} {past : List Moment} {b : Broadcast} {m : Moment}

/-- A creation of an instance that succeeds answers with an instance exactly if nothing else squats
under its key, and the schema of this agrees with the one asked for. -/
theorem finds_created (h : Run (.opened config supply) (m :: past) b)
    (hc : ∀ m' ∈ m :: past, m'.action.IsCompiled) (hp : PublishedOnce (m :: past))
    (hl : b.registry.supply.Lasts) {schema : Schema} {props : List (String × Value)}
    {options : Options} {id : ResourceId}
    (haction : m.action = .createInstance schema props options)
    (hcreated : m.answer = .created id) :
    ∃ res, m.after.registry.resource? id = some res ∧
      ((∃ other bytes, res.storage = .fields other bytes ∧ other.agrees schema = true) ↔
        ∀ x key, options.cacheKey? = some key →
          ¬m.before.registry.Squats x schema.name key Storage.IsFields) := by
  obtain ⟨hrest, hlb⟩ := h.init_lasts hc hl
  have hbefore := h.init
  have hw := hbefore.wellFormed hrest hlb
  have hi := hbefore.indexesLive hrest hlb
  have ha := (hbefore.indexesFull hrest hlb).agree hi
  obtain rfl := h.end_eq
  have hone := hc m List.mem_cons_self
  obtain ⟨before, action⟩ := m
  dsimp only at haction
  subst haction
  rcases (Broadcast.onRegistry_ends (Registry.ends_createInstance_upholds hw hi hone.isSound props
    options) .created).1 with ⟨found, hanswer, hends⟩ | ⟨e, hanswer, -⟩
  · have hsame : Answer.created found = .created id := hanswer.symm.trans hcreated
    cases hsame
    obtain ⟨-, res, frame, hres, hmould, horigin⟩ := hends hl
    have hres' : (Moment.after ⟨before, .createInstance schema props options⟩).registry.resource?
        id = some res := hres
    have hagrees {other : Schema} {bytes : Bytes} (hstorage : res.storage = .fields other bytes) :
        other.agrees schema = true := by
      obtain ⟨m', hm', hother, hmade⟩ := h.created_of_fields hc hl hres' hstorage
      have hname : res.type = other.name := (h.wellFormed hc hl).named hres' other bytes hstorage
      exact h.agrees_of_name hc hp hm' List.mem_cons_self hother rfl hmade hcreated
        (hname.symm.trans (congrArg Mould.type hmould))
    refine ⟨res, hres, Iff.trans ⟨?_, ?_⟩ (Registry.isFields_iff ha hmould horigin)⟩
    · rintro ⟨other, bytes, hstorage, -⟩
      exact ⟨other, bytes, hstorage⟩
    · rintro ⟨other, bytes, hstorage⟩
      exact ⟨other, bytes, hstorage, hagrees hstorage⟩
  · have hsame : Answer.failed e = .created id := hanswer.symm.trans hcreated
    cases hsame

/-- Whatever was done, deduplication hands back what was asked for exactly if nothing of another
kind is cached in its place, and whatever squats there was put there by the host. -/
theorem finds_same_kind (h : Run (.opened config supply) past b)
    (hc : ∀ m ∈ past, m.action.IsCompiled) (hp : PublishedOnce past)
    (hl : b.registry.supply.Lasts) : ∀ m ∈ past, m.FindsKind past := by
  intro m hm
  obtain ⟨later, earlier, rfl⟩ := List.append_of_mem hm
  have hpart {m' : Moment} (hm' : m' ∈ m :: earlier) : m' ∈ later ++ m :: earlier :=
    List.mem_append_right _ hm'
  have hc' : ∀ m' ∈ m :: earlier, m'.action.IsCompiled := fun m' hm' => hc m' (hpart hm')
  obtain ⟨b₁, h₁, hissued⟩ := h.beginning hc
  have hl₁ := hl.mono hissued
  obtain ⟨hrest, hlb⟩ := h₁.init_lasts hc' hl₁
  have hbefore := h₁.init
  have hw := hbefore.wellFormed hrest hlb
  have hi := hbefore.indexesLive hrest hlb
  have ha := (hbefore.indexesFull hrest hlb).agree hi
  have htextual := hbefore.isTextual hrest hlb
  have hmakings := hbefore.makings hrest hlb
  have hcreated (schema : Schema) (props : List (String × Value)) (options : Options)
      (id : ResourceId) (haction : m.action = .createInstance schema props options)
      (hanswer : m.answer = .created id) :=
    h₁.finds_created hc' (fun m' hm' m'' hm'' => hp m' (hpart hm') m'' (hpart hm'')) hl₁ haction
      hanswer
  have hlast : m.after.registry.supply.Lasts := h₁.end_eq ▸ hl₁
  refine ⟨?_, ?_, hcreated, fun x text hsquat => ?_, fun x type key hsquat => ?_⟩
  · intro text haction hfull
    obtain ⟨before, action⟩ := m
    dsimp only at haction
    subst haction
    exact Broadcast.finds_text hi ha hfull
  · intro id name text haction hdone hheld res hres
    obtain ⟨before, action⟩ := m
    dsimp only at haction
    rcases haction with rfl | rfl
    · exact Broadcast.reads_put .host hw hi ha htextual hlast hlb hheld hdone hres
    · exact Broadcast.reads_put .script hw hi ha htextual hlast hlb hheld hdone hres
  · obtain ⟨m', hm', hasked⟩ := hmakings.squatText hsquat
    exact ⟨m', hpart (List.mem_cons_of_mem _ hm'), hasked⟩
  · refine (hmakings.squat hsquat).imp_left ?_
    rintro ⟨m', hm', hasked⟩
    exact ⟨m', hpart (List.mem_cons_of_mem _ hm'), hasked⟩

end Run

namespace Samples

/-- A text that is interned, and a node that is created under a key, given the text as its name, and
asked for again. -/
def namedNode : List Moment × Broadcast :=
  (Broadcast.opened ⟨.game, 8⟩ ⟨0, .initial⟩).play
    [.createString "hi", .createInstance ⟨0, node⟩ [] { cacheKey? := some (.number 7) },
      .setProp 2 "name" (.text "hi"),
      .createInstance ⟨0, node⟩ [] { cacheKey? := some (.number 7) }]

theorem isCompiled_namedNode : ∀ m ∈ namedNode.1, m.action.IsCompiled :=
  Broadcast.isCompiled_play _ (by simp [Action.IsCompiled, isCompiled_node])

theorem publishedOnce_namedNode : PublishedOnce namedNode.1 :=
  .of_forall ⟨0, node⟩ (Broadcast.forall_play
    (P := fun action => ∀ asked, action.schema? = some asked → asked = ⟨0, node⟩) _
    (by simp [Action.schema?]))

/-- The text is found under its number, the node is found again, and its name is read back. -/
theorem finds_same_kind_namedNode : (∀ m ∈ namedNode.1, m.FindsKind namedNode.1) ∧
    namedNode.1.map Moment.answer = [.created 2, .done, .created 2, .created 1] ∧
    namedNode.2.registry.string? 1 = some "hi" ∧
    namedNode.2.registry.getProp 2 "name" = .ok (.text "hi") :=
  ⟨Run.finds_same_kind (.play _ _) isCompiled_namedNode publishedOnce_namedNode (by decide +kernel),
    by decide +kernel, by decide +kernel, by decide +kernel⟩

/-- Two opaque resources that are cached as if they were a text and a node, and a node. -/
def squatted : List Moment × Broadcast :=
  (Broadcast.opened ⟨.game, 8⟩ ⟨0, .initial⟩).play
    [.connect .render, .registerType "string", .registerType "node",
      .createOpaque .render "string" (.number 5) { cacheKey? := some (.text "hi") },
      .createOpaque .render "node" (.number 6) { cacheKey? := some (.number 7) },
      .createInstance ⟨0, node⟩ [] {}]

/-- Interning the text answers with the first of them, which is no text, and a node to which the
text is written has no name. Asking for a node answers with the second, which is no node. -/
theorem squatted_found :
    Run (.opened ⟨.game, 8⟩ ⟨0, .initial⟩) squatted.1 squatted.2 ∧
      (squatted.2.step (.createString "hi")).1 = .created 1 ∧
      (squatted.2.step (.createString "hi")).2.registry.string? 1 = none ∧
      (squatted.2.step (.setProp 3 "name" (.text "hi"))).1 = .done ∧
      (squatted.2.step (.setProp 3 "name" (.text "hi"))).2.registry.getProp 3 "name" =
        .ok (.text "") ∧
      (squatted.2.step (.createInstance ⟨0, node⟩ [] { cacheKey? := some (.number 7) })).1 =
        .created 2 ∧
      ((squatted.2.step (.createInstance ⟨0, node⟩ []
        { cacheKey? := some (.number 7) })).2.registry.resource? 2).map Resource.storage =
          some (.payload (.number 6)) :=
  ⟨.play _ _, by decide +kernel, by decide +kernel, by decide +kernel, by decide +kernel,
    by decide +kernel, by decide +kernel⟩

end Samples

end Framecast
