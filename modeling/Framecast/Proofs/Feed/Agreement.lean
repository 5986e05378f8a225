import Framecast.Proofs.Feed.Heralds
import Framecast.Proofs.Frames.Turning
import Framecast.Typed.Marker

/-!
# Where a consumer and its producer read the same

After a flush, a commit and an update that is late enough, a consumer has every
live resource that was sent to it, with the same payload or the same bytes. A raw
buffer was sent to wherever its holder was, so it reads the same on both sides. A
text was sent only over the links that were open when it was interned, and on any
other link it reads as empty.
-/

namespace Framecast

namespace Connection

variable {c : Connection} {id : ResourceId}

/-- Whether a consumer has a resource. -/
def Has (c : Connection) (id : ResourceId) : Prop := ∃ found, c.replica.resource? id = some found

/-- Whether a consumer has not refused a resource to load it. -/
def Accepts (c : Connection) (id : ResourceId) : Prop :=
  ∀ found, c.replica.resource? id = some found → found.error? = none

/-- A consumer shows no type of what it does not have or has refused. -/
theorem type?_eq_none (h : ¬(c.Has id ∧ c.Accepts id)) : c.view.type? id = none := by
  show (c.replica.resource? id).bind _ = none
  cases hfound : c.replica.resource? id with
  | none => rfl
  | some found =>
    refine if_neg fun hnone => h ⟨⟨found, hfound⟩, fun found' hfound' => ?_⟩
    rw [hfound] at hfound'
    cases hfound'
    exact Option.isNone_iff_eq_none.mp hnone

/-- A consumer shows no payload of what it does not have. -/
theorem payload?_eq_none (c : Connection) (h : ¬c.Has id) : c.view.payload? id = none := by
  show (c.replica.resource? id).bind _ = none
  cases hfound : c.replica.resource? id with
  | none => rfl
  | some found => exact absurd ⟨found, hfound⟩ h

end Connection

/-- A producer shows no payload of what is not there. -/
theorem Registry.payload?_eq_none {r : Registry} {id : ResourceId}
    (h : ¬∃ res, r.resource? id = some res) : r.view.payload? id = none := by
  show (r.resource? id).bind _ = none
  cases hres : r.resource? id with
  | none => rfl
  | some res => exact absurd ⟨res, hres⟩ h

namespace Broadcast

variable {b : Broadcast} {action : Action} {k : Nat}

/-- Live resources stay bound to links that there are, and raw buffers known wherever their holder
is. -/
theorem knowsBuffers_step (hc : action.IsCompiled) (hw : b.registry.WellFormed)
    (hl : (b.step action).2.registry.supply.Lasts)
    (h : b.registry.IsLinked ∧ b.registry.KnowsBuffers k) :
    (b.step action).2.registry.IsLinked ∧ (b.step action).2.registry.KnowsBuffers k := by
  cases hinternal : action.isInternal with
  | true =>
    refine ((changes_step hinternal hc hw hl).keep
      (P := fun s => s.IsLinked ∧ s.KnowsBuffers k) hw hl ?_ h).2
    rintro _ _ b₁ b₂ hw₁ - hl₂ hedit ⟨hlinked, hknows⟩
    refine ⟨hedit.isLinked hlinked, ?_⟩
    by_cases hk : k < b₁.registry.links.length
    · exact hedit.knowsBuffers hw₁ hl₂ hk hknows
    · rintro x res hres ⟨binding, hb, rfl⟩
      have hlt := (hedit.isLinked hlinked x res hres).2 binding hb
      rw [hedit.length_links] at hlt
      exact absurd hlt hk
  | false =>
    have hsame : b.registry.SameBodies (b.step action).2.registry := sameBodies_step hinternal
    refine ⟨hsame.isLinked (length_links_step hinternal) h.1, fun x res' hx hbound => ?_⟩
    obtain ⟨res, hres, heq⟩ := hsame.origin hx
    have hbindings := Resource.bindings_of_body heq
    have hsent := h.2 x res hres (by
      obtain ⟨binding, hb, hk⟩ := hbound
      exact ⟨binding, hbindings ▸ hb, hk⟩)
    rw [← Resource.storage_of_body heq]
    intro schema bytes hs prop hprop hkind y hy
    obtain ⟨hissued, htarget⟩ := hsent schema bytes hs prop hprop hkind y hy
    refine ⟨hissued.trans hsame.issued.ge, fun target' ht => ?_⟩
    obtain ⟨target, htarget', heq'⟩ := hsame.origin ht
    obtain ⟨binding, hb, hk⟩ := htarget target htarget'
    exact ⟨binding, Resource.bindings_of_body heq' ▸ hb, hk⟩

/-- What was live before a commit is published by it, and the next update shows it. -/
theorem read_update_commit (h : b.registry.IsWired) {id : ResourceId} {res : Resource}
    {schema : Schema} {bytes : Bytes} {binding : Binding} {buffer : Nat} {tick : Tick}
    (hres : b.registry.resource? id = some res) (hs : res.storage = .fields schema bytes)
    (hb : binding ∈ res.bindings) (hdata : binding.data? = some buffer) {c : Connection}
    (hconn : ((b.step .commit).2.step (.update binding.link tick)).2.connection? binding.link =
      some c) :
    c.wire.frames.read buffer = bytes := by
  have hpost : (⟨binding.link, buffer, bytes⟩ : Post) ∈ b.registry.commitPosts := by
    apply List.mem_append_left
    refine List.mem_flatMap.mpr ⟨res, Registry.mem_live.mpr ⟨id, hres⟩, ?_⟩
    unfold Resource.posts
    rw [hs]
    exact List.mem_filterMap.mpr ⟨binding, hb, by rw [hdata]; rfl⟩
  have hk := Registry.lt_of_allocated (h.allocated (Registry.mem_postings_of_commit hpost))
  have hposted := h.slotAt_posted (fun _ => Registry.mem_postings_of_commit) hpost
  have hframes := (framesAt_of_connection? hconn).2
  have hconn₂ : ((b.step .commit).2.connection? binding.link).isSome := by
    rcases (b.step .commit).2.onConnection_cases binding.link (Connection.update tick) with
      ⟨hnone, heq⟩ | ⟨c₂, hc₂, -⟩
    · have hsame : ((b.step .commit).2.step (.update binding.link tick)).2 =
          (b.step .commit).2 := by
        show ((b.step .commit).2.onConnection binding.link _).2 = _
        rw [heq]
      rw [hsame, hnone] at hconn
      cases hconn
    · rw [hc₂]
      rfl
  rw [framesAt_update, if_pos ⟨rfl, hconn₂⟩, step_commit h] at hframes
  rw [← hframes, Snapshot.FrameLink.read_eq_slot]
  show b.registry.committed.slotAt binding.link buffer
    (b.registry.committed.framesAt binding.link).flags.pickUp.2.readSlot = bytes
  rw [Snapshot.Flags.readSlot_pickUp, Registry.flags_committed h hk,
    Snapshot.Flags.changed_publish, if_pos rfl, Snapshot.Flags.tempSlot_publish,
    Registry.slotAt_committed h hk]
  exact hposted

end Broadcast

namespace Run

variable {config : Config} {supply : Supply} {past : List Moment} {b : Broadcast} {k : Nat}
  {c : Connection}

/-- In every run raw buffers are known wherever their holder is. -/
theorem knowsBuffers (h : Run (.opened config supply) past b)
    (hc : ∀ m ∈ past, m.action.IsCompiled) (hl : b.registry.supply.Lasts) (k : Nat) :
    b.registry.IsLinked ∧ b.registry.KnowsBuffers k := by
  refine h.kept (P := fun b => b.registry.IsLinked ∧ b.registry.KnowsBuffers k) hc hl ?_ ?_
  · refine ⟨fun x res hx => ?_, fun x res hx => ?_⟩
    · rw [Broadcast.resource?_opened] at hx
      cases hx
    · rw [Broadcast.resource?_opened] at hx
      cases hx
  · exact fun b action hw hone hl ih => Broadcast.knowsBuffers_step hone hw hl ih

/-- What a consumer has of a live resource is what was announced of it. -/
theorem announced (h : Run (.opened config supply) past b) (hc : ∀ m ∈ past, m.action.IsCompiled)
    (hl : b.registry.supply.Lasts) (hconn : b.connection? k = some c) {id : ResourceId}
    {found : LocalResource} {res : Resource} (hfound : c.replica.resource? id = some found)
    (hres : b.registry.resource? id = some res) : ∃ e, found.Shows e ∧ res.Announces k e := by
  have hheralds := h.heralds hc hl k
  obtain ⟨e, tick, hmem, rfl, hshows⟩ := (hheralds.trusts c hconn).had id found hfound
  exact ⟨e, hshows, hheralds.logs.announced e tick hmem res hres⟩

/-- What a consumer has of a live resource has its payload. -/
theorem payload_view (h : Run (.opened config supply) past b)
    (hc : ∀ m ∈ past, m.action.IsCompiled) (hl : b.registry.supply.Lasts)
    (hconn : b.connection? k = some c) {id : ResourceId} {res : Resource} (hhas : c.Has id)
    (hres : b.registry.resource? id = some res) :
    c.view.payload? id = b.registry.view.payload? id := by
  obtain ⟨found, hfound⟩ := hhas
  obtain ⟨e, hshows, -, -, -, binding, -, -, -, hcargo⟩ := h.announced hc hl hconn hfound hres
  show (c.replica.resource? id).bind LocalResource.payload? =
    (b.registry.resource? id).bind fun res => res.storage.payload?
  rw [hfound, hres]
  show found.payload? = res.storage.payload?
  unfold LocalResource.payload?
  rw [hshows.cargo]
  cases hs : res.storage with
  | payload p =>
    rw [hs] at hcargo
    rw [hcargo]
    rfl
  | fields schema bytes =>
    rw [hs] at hcargo
    obtain ⟨buffer, -, hcargo⟩ := hcargo
    rw [hcargo]
    rfl

/-- After a commit and an update, a consumer has the bytes that the producer has. -/
theorem bytes_view {flushed committed : Broadcast} {tick : Tick}
    (h : Run (.opened config supply)
      (⟨committed, .update k tick⟩ :: ⟨flushed, .commit⟩ :: past) b)
    (hc : ∀ m ∈ ⟨committed, .update k tick⟩ :: ⟨flushed, .commit⟩ :: past, m.action.IsCompiled)
    (hl : b.registry.supply.Lasts) (hconn : b.connection? k = some c) {id : ResourceId}
    {res : Resource} {schema : Schema} {bytes : Bytes} (hhas : c.Has id)
    (hres : b.registry.resource? id = some res) (hs : res.storage = .fields schema bytes) :
    c.view.bytes? id = some bytes := by
  obtain ⟨found, hfound⟩ := hhas
  obtain ⟨e, hshows, -, -, -, binding, hbinding, rfl, -, hcargo⟩ :=
    h.announced hc hl hconn hfound hres
  rw [hs] at hcargo
  obtain ⟨buffer, hdata, hcargo⟩ := hcargo
  have hread : c.wire.frames.read buffer = bytes := by
    cases h with
    | snoc h _ =>
      cases h with
      | snoc h _ =>
        have hwired := h.isWired
        have hcommit : Action.isInternal .commit = false := rfl
        have hupdate : Action.isInternal (.update binding.link tick) = false := rfl
        have hsame : flushed.registry.SameBodies _ :=
          (Broadcast.sameBodies_step hcommit).trans (Broadcast.sameBodies_step hupdate)
        obtain ⟨res₀, hres₀, heq⟩ := hsame.origin hres
        have hbindings := Resource.bindings_of_body heq
        have hstorage := Resource.storage_of_body heq
        exact Broadcast.read_update_commit hwired hres₀ (hstorage.trans hs)
          (hbindings ▸ hbinding) hdata hconn
  show (c.replica.resource? id).bind c.bytesOf? = _
  rw [hfound]
  show c.bytesOf? found = _
  unfold Connection.bytesOf?
  rw [hshows.cargo, hcargo, ← hread]

end Run

namespace View

variable {view : View} {id : ResourceId} {layout : Layout} {name : String} {prop : Property}
  {bytes : Bytes}

/-- A typed read of an instance goes by the bytes of the property. -/
theorem readProp_eq (htype : view.type? id = some layout.name)
    (hprop : layout.prop? name = some prop) (hbytes : view.bytes? id = some bytes)
    (hstop : prop.stop ≤ bytes.length) (marker : Marker) :
    view.readProp id layout name marker = .ok (marker.read? view (prop.slice bytes)) := by
  unfold readProp
  simp only [htype, hprop, hbytes, bne_self_eq_false, Bool.false_eq_true, if_false,
    Nat.not_lt.mpr hstop]

theorem readProp_of_none (htype : view.type? id = none) (marker : Marker) :
    view.readProp id layout name marker = .error (.notFound id) := by
  unfold readProp
  rw [htype]

end View

/-- How a property whose value is another resource is read: its marker, the word that numbers the
resource, and what is read of its payload, if there is any. -/
structure Mirrored where
  /-- The marker of such properties. -/
  marker : Marker
  /-- The word with the number of the resource. -/
  position : Nat
  /-- What is read. -/
  reading : Option Payload → Reading

/-- Texts are numbered by the only word of a property and raw buffers by the last of three. -/
def Kind.mirrored? : Kind → Option Mirrored
  | .string => some ⟨.string, 0, fun p? => .text ((p?.bind Payload.text?).getD "")⟩
  | .arrayBuffer => some ⟨.arrayBuffer, 2, fun p? => .buffer (p?.bind Payload.buffer?)⟩
  | _ => none

namespace Mirrored

variable {mirrored : Mirrored} {kind : Kind}

/-- The number of the resource is in the property. -/
theorem position_lt {prop : Property} (h : prop.kind.mirrored? = some mirrored)
    (hprop : prop.IsSound) : mirrored.position < prop.count := by
  unfold Kind.mirrored? at h
  split at h
  · rename_i hkind
    cases h
    rw [hprop.count_eq 1 (by rw [hkind]; rfl)]
    decide
  · rename_i hkind
    cases h
    rw [hprop.count_eq 3 (by rw [hkind]; rfl)]
    decide
  · cases h

/-- A view reads the payload under the number, which is there unless it is zero. -/
theorem read?_eq (h : kind.mirrored? = some mirrored) {bytes : Bytes} {w : UInt32}
    (hw : bytes.word? mirrored.position = some w) (view : View) :
    mirrored.marker.read? view bytes =
      some (mirrored.reading (if w = 0 then none else view.payload? w)) := by
  unfold Kind.mirrored? at h
  split at h
  · cases h
    show (bytes.word? 0).map _ = _
    rw [hw, Option.map_some]
    split <;> rfl
  · cases h
    show (bytes.word? 2).map _ = _
    rw [hw, Option.map_some]
    split <;> rfl
  · cases h

end Mirrored

/-- A word of a property is there as far as the property reaches. -/
theorem Layout.IsSound.word?_slice {layout : Layout} (h : layout.IsSound) {prop : Property}
    (hprop : prop ∈ layout.props) {storage : Bytes} (hs : storage.length = layout.byteLength)
    {i : Nat} (hi : i < prop.count) :
    (prop.slice storage).word? i = some ((prop.slice storage).word i) := by
  have hlength := h.length_slice hprop hs
  have hsome := (Bytes.isSome_word?_iff (prop.slice storage) i).mpr (by
    rw [hlength]
    unfold Property.length
    omega)
  obtain ⟨w, hw⟩ := Option.isSome_iff_exists.mp hsome
  rw [hw]
  unfold Bytes.word
  rw [hw]
  rfl

/-- A producer reads a property of a live instance from its own bytes. -/
theorem Registry.readProp_eq {r : Registry} (hw : r.WellFormed) {id : ResourceId}
    {res : Resource} {schema : Schema} {bytes : Bytes} {name : String} {prop : Property}
    (hres : r.resource? id = some res) (hs : res.storage = .fields schema bytes)
    (hprop : schema.layout.prop? name = some prop) (marker : Marker) :
    r.view.readProp id schema.layout name marker = .ok (marker.read? r.view (prop.slice bytes)) := by
  have hsound := hw.sound hres
  rw [hs] at hsound
  have htype : r.view.type? id = some schema.layout.name := by
    show (r.resource? id).map Resource.type = _
    rw [hres, Option.map_some, hw.named hres schema bytes hs]
    rfl
  have hbytes : r.view.bytes? id = some bytes := by
    show (r.resource? id).bind _ = _
    rw [hres]
    show res.storage.bytes? = _
    rw [hs]
    rfl
  exact View.readProp_eq htype hprop hbytes
    (hsound.2.symm ▸ hsound.1.stop_le prop (Layout.mem_of_prop? hprop).1) marker

/-- A producer reads the payload that a property numbers. -/
theorem Registry.readProp_view {r : Registry} (hw : r.WellFormed) {id : ResourceId}
    {res : Resource} {schema : Schema} {bytes : Bytes} {name : String} {prop : Property}
    {mirrored : Mirrored} (hres : r.resource? id = some res) (hs : res.storage = .fields schema bytes)
    (hprop : schema.layout.prop? name = some prop)
    (hmirrored : prop.kind.mirrored? = some mirrored) :
    r.view.readProp id schema.layout name mirrored.marker = .ok (some (mirrored.reading
      (if (prop.slice bytes).word mirrored.position = 0 then none
        else r.view.payload? ((prop.slice bytes).word mirrored.position)))) := by
  have hsound := hw.sound hres
  rw [hs] at hsound
  have hmem := (Layout.mem_of_prop? hprop).1
  rw [Registry.readProp_eq hw hres hs hprop]
  exact congrArg _ (Mirrored.read?_eq hmirrored (hsound.1.word?_slice hmem hsound.2
    (Mirrored.position_lt hmirrored (hsound.1.sound prop hmem))) _)

namespace Run

variable {config : Config} {supply : Supply} {past : List Moment}
  {b before flushed committed : Broadcast} {k : Nat} {c : Connection}

/-- After a commit and an update, a consumer reads the payload that a property numbers, if it has it,
unless it does not have the instance or has refused it. -/
theorem readProp_view {tick : Tick}
    (h : Run (.opened config supply)
      (⟨committed, .update k tick⟩ :: ⟨flushed, .commit⟩ :: past) b)
    (hc : ∀ m ∈ ⟨committed, .update k tick⟩ :: ⟨flushed, .commit⟩ :: past, m.action.IsCompiled)
    (hl : b.registry.supply.Lasts) (hconn : b.connection? k = some c) {id : ResourceId}
    {res : Resource} {schema : Schema} {bytes : Bytes} {name : String} {prop : Property}
    {mirrored : Mirrored} (hres : b.registry.resource? id = some res)
    (hs : res.storage = .fields schema bytes) (hprop : schema.layout.prop? name = some prop)
    (hmirrored : prop.kind.mirrored? = some mirrored) :
    (c.Has id ∧ c.Accepts id →
        c.view.readProp id schema.layout name mirrored.marker = .ok (some (mirrored.reading
          (if (prop.slice bytes).word mirrored.position = 0 then none
            else c.view.payload? ((prop.slice bytes).word mirrored.position))))) ∧
      (¬(c.Has id ∧ c.Accepts id) →
        c.view.readProp id schema.layout name mirrored.marker = .error (.notFound id)) := by
  refine ⟨fun ⟨hhas, haccepts⟩ => ?_, fun hnot => View.readProp_of_none (c.type?_eq_none hnot) _⟩
  have hw := h.wellFormed hc hl
  have hsound := hw.sound hres
  rw [hs] at hsound
  have hmem := (Layout.mem_of_prop? hprop).1
  have hbytes := h.bytes_view hc hl hconn hhas hres hs
  have htype : c.view.type? id = some schema.layout.name := by
    obtain ⟨found, hfound⟩ := hhas
    obtain ⟨e, hshows, htype, -⟩ := h.announced hc hl hconn hfound hres
    show (c.replica.resource? id).bind _ = _
    rw [hfound, Option.bind_some, haccepts found hfound, hshows.type, htype,
      hw.named hres schema bytes hs]
    rfl
  rw [View.readProp_eq htype hprop hbytes (hsound.2.symm ▸ hsound.1.stop_le prop hmem)]
  exact congrArg _ (Mirrored.read?_eq hmirrored (hsound.1.word?_slice hmem hsound.2
    (Mirrored.position_lt hmirrored (hsound.1.sound prop hmem))) _)

/-- If no update of a consumer failed, a flush, a commit and an update to a tick that no intent is
after give it exactly the live resources that are bound to its link. -/
theorem has_iff_of_attends {tick : Tick} (h : Run (.opened config supply)
      (⟨committed, .update k tick⟩ :: ⟨flushed, .commit⟩ :: ⟨before, .flush⟩ :: past) b)
    (hc : ∀ m ∈ ⟨committed, .update k tick⟩ :: ⟨flushed, .commit⟩ :: ⟨before, .flush⟩ :: past,
      m.action.IsCompiled)
    (hl : b.registry.supply.Lasts) (hconn : b.connection? k = some c)
    (hflush : (before.step .flush).1 = .done) (hdue : ∀ o ∈ queued k past, o.tick ≤ tick)
    (hattends : ∀ m ∈ ⟨committed, .update k tick⟩ :: ⟨flushed, .commit⟩ :: ⟨before, .flush⟩ :: past,
      m.Attends k) (id : ResourceId) :
    c.Has id ↔ ∃ res, b.registry.resource? id = some res ∧ res.IsBoundTo k := by
  have hqueued : queued k (⟨flushed, .commit⟩ :: ⟨before, .flush⟩ :: past) = queued k past := by
    have hcommit : Action.isInternal .commit = false := rfl
    have hflush : Action.isInternal .flush = false := rfl
    simp only [queued, Broadcast.queues_eq_nil_of_external _ hcommit,
      Broadcast.queues_eq_nil_of_external _ hflush, List.append_nil]
  obtain ⟨h₁, hc₁, hl₁, hattends₁⟩ := h.earlier hc hl hattends
  obtain ⟨h₂, hc₂, hl₂, hattends₂⟩ := h₁.earlier hc₁ hl₁ hattends₁
  obtain ⟨h₃, hc₃, hl₃, hattends₃⟩ := h₂.earlier hc₂ hl₂ hattends₂
  have hempty : committed.registry.outboxAt k = [] := by
    have hflushed := (h₃.relays hc₃ hl₃ hattends₃).outboxAt_flush.2 hflush
    cases h₁ with
    | snoc _ _ =>
      cases h₂ with
      | snoc _ _ => rw [Broadcast.outboxAt_step _ rfl (fun heq => by cases heq), hflushed]
  exact (h.resources_replica hc hl hattends hconn id).trans
    (h.standing_of_update hc hl hattends hempty (hqueued.symm ▸ hdue) id)

/-- After a flush, a commit and an update, a consumer reads the text or the raw buffer of an instance
as its producer does exactly if it has accepted the instance and either both have what the property
numbers, or neither reads anything. If no update of the consumer ever failed, the flush succeeded and
the update was to a tick that no intent is after, this is so for every raw buffer, and for every text
that is empty or bound to the link. -/
theorem readProp_eq_iff {tick : Tick} (h : Run (.opened config supply)
      (⟨committed, .update k tick⟩ :: ⟨flushed, .commit⟩ :: ⟨before, .flush⟩ :: past) b)
    (hc : ∀ m ∈ ⟨committed, .update k tick⟩ :: ⟨flushed, .commit⟩ :: ⟨before, .flush⟩ :: past,
      m.action.IsCompiled)
    (hl : b.registry.supply.Lasts) (hconn : b.connection? k = some c) {id : ResourceId}
    {res : Resource} {schema : Schema} {bytes : Bytes} {name : String} {prop : Property}
    {mirrored : Mirrored} (hres : b.registry.resource? id = some res)
    (hs : res.storage = .fields schema bytes) (hbound : res.IsBoundTo k)
    (hprop : schema.layout.prop? name = some prop)
    (hmirrored : prop.kind.mirrored? = some mirrored) :
    (c.view.readProp id schema.layout name mirrored.marker =
        b.registry.view.readProp id schema.layout name mirrored.marker ↔
      c.Has id ∧ c.Accepts id ∧
        (c.Has ((prop.slice bytes).word mirrored.position) ∧
            (∃ target, b.registry.resource? ((prop.slice bytes).word mirrored.position) =
              some target) ∨
          c.view.readProp id schema.layout name mirrored.marker =
              .ok (some (mirrored.reading none)) ∧
            b.registry.view.readProp id schema.layout name mirrored.marker =
              .ok (some (mirrored.reading none)))) ∧
    ((before.step .flush).1 = .done → (∀ o ∈ queued k past, o.tick ≤ tick) →
      (∀ m ∈ ⟨committed, .update k tick⟩ :: ⟨flushed, .commit⟩ :: ⟨before, .flush⟩ :: past,
        m.Attends k) →
      (c.view.readProp id schema.layout name mirrored.marker =
          b.registry.view.readProp id schema.layout name mirrored.marker ↔
        c.Accepts id ∧ (prop.kind = .arrayBuffer ∨
          b.registry.view.readProp id schema.layout name mirrored.marker =
            .ok (some (mirrored.reading none)) ∨
          ∃ target, b.registry.resource? ((prop.slice bytes).word mirrored.position) =
            some target ∧ target.IsBoundTo k))) := by
  obtain ⟨hconsumer, hrefused⟩ := h.readProp_view hc hl hconn hres hs hprop hmirrored
  have hproducer := Registry.readProp_view (h.wellFormed hc hl) hres hs hprop hmirrored
  have hmem := (Layout.mem_of_prop? hprop).1
  generalize hw : (prop.slice bytes).word mirrored.position = w at hconsumer hproducer ⊢
  have hfirst : c.view.readProp id schema.layout name mirrored.marker =
      b.registry.view.readProp id schema.layout name mirrored.marker ↔
        c.Has id ∧ c.Accepts id ∧ (c.Has w ∧ (∃ target, b.registry.resource? w = some target) ∨
          c.view.readProp id schema.layout name mirrored.marker =
              .ok (some (mirrored.reading none)) ∧
            b.registry.view.readProp id schema.layout name mirrored.marker =
              .ok (some (mirrored.reading none))) := by
    constructor
    · intro heq
      have hoffers : c.Has id ∧ c.Accepts id := by
        by_contra hnot
        rw [hrefused hnot, hproducer] at heq
        cases heq
      refine ⟨hoffers.1, hoffers.2, ?_⟩
      by_cases hlive : ∃ target, b.registry.resource? w = some target
      · by_cases hhas : c.Has w
        · exact .inl ⟨hhas, hlive⟩
        · have hblank := hconsumer hoffers
          rw [c.payload?_eq_none hhas, ite_self] at hblank
          exact .inr ⟨hblank, heq.symm.trans hblank⟩
      · have hblank := hproducer
        rw [Registry.payload?_eq_none hlive, ite_self] at hblank
        exact .inr ⟨heq.trans hblank, hblank⟩
    · rintro ⟨hhas, haccepts, ⟨hw, target, htarget⟩ | ⟨hleft, hright⟩⟩
      · rw [hconsumer ⟨hhas, haccepts⟩, hproducer, h.payload_view hc hl hconn hw htarget]
      · rw [hleft, hright]
  refine ⟨hfirst, fun hflush hdue hattends => ?_⟩
  have hhas := h.has_iff_of_attends hc hl hconn hflush hdue hattends
  have hid : c.Has id := (hhas id).mpr ⟨res, hres, hbound⟩
  rw [hfirst]
  constructor
  · rintro ⟨-, haccepts, ⟨hwhas, -⟩ | ⟨-, hblank⟩⟩
    · exact ⟨haccepts, .inr (.inr ((hhas w).mp hwhas))⟩
    · exact ⟨haccepts, .inr (.inl hblank)⟩
  · rintro ⟨haccepts, hcases⟩
    refine ⟨hid, haccepts, ?_⟩
    by_cases hwhas : c.Has w
    · obtain ⟨target, htarget, -⟩ := (hhas w).mp hwhas
      exact .inl ⟨hwhas, target, htarget⟩
    · have hleft := hconsumer ⟨hid, haccepts⟩
      rw [c.payload?_eq_none hwhas, ite_self] at hleft
      refine .inr ⟨hleft, ?_⟩
      rcases hcases with hkind | hblank | hlive
      · -- the raw buffer is bound to the link if it is there, since its holder is
        have hheld : w = 0 ∨ w ∈ prop.heldIds (prop.slice bytes) := by
          rw [hkind] at hmirrored
          cases hmirrored
          rw [Property.heldIds_of_arrayBuffer hkind, hw]
          by_cases hzero : w = 0
          · exact .inl hzero
          · exact .inr (by simpa using hzero)
        have hdeadOrZero : w = 0 ∨ ¬∃ target, b.registry.resource? w = some target := by
          refine hheld.imp_right fun hmemw => ?_
          rintro ⟨target, htarget⟩
          have hknown := (h.knowsBuffers hc hl k).2 id res hres hbound schema bytes hs prop hmem
            hkind w hmemw
          exact hwhas ((hhas w).mpr ⟨target, htarget, hknown.2 target htarget⟩)
        rw [hproducer]
        rcases hdeadOrZero with hzero | hnot
        · rw [if_pos hzero]
        · rw [Registry.payload?_eq_none hnot, ite_self]
      · exact hblank
      · exact absurd ((hhas w).mpr hlive) hwhas

end Run

namespace Samples

/-- Two nodes whose names are a text from before the consumer was connected and one from after. -/
def named : List Moment × Broadcast :=
  (Broadcast.opened ⟨.game, 4⟩ ⟨0, .initial⟩).play
    [.createString "early",
      .connect .render,
      .createInstance ⟨0, node⟩ [("name", .text "early")] {},
      .createInstance ⟨0, node⟩ [("name", .text "late")] {}]

/-- The two nodes are sent to the consumer and published, before it is brought to a tick. -/
def published : Broadcast := ((named.2.step .flush).2.step .commit).2

/-- The two nodes have reached the consumer. -/
def mirroredNodes : Broadcast := (published.step (.update 0 0)).2

/-- The moments of the two nodes. -/
def mirroring : List Moment :=
  ⟨published, .update 0 0⟩ :: ⟨(named.2.step .flush).2, .commit⟩ :: ⟨named.2, .flush⟩ :: named.1

theorem isCompiled_mirroring : ∀ m ∈ mirroring, m.action.IsCompiled := by
  intro m hm
  simp only [mirroring, named, Broadcast.play, List.foldl_cons, List.foldl_nil, List.mem_cons,
    List.not_mem_nil, or_false] at hm
  rcases hm with rfl | rfl | rfl | rfl | rfl | rfl | rfl
  all_goals first | exact isCompiled_node | trivial

/-- The consumer reads the text from after it was connected. -/
theorem readProp_late : ∃ c, mirroredNodes.connection? 0 = some c ∧
    c.view.readProp 3 node "name" .string =
      mirroredNodes.registry.view.readProp 3 node "name" .string := by
  have hrun : Run (.opened ⟨.game, 4⟩ ⟨0, .initial⟩) mirroring mirroredNodes := by
    have hnamed : Run (.opened ⟨.game, 4⟩ ⟨0, .initial⟩) named.1 named.2 := .play _ _
    unfold mirroring mirroredNodes published
    exact ((hnamed.snoc .flush).snoc .commit).snoc (.update 0 0)
  have hsome : (mirroredNodes.connection? 0).isSome = true := by decide +kernel
  have hrefused : ((mirroredNodes.connection? 0).bind fun c =>
      (c.replica.resource? 3).bind LocalResource.error?) = none := by decide +kernel
  have hnode : (mirroredNodes.registry.resource? 3).map (fun res =>
      (res.storage, res.bindings.map Binding.link)) =
        some (.fields ⟨0, node⟩ [4, 0, 0, 0, 0, 0, 0, 0], [0]) := by decide +kernel
  have htext : (mirroredNodes.registry.resource? 4).map (fun res =>
      res.bindings.map Binding.link) = some [0] := by decide +kernel
  obtain ⟨c, hconn⟩ := Option.isSome_iff_exists.mp hsome
  obtain ⟨res, hres, hfields⟩ := Option.map_eq_some_iff.mp hnode
  obtain ⟨target, htarget, hlinks⟩ := Option.map_eq_some_iff.mp htext
  obtain ⟨hstorage, hbindings⟩ := Prod.mk.inj hfields
  have hbound (res : Resource) (h : res.bindings.map Binding.link = [0]) : res.IsBoundTo 0 :=
    List.mem_map.mp (h ▸ List.mem_singleton_self 0)
  have haccepts : c.Accepts 3 := by
    intro found hfound
    rw [hconn, Option.bind_some, hfound] at hrefused
    exact hrefused
  have hlasts : mirroredNodes.registry.supply.Lasts := by decide +kernel
  have hflush : (named.2.step .flush).1 = .done := by decide +kernel
  have hdue : ∀ o ∈ queued 0 named.1, o.tick ≤ 0 := by decide +kernel
  have hattends : ∀ m ∈ mirroring, m.Attends 0 := by decide +kernel
  have hprop : node.prop? "name" = some ((Declaration.ofKind "name" .string).place 0) := by
    decide +kernel
  have hiff := (Run.readProp_eq_iff hrun isCompiled_mirroring hlasts hconn hres hstorage
    (hbound res hbindings) hprop rfl).2 hflush hdue hattends
  exact ⟨c, hconn, hiff.mpr ⟨haccepts, .inr (.inr ⟨target, htarget, hbound target hlinks⟩)⟩⟩

/-- The consumer has the other node as well, after a flush, a commit and an update that succeeded,
and does not read the text from before it was connected. -/
theorem readProp_early : ∃ c, mirroredNodes.connection? 0 = some c ∧
    (named.2.step .flush).1 = .done ∧ ((named.2.step .flush).2.step .commit).1 = .done ∧
    (∀ m ∈ mirroring, m.Attends 0) ∧ (∀ o ∈ queued 0 mirroring, o.tick ≤ 0) ∧
    mirroredNodes.registry.view.readProp 2 node "name" .string = .ok (some (.text "early")) ∧
      c.view.readProp 2 node "name" .string = .ok (some (.text "")) := by
  have hsome : (mirroredNodes.connection? 0).isSome = true := by decide +kernel
  have hread : (mirroredNodes.connection? 0).map (fun c =>
      c.view.readProp 2 node "name" .string) = some (.ok (some (.text ""))) := by decide +kernel
  obtain ⟨c, hconn, hblank⟩ := Option.map_eq_some_iff.mp hread
  exact ⟨c, hconn, by decide +kernel, by decide +kernel, by decide +kernel, by decide +kernel,
    by decide +kernel, hblank⟩

end Samples

end Framecast
