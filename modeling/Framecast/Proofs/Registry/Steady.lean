import Framecast.Proofs.Registry.WellFormed

/-!
# What elementary changes leave alone

An instance keeps its schema, the instance that is written to is not sent
anywhere meanwhile, no link comes or goes, the tick stays, and a raw buffer that
an instance holds is known wherever the instance is.
-/

namespace Framecast

/-- Whether a resource, if it is there, is an instance of a schema. -/
def Registry.IsInstance (r : Registry) (id : ResourceId) (schema : Schema) : Prop :=
  ∀ res, r.resource? id = some res → ∃ bytes, res.storage = .fields schema bytes

/-- Every raw buffer that is held by something that was sent over a link was sent over it as well, if
it is still there. -/
def Registry.KnowsBuffers (r : Registry) (k : Nat) : Prop :=
  ∀ id res, r.resource? id = some res → res.IsBoundTo k → r.BuffersSent res.storage k

namespace Edit

variable {strict : Prop} {writer : ResourceId} {b b' : Book} {schema : Schema} {id : ResourceId}

/-- An instance of a schema stays one. -/
theorem isInstance (h : Edit strict writer b b') (hw : b.registry.WellFormed)
    (hl : b'.registry.supply.Lasts) (hid : id.toNat ≤ b.registry.supply.issued)
    (hinst : b.registry.IsInstance id schema) : b'.registry.IsInstance id schema := by
  intro res' hres'
  obtain ⟨res, hres, hev⟩ := h.origin_of_issued hw hl hid hres'
  obtain ⟨bytes, hstorage⟩ := hinst res hres
  have hstorage' := hev.storage
  rw [hstorage] at hstorage'
  obtain ⟨bytes', hstorage', -⟩ := hstorage'
  exact ⟨bytes', hstorage'⟩

/-- The instance that is written to is not sent anywhere. -/
theorem bindings_writer (h : Edit strict writer b b')
    (hl : b'.registry.supply.Lasts) (hid : writer.toNat ≤ b.registry.supply.issued)
    (hunsent : ∀ res, b.registry.resource? writer = some res → res.bindings = []) :
    ∀ res, b'.registry.resource? writer = some res → res.bindings = [] := by
  intro res' hres'
  cases h.descent hres' with
  | kept hres _ _ _ _ hbindings => exact hbindings.trans (hunsent _ hres)
  | entered hx hsupply =>
    rw [hsupply] at hl
    exact absurd hx (Registry.ne_nextId hid hl.of_draw)
  | @stored res _ _ _ _ _ hres _ _ _ _ heq =>
    subst heq
    exact hunsent res hres
  | shipped _ _ hother => exact absurd rfl hother

/-- The number of links does not change. -/
theorem length_links (h : Edit strict writer b b') :
    b'.registry.links.length = b.registry.links.length := by
  cases h with
  | quiet h => simpa using congrArg List.length h.links
  | enter => rfl
  | drop => rfl
  | retain => simp
  | release => simp
  | store => exact congrArg List.length (Registry.links_modifyResource _ _ _)
  | ship => simp
  | @remove r _ _ id res _ _ =>
    obtain ⟨_, heq⟩ := Registry.remove_eq res r
    simp [heq]

/-- Buffers that were sent stay so, whatever else is entered, sent or removed. -/
theorem buffersSent_mono (h : Edit strict writer b b') (hw : b.registry.WellFormed)
    (hl : b'.registry.supply.Lasts) {storage : Storage} {k : Nat}
    (hsent : b.registry.BuffersSent storage k) : b'.registry.BuffersSent storage k := by
  intro schema bytes hs prop hprop hk x hx
  obtain ⟨hissued, hbound⟩ := hsent schema bytes hs prop hprop hk x hx
  refine ⟨hissued.trans h.issued_le, fun target' htarget' => ?_⟩
  obtain ⟨target, htarget, hev⟩ := h.origin_of_issued hw hl hissued htarget'
  exact hev.isBoundTo (hbound target htarget)

/-- If the buffers that a resource holds were sent over a link, they are so after the change, also
those that were only now put into it. -/
theorem buffersSent (h : Edit strict writer b b') (hw : b.registry.WellFormed)
    (hl : b'.registry.supply.Lasts) {k : Nat} (hk : k < b.registry.links.length)
    (hsent : ∀ res, b.registry.resource? id = some res → b.registry.BuffersSent res.storage k) :
    ∀ res', b'.registry.resource? id = some res' → b'.registry.BuffersSent res'.storage k := by
  intro res' hres'
  rcases h.origin hw hres' with ⟨res, hres, -, heq | ⟨-, hrewrites⟩⟩ | ⟨-, -, -, hnew⟩
  · rw [heq]
    exact h.buffersSent_mono hw hl (hsent res hres)
  · obtain ⟨schema, bytes, prop, part, hs, hprop, hpart, hadmits, hs'⟩ := hrewrites
    have hsound := hw.sound hres
    rw [hs] at hsound
    have hself : b.registry.BuffersSent res'.storage k := by
      intro schema' bytes' heq prop' hprop' hkind x hx
      rw [hs'] at heq
      cases heq
      by_cases hne : prop = prop'
      · subst hne
        rw [hsound.1.slice_splice_self hprop hsound.2 hpart] at hx
        obtain ⟨target, htarget, -, hall⟩ := hadmits.sent hkind x hx
        refine ⟨(hw.numbered htarget).2, fun target' htarget' => ?_⟩
        rw [htarget] at htarget'
        cases htarget'
        exact hall k hk
      · rw [hsound.1.slice_splice_of_ne hprop hprop' hne hsound.2 hpart] at hx
        exact hsent res hres schema bytes hs prop' hprop' hkind x hx
    exact h.buffersSent_mono hw hl hself
  · intro schema bytes hs prop hprop hkind x hx
    have hblank := hnew.blank
    rw [hs] at hblank
    have hmem : x ∈ schema.layout.heldIds bytes := List.mem_flatMap.mpr ⟨prop, hprop, hx⟩
    rw [show schema.layout.heldIds bytes = [] from hblank] at hmem
    cases hmem

/-- A resource that is newly sent over a link holds only buffers that were sent over it. -/
theorem buffersSent_of_newly_bound (h : Edit strict writer b b') {k : Nat} {res res' : Resource}
    (hres : b.registry.resource? id = some res) (hres' : b'.registry.resource? id = some res')
    (hnot : ¬res.IsBoundTo k) (hbound : res'.IsBoundTo k) :
    b.registry.BuffersSent res'.storage k := by
  cases h.descent hres' with
  | kept hbefore _ _ _ _ hbindings =>
    cases hres.symm.trans hbefore
    obtain ⟨binding, hb, hk⟩ := hbound
    exact absurd ⟨binding, hbindings ▸ hb, hk⟩ hnot
  | entered _ _ _ hnew =>
    obtain ⟨binding, hb, -⟩ := hbound
    rw [hnew.unsent] at hb
    cases hb
  | stored _ hbefore _ _ _ _ heq =>
    cases hres.symm.trans hbefore
    subst heq
    exact absurd hbound hnot
  | shipped hbefore _ _ _ hbuffers heq =>
    cases hres.symm.trans hbefore
    subst heq
    obtain ⟨binding, hb, rfl⟩ := hbound
    rcases List.mem_append.mp hb with hb | hb
    · exact absurd ⟨binding, hb, rfl⟩ hnot
    · rw [List.mem_singleton.mp hb, Link.link_ship]
      exact hbuffers

/-- Raw buffers stay known wherever their holder is. -/
theorem knowsBuffers (h : Edit strict writer b b') (hw : b.registry.WellFormed)
    (hl : b'.registry.supply.Lasts) {k : Nat} (hk : k < b.registry.links.length)
    (hknows : b.registry.KnowsBuffers k) : b'.registry.KnowsBuffers k := by
  intro x res' hres' hbound
  by_cases hold : ∀ res, b.registry.resource? x = some res → res.IsBoundTo k
  · exact h.buffersSent hw hl hk (fun res hres => hknows x res hres (hold res hres)) res' hres'
  · push Not at hold
    obtain ⟨res, hres, hnot⟩ := hold
    exact h.buffersSent_mono hw hl (h.buffersSent_of_newly_bound hres hres' hnot hbound)

end Edit

end Framecast
