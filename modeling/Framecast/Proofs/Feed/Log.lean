import Framecast.Proofs.Feed.Intents
import Framecast.Proofs.Registry.Steady

/-!
# The log of a link follows the registry

What was ever queued for a link is a log in order, and what stands in it are the
live resources that are bound to the link. Elementary changes continue the log
accordingly: a sending queues a creation, a removal queues a disposal on every
link of the resource, and nothing else queues anything.
-/

namespace Framecast

/-- What an envelope tells of a resource that was sent over a link. -/
def Resource.Announces (res : Resource) (k : Nat) (e : Envelope) : Prop :=
  e.type = res.type ∧ e.id = res.id ∧ e.name = res.name ∧
    ∃ b ∈ res.bindings, b.link = k ∧ e.status = b.status ∧
      match res.storage with
      | .payload p => e.cargo = .payload p
      | .fields schema _ => ∃ buffer, b.data? = some buffer ∧ e.cargo = .fields schema buffer

/-- What an envelope told stays true while the resource lives. -/
theorem Resource.Announces.of_evolves {res res' : Resource} {k : Nat} {e : Envelope}
    (h : res.Announces k e) (hev : res.Evolves res') : res'.Announces k e := by
  obtain ⟨htype, hid, hname, b, hb, hlink, hstatus, hcargo⟩ := h
  refine ⟨htype.trans hev.type.symm, hid.trans hev.id.symm, hname.trans hev.name.symm, b,
    hev.bindings.subset hb, hlink, hstatus, ?_⟩
  have hstorage := hev.storage
  cases hs : res.storage with
  | payload p =>
    rw [hs] at hstorage hcargo
    rw [show res'.storage = .payload p from hstorage]
    exact hcargo
  | fields schema bytes =>
    rw [hs] at hstorage hcargo
    obtain ⟨bytes', hs', -⟩ := hstorage
    rw [hs']
    exact hcargo

/-- A sending queues the creation that announces the resource. -/
theorem Link.outbox_ship (link : Link) (k : Nat) (res : Resource) (tick : Tick) :
    ∃ e, (link.ship k res tick).2.outbox = link.outbox.push (.create e tick) ∧
      ∀ load, ({ res with
        bindings := res.bindings ++ [(link.ship k res tick).1], load } : Resource).Announces k e := by
  unfold ship Resource.Announces
  cases res.storage with
  | payload p =>
    exact ⟨_, rfl, fun _ => ⟨rfl, rfl, rfl, _, List.mem_append_right _ (List.mem_singleton_self _),
      rfl, rfl, rfl⟩⟩
  | fields schema bytes =>
    exact ⟨_, rfl, fun _ => ⟨rfl, rfl, rfl, _, List.mem_append_right _ (List.mem_singleton_self _),
      rfl, rfl, _, rfl, rfl⟩⟩

namespace Registry

open Outgoing (standing created IsLog)

variable {r r' : Registry} {k : Nat} {log sent : List Outgoing}

/-- The intents that wait to be sent over the link at a position. -/
def outboxAt (r : Registry) (k : Nat) : List Outgoing :=
  (r.links[k]?.map (·.outbox.toList)).getD []

/-- Every live resource is bound to links that there are, and to each of them once. -/
def IsLinked (r : Registry) : Prop :=
  ∀ id res, r.resource? id = some res →
    (res.bindings.map Binding.link).Nodup ∧ ∀ b ∈ res.bindings, b.link < r.links.length

/-- The log of a link tells of the resources that are bound to it. -/
structure Logs (r : Registry) (k : Nat) (log : List Outgoing) : Prop where
  /-- The log is in order. -/
  ordered : IsLog log
  /-- What stands are the live resources that are bound to the link. -/
  standing : ∀ id, id ∈ standing log ↔ ∃ res, r.resource? id = some res ∧ res.IsBoundTo k
  /-- What was created has a number that was given out, and is bound to the link while it lives. -/
  created : ∀ id ∈ created log, id.toNat ≤ r.supply.issued ∧
    ∀ res, r.resource? id = some res → res.IsBoundTo k
  /-- What was announced is so while it lives. -/
  announced : ∀ e tick, .create e tick ∈ log → ∀ res, r.resource? e.id = some res →
    res.Announces k e

/-- A log goes on telling of the resources if no binding to its link comes or goes. -/
theorem Logs.congr (h : r.Logs k log) (hissued : r.supply.issued ≤ r'.supply.issued)
    (hback : ∀ id res', r'.resource? id = some res' →
      (∃ res, r.resource? id = some res ∧ res.Evolves res' ∧
          (res'.IsBoundTo k → res.IsBoundTo k)) ∨
        (r.supply.issued < id.toNat ∧ res'.bindings = []))
    (hto : ∀ id res, r.resource? id = some res → res.IsBoundTo k →
      ∃ res', r'.resource? id = some res' ∧ res.Evolves res') : r'.Logs k log := by
  have hold : ∀ id ∈ Outgoing.created log, ∀ res', r'.resource? id = some res' →
      ∃ res, r.resource? id = some res ∧ res.Evolves res' := by
    intro id hid res' hres'
    rcases hback id res' hres' with ⟨res, hres, hev, -⟩ | ⟨hnew, -⟩
    · exact ⟨res, hres, hev⟩
    · have := (h.created id hid).1
      omega
  refine ⟨h.ordered, fun id => ?_, fun id hid => ?_, fun e tick he res' hres' => ?_⟩
  · rw [h.standing]
    constructor
    · rintro ⟨res, hres, hbound⟩
      obtain ⟨res', hres', hev⟩ := hto id res hres hbound
      exact ⟨res', hres', hev.isBoundTo hbound⟩
    · rintro ⟨res', hres', hbound⟩
      rcases hback id res' hres' with ⟨res, hres, -, hfrom⟩ | ⟨-, hnone⟩
      · exact ⟨res, hres, hfrom hbound⟩
      · obtain ⟨b, hb, -⟩ := hbound
        rw [hnone] at hb
        cases hb
  · refine ⟨(h.created id hid).1.trans hissued, fun res' hres' => ?_⟩
    obtain ⟨res, hres, hev⟩ := hold id hid res' hres'
    exact hev.isBoundTo ((h.created id hid).2 res hres)
  · obtain ⟨res, hres, hev⟩ := hold e.id (Outgoing.mem_created.mpr ⟨e, tick, he, rfl⟩) res' hres'
    exact (h.announced e tick he res hres).of_evolves hev

/-- A log goes on telling of the resources if nothing shows a difference. -/
theorem Logs.of_body (h : r.Logs k log) (hissued : r.supply.issued ≤ r'.supply.issued)
    (hbody : ∀ id, (r'.resource? id).map Resource.body = (r.resource? id).map Resource.body) :
    r'.Logs k log := by
  apply h.congr hissued
  · intro id res' hres'
    have hone := hbody id
    rw [hres', Option.map_some] at hone
    obtain ⟨res, hres, heq⟩ := Option.map_eq_some_iff.mp hone.symm
    refine .inl ⟨res, hres, .of_body heq.symm, ?_⟩
    rintro ⟨b, hb, hlink⟩
    exact ⟨b, Resource.bindings_of_body heq ▸ hb, hlink⟩
  · intro id res hres _
    have hone := hbody id
    rw [hres, Option.map_some] at hone
    obtain ⟨res', hres', heq⟩ := Option.map_eq_some_iff.mp hone
    exact ⟨res', hres', .of_body heq⟩

/-- A log goes on telling of the resources if one of them changes and keeps its bindings to the
link. -/
theorem Logs.of_replace (h : r.Logs k log) {id : ResourceId} {res res' : Resource}
    (hres : r.resource? id = some res) (hissued : r.supply.issued ≤ r'.supply.issued)
    (hlookup : ∀ x, r'.resource? x = if x = id then some res' else r.resource? x)
    (hev : res.Evolves res') (hbound : res'.IsBoundTo k → res.IsBoundTo k) : r'.Logs k log := by
  apply h.congr hissued
  · intro x res₁ hx
    rw [hlookup] at hx
    split at hx
    · rename_i heq
      cases hx
      exact .inl ⟨res, heq ▸ hres, hev, hbound⟩
    · exact .inl ⟨res₁, hx, .refl _, fun h => h⟩
  · intro x res₁ hx _
    rw [hlookup]
    split
    · rename_i heq
      rw [heq, hres] at hx
      cases hx
      exact ⟨res', rfl, hev⟩
    · exact ⟨res₁, hx, .refl _⟩

/-- A log is continued when a resource is sent over its link. -/
theorem Logs.ship (h : r.Logs k log) {id : ResourceId} {res res' : Resource} {e : Envelope}
    (hres : r.resource? id = some res) (hissued : r'.supply = r.supply)
    (hid : id.toNat ≤ r.supply.issued)
    (hlookup : ∀ x, r'.resource? x = if x = id then some res' else r.resource? x)
    (hev : res.Evolves res') (hnew : ¬res.IsBoundTo k) (hbound : res'.IsBoundTo k)
    (he : e.id = id) (hannounces : res'.Announces k e) (tick : Tick) :
    r'.Logs k (log ++ [.create e tick]) := by
  have hfresh : id ∉ Outgoing.created log := fun hmem => hnew ((h.created id hmem).2 res hres)
  refine ⟨h.ordered.snoc (show e.id ∉ Outgoing.created log from he ▸ hfresh), fun x => ?_,
    fun x hx => ?_, fun e' tick' he' res₁ hx => ?_⟩
  · rw [Outgoing.standing_append_singleton]
    show x ∈ _ ++ [e.id] ↔ _
    rw [List.mem_append, List.mem_singleton, h.standing, he, hlookup]
    by_cases hx : x = id
    · simp [hx, hbound]
    · simp [hx]
  · rw [hissued, hlookup]
    rw [Outgoing.created_append] at hx
    split
    · rename_i heq
      refine ⟨heq ▸ hid, fun res₁ h₁ => ?_⟩
      cases h₁
      exact hbound
    · rename_i hne
      rcases List.mem_append.mp hx with hx | hx
      · exact h.created x hx
      · exact absurd ((List.mem_singleton.mp hx).trans he) hne
  · rw [hlookup] at hx
    rcases List.mem_append.mp he' with he' | he'
    · split at hx
      · rename_i heq
        cases hx
        exact (h.announced e' tick' he' res (heq ▸ hres)).of_evolves hev
      · exact h.announced e' tick' he' res₁ hx
    · cases List.mem_singleton.mp he'
      rw [if_pos he] at hx
      cases hx
      exact hannounces

/-- A log is continued when a resource that is bound to its link is removed. -/
theorem Logs.remove (h : r.Logs k log) {id : ResourceId} {res : Resource}
    (hres : r.resource? id = some res) (hsupply : r'.supply = r.supply)
    (hlookup : ∀ x, r'.resource? x = if x = id then none else r.resource? x)
    (hbound : res.IsBoundTo k) (tick : Tick) : r'.Logs k (log ++ [.dispose id tick]) := by
  have hback : ∀ x res₁, r'.resource? x = some res₁ → r.resource? x = some res₁ := by
    intro x res₁ hx
    rw [hlookup] at hx
    split at hx
    · cases hx
    · exact hx
  refine ⟨h.ordered.snoc ((h.standing id).mpr ⟨res, hres, hbound⟩), fun x => ?_,
    fun x hx => ?_, fun e' tick' he' res₁ hx => ?_⟩
  · rw [Outgoing.standing_append_singleton]
    show x ∈ List.filter _ _ ↔ _
    rw [List.mem_filter, h.standing, hlookup]
    by_cases hx : x = id
    · simp [hx]
    · simp [hx]
  · rw [hsupply]
    rw [Outgoing.created_append, show Outgoing.created [.dispose id tick] = [] from rfl,
      List.append_nil] at hx
    exact ⟨(h.created x hx).1, fun res₁ h₁ => (h.created x hx).2 res₁ (hback x res₁ h₁)⟩
  · rcases List.mem_append.mp he' with he' | he'
    · exact h.announced e' tick' he' res₁ (hback e'.id res₁ hx)
    · cases List.mem_singleton.mp he'

/-- A removal queues nothing for links that the resource is not bound to. -/
theorem disposals_of_not_bound {res : Resource} (h : ¬res.IsBoundTo k) (tick : Tick) :
    disposals res tick k = [] := by
  unfold disposals
  rw [List.map_eq_nil_iff, List.filter_eq_nil_iff]
  intro b hb heq
  exact h ⟨b, hb, by simpa using heq⟩

/-- A removal queues one disposal for each link that the resource is bound to. -/
theorem disposals_of_bound {res : Resource} (hnodup : (res.bindings.map Binding.link).Nodup)
    (h : res.IsBoundTo k) (tick : Tick) : disposals res tick k = [.dispose res.id tick] := by
  obtain ⟨b, hb, hlink⟩ := h
  have hone : (res.bindings.filter (·.link == k)).length = 1 := by
    have hcount := List.count_eq_one_of_mem hnodup (List.mem_map.mpr ⟨b, hb, hlink⟩)
    rw [List.count_eq_countP, List.countP_map, List.countP_eq_length_filter] at hcount
    exact hcount
  obtain ⟨b', hb'⟩ := List.length_eq_one_iff.mp hone
  unfold disposals
  rw [hb']
  rfl

/-- What waits to be sent after a removal. -/
theorem outboxAt_remove (res : Resource) (r : Registry) (hk : k < r.links.length) :
    (r.remove res).outboxAt k = r.outboxAt k ++ disposals res r.tick k := by
  obtain ⟨_, heq⟩ := remove_eq res r
  unfold outboxAt
  rw [heq]
  simp [List.getElem?_mapIdx, List.getElem?_eq_getElem hk, Link.enqueue]

/-- What waits for a link is in its outbox. -/
theorem outboxAt_of_getElem? {link : Link} (h : r.links[k]? = some link) :
    r.outboxAt k = link.outbox.toList := by
  unfold outboxAt
  rw [h]
  rfl

theorem outboxAt_of_le (hk : r.links.length ≤ k) : r.outboxAt k = [] := by
  unfold outboxAt
  rw [List.getElem?_eq_none hk]
  rfl

/-- A removal queues nothing for a link that there is not. -/
theorem outboxAt_remove_of_le {res : Resource} (hk : r.links.length ≤ k) :
    (r.remove res).outboxAt k = r.outboxAt k := by
  obtain ⟨_, heq⟩ := remove_eq res r
  rw [outboxAt_of_le hk, outboxAt_of_le]
  rw [heq]
  simpa using hk

/-- A removal queues nothing for a link that the resource is not bound to. -/
theorem outboxAt_remove_of_not_bound {res : Resource} (h : ¬res.IsBoundTo k) :
    (r.remove res).outboxAt k = r.outboxAt k := by
  rcases Nat.lt_or_ge k r.links.length with hk | hk
  · rw [outboxAt_remove res r hk, disposals_of_not_bound h, List.append_nil]
  · exact outboxAt_remove_of_le hk

@[simp] theorem outboxAt_modifyResource (r : Registry) (id : ResourceId) (f : Resource → Resource) :
    (r.modifyResource id f).outboxAt k = r.outboxAt k := by
  simp [outboxAt]

@[simp] theorem outboxAt_storeBytes (r : Registry) (id : ResourceId) (prop : Property)
    (part : Bytes) : (r.storeBytes id prop part).outboxAt k = r.outboxAt k := by
  simp [outboxAt, storeBytes]

theorem Quiet.outboxAt (h : r.Quiet r') (k : Nat) : r'.outboxAt k = r.outboxAt k := by
  have hlinks := congrArg (fun links => (links[k]?.map (·.outbox.toList)).getD []) h.links
  simpa [Registry.outboxAt, Function.comp_def, Link.body] using hlinks

/-- A sending queues one creation, on its own link. -/
theorem outboxAt_ship {link : Link} {j : Nat} (hlink : r.links[j]? = some link) (res : Resource)
    (resources : Std.TreeMap ResourceId Resource) (k : Nat) :
    ∃ e, (∀ load, ({ res with
        bindings := res.bindings ++ [(link.ship j res r.tick).1], load } : Resource).Announces j e) ∧
      ({ r with links := r.links.set j (link.ship j res r.tick).2, resources } : Registry).outboxAt k =
        r.outboxAt k ++ if j = k then [.create e r.tick] else [] := by
  obtain ⟨e, hpush, hannounces⟩ := link.outbox_ship j res r.tick
  refine ⟨e, hannounces, ?_⟩
  have hj : j < r.links.length := (List.getElem?_eq_some_iff.mp hlink).1
  by_cases hjk : j = k
  · subst hjk
    simp only [outboxAt, List.getElem?_set_self hj, hlink, Option.map_some, Option.getD_some, hpush,
      Array.toList_push, if_true]
  · simp [outboxAt, List.getElem?_set_ne hjk, hjk]

/-- A log goes on telling of the resources if one of them changes and keeps its bindings. -/
theorem Logs.modifyResource (h : r.Logs k log) {id : ResourceId} {res : Resource}
    (hres : r.resource? id = some res) {f : Resource → Resource} (hev : res.Evolves (f res))
    (hbindings : (f res).bindings = res.bindings) : (r.modifyResource id f).Logs k log := by
  refine h.of_replace hres (by simp) (fun x => ?_) hev ?_
  · rw [resource?_modifyResource, hres, Option.map_some]
  · rintro ⟨b, hb, hbk⟩
    exact ⟨b, hbindings ▸ hb, hbk⟩

/-- A log goes on telling of the resources if one is entered under a number that is new. -/
theorem Logs.enter (h : r.Logs k log) {type : String} {storage : Storage} {options : Options}
    (hw : r.WellFormed) (hl : (r.insert type storage options).2.supply.Lasts) :
    (r.insert type storage options).2.Logs k log := by
  apply h.congr (Nat.le_succ _)
  · intro x res' hx
    rw [resource?_insert] at hx
    split at hx
    · rename_i heq
      cases hx
      right
      rw [heq, Supply.toNat_nextId hl.of_draw]
      exact ⟨Nat.lt_succ_self _, rfl⟩
    · exact .inl ⟨res', hx, .refl _, fun h => h⟩
  · intro x res hx _
    refine ⟨res, ?_, .refl _⟩
    rw [resource?_insert, if_neg]
    · exact hx
    · exact ne_nextId (hw.numbered hx).2 hl.of_draw

/-- A log goes on telling of the resources if one goes that is not bound to its link. -/
theorem Logs.remove_of_not_bound (h : r.Logs k log) {id : ResourceId} {res : Resource}
    (hres : r.resource? id = some res) (hid : res.id = id) (hbound : ¬res.IsBoundTo k) :
    (r.remove res).Logs k log := by
  have hlookup := resource?_remove res r
  rw [hid] at hlookup
  apply h.congr (by simp)
  · intro x res' hx
    rw [hlookup] at hx
    split at hx
    · cases hx
    · exact .inl ⟨res', hx, .refl _, fun h => h⟩
  · intro x res' hx hxbound
    refine ⟨res', ?_, .refl _⟩
    rw [hlookup, if_neg]
    · exact hx
    · rintro rfl
      rw [hres] at hx
      cases hx
      exact hbound hxbound

end Registry

namespace Edit

open Outgoing (standing created IsLog)

variable {strict : Prop} {writer : ResourceId} {b b' : Book} {k : Nat} {sent : List Outgoing}

/-- Every live resource stays bound to links that there are, and to each of them once. -/
theorem isLinked (h : Edit strict writer b b') (hlinked : b.registry.IsLinked) :
    b'.registry.IsLinked := by
  have hlength := h.length_links
  intro x res' hx
  rw [hlength]
  cases h.descent hx with
  | kept hres _ _ _ _ hbindings =>
    rw [hbindings]
    exact hlinked x _ hres
  | entered _ _ _ hnew =>
    rw [hnew.unsent]
    exact ⟨List.nodup_nil, nofun⟩
  | @stored res _ _ _ _ _ hres _ _ _ _ heq =>
    subst heq
    exact hlinked x res hres
  | shipped hres hlink _ hnew _ heq =>
    subst heq
    obtain ⟨hnodup, hbounds⟩ := hlinked x _ hres
    refine ⟨?_, fun b hb => ?_⟩
    · simp only [List.map_append, List.map_cons, List.map_nil, Link.link_ship]
      refine List.nodup_append.mpr ⟨hnodup, by simp, ?_⟩
      rintro l hl l' hl' rfl
      obtain ⟨b, hb, rfl⟩ := List.mem_map.mp hl
      exact hnew ⟨b, hb, by simpa using hl'⟩
    · rcases List.mem_append.mp hb with hb | hb
      · exact hbounds b hb
      · rw [List.mem_singleton.mp hb, Link.link_ship]
        exact (List.getElem?_eq_some_iff.mp hlink).1

/-- The log of a link is continued as the resources change. -/
theorem logs (h : Edit strict writer b b') (hw : b.registry.WellFormed)
    (hl : b'.registry.supply.Lasts) (hlinked : b.registry.IsLinked)
    (hlog : b.registry.Logs k (sent ++ b.registry.outboxAt k)) :
    b'.registry.Logs k (sent ++ b'.registry.outboxAt k) := by
  cases h with
  | quiet h =>
    rw [h.outboxAt]
    exact hlog.of_body h.issued h.resources
  | enter => exact hlog.enter hw hl
  | retain h =>
    rw [Registry.outboxAt_modifyResource]
    exact hlog.modifyResource h (.counted _ _) rfl
  | release h =>
    rw [Registry.outboxAt_modifyResource]
    exact hlog.modifyResource h (.counted _ _) rfl
  | drop => exact hlog
  | @store r _ _ _ res schema bytes part prop h hstorage hprop hpart _ _ =>
    rw [Registry.outboxAt_storeBytes]
    exact hlog.of_replace h (by simp) (Registry.resource?_storeBytes h hstorage prop part)
      (.stored (hw.sound h) hstorage hprop hpart) fun hbound => hbound
  | @ship r _ _ id res j link load h hlink _ hnew _ =>
    have hlookup (x : ResourceId) := Registry.getElem?_insert r.resources id x
      { res with bindings := res.bindings ++ [(link.ship j res r.tick).1], load }
    have hev := Resource.Evolves.bound res (link.ship j res r.tick).1 load
    obtain ⟨e, hannounces, hout⟩ := Registry.outboxAt_ship hlink res _ k
    rw [hout]
    by_cases hjk : j = k
    · subst hjk
      have hbound : ({ res with
          bindings := res.bindings ++ [(link.ship j res r.tick).1], load } : Resource).IsBoundTo j :=
        ⟨_, List.mem_append_right _ (List.mem_singleton_self _), Link.link_ship _ _ _ _⟩
      have hid : e.id = id := by
        rw [← hw.keyed h]
        exact (hannounces load).2.1
      rw [if_pos rfl, ← List.append_assoc]
      refine hlog.ship h ?_ (hw.numbered h).2 ?_ hev hnew hbound hid (hannounces load) r.tick
      · rfl
      · exact hlookup
    · rw [if_neg hjk, List.append_nil]
      refine hlog.of_replace h (Nat.le_refl _) hlookup hev ?_
      rintro ⟨b, hb, hbk⟩
      rcases List.mem_append.mp hb with hb | hb
      · exact ⟨b, hb, hbk⟩
      · rw [List.mem_singleton.mp hb, Link.link_ship] at hbk
        exact absurd hbk hjk
  | @remove r _ _ id res h _ =>
    have hid := hw.keyed h
    by_cases hbound : res.IsBoundTo k
    · obtain ⟨hnodup, hbounds⟩ := hlinked id res h
      have hk : k < r.links.length := by
        obtain ⟨b, hb, rfl⟩ := hbound
        exact hbounds b hb
      have hlookup := Registry.resource?_remove res r
      rw [hid] at hlookup
      rw [Registry.outboxAt_remove res r hk, Registry.disposals_of_bound hnodup hbound, hid,
        ← List.append_assoc]
      exact hlog.remove h (Registry.supply_remove res r) hlookup hbound r.tick
    · rw [Registry.outboxAt_remove_of_not_bound hbound]
      exact hlog.remove_of_not_bound h hid hbound

end Edit

end Framecast
