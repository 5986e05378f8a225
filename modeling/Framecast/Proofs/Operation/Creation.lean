import Framecast.Proofs.Operation.Disposal

/-!
# Creations as chains of elementary changes

A new resource is entered and then sent over its links, one after another. What
is entered for a text or a raw buffer is a payload, which holds nothing.
-/

namespace Framecast

namespace Registry

variable {strict : Prop} {writer : ResourceId} {r : Registry} {outside taken : Multiset ResourceId}
  {id : ResourceId} {res : Resource}

/-- Changing the link at a position that there is. -/
theorem updateLink_of_some {α : Type} (f : Link → α × Link) {links : List Link} {k : Nat}
    {link : Link} (h : links[k]? = some link) :
    updateLink f links k = (some (f link).1, links.set k (f link).2) := by
  induction links generalizing k with
  | nil => simp at h
  | cons first rest ih =>
    cases k with
    | zero =>
      rw [List.getElem?_cons_zero] at h
      cases h
      rfl
    | succ k =>
      rw [List.getElem?_cons_succ] at h
      unfold updateLink
      rw [ih h]
      rfl

/-- There is nothing to change at a position past the last link. -/
theorem updateLink_of_none {α : Type} (f : Link → α × Link) {links : List Link} {k : Nat}
    (h : links[k]? = none) : updateLink f links k = (none, links) := by
  induction links generalizing k with
  | nil => rfl
  | cons first rest ih =>
    cases k with
    | zero => simp at h
    | succ k =>
      rw [List.getElem?_cons_succ] at h
      unfold updateLink
      rw [ih h]

/-- The registry in which a resource was sent over some of its links. -/
def sending (r : Registry) (id : ResourceId) (res : Resource)
    (state : List Binding × List Link) : Registry :=
  { r with
    links := state.2
    resources := r.resources.insert id { res with bindings := state.1 } }

/-- The look-ups while a resource is being sent. -/
theorem resource?_sending (r : Registry) (id x : ResourceId) (res : Resource)
    (state : List Binding × List Link) :
    (r.sending id res state).resource? x =
      if x = id then some { res with bindings := state.1 } else r.resource? x :=
  getElem?_insert _ _ _ _

/-- As long as a resource was sent nowhere else, nothing has changed. -/
theorem quiet_sending (h : r.resource? id = some res) :
    r.Quiet (r.sending id res (res.bindings, r.links)) := by
  refine ⟨fun x => ?_, rfl, rfl, rfl, rfl, rfl, rfl, Nat.le_refl _⟩
  rw [resource?_sending]
  split
  · rename_i hx
    rw [hx, h]
  · rfl

/-- Of a resource that is sent further only the last stage matters. -/
theorem quiet_sending_sending (r : Registry) (id : ResourceId) (res : Resource)
    (state state' : List Binding × List Link) :
    ((r.sending id res state).sending id { res with bindings := state.1 } state').Quiet
      (r.sending id res state') := by
  refine ⟨fun x => ?_, rfl, rfl, rfl, rfl, rfl, rfl, Nat.le_refl _⟩
  rw [resource?_sending, resource?_sending]
  split
  · rfl
  · rw [resource?_sending, if_neg ‹_›]

/-- How far the loading of a resource has come does not show once it has been sent. -/
theorem quiet_sending_load (state : List Binding × List Link) (load : LoadState) :
    (r.sending id res state).Quiet
      { r with
        links := state.2
        resources := r.resources.insert id { res with bindings := state.1, load } } := by
  refine ⟨fun x => ?_, rfl, rfl, rfl, rfl, rfl, rfl, Nat.le_refl _⟩
  rw [resource?_sending]
  show Option.map _ (Std.TreeMap.insert _ _ _)[x]? = _
  rw [getElem?_insert]
  split <;> rfl

/-- Buffers that were sent before a resource is sent are so while it is being sent. -/
theorem BuffersSent.sending (h : r.resource? id = some res) {state : List Binding × List Link}
    (hfront : res.bindings <+: state.1) {storage : Storage} {k : Nat}
    (hb : r.BuffersSent storage k) : (r.sending id res state).BuffersSent storage k := by
  intro schema bytes hs prop hprop hk x hx
  obtain ⟨hissued, hbound⟩ := hb schema bytes hs prop hprop hk x hx
  refine ⟨hissued, fun target htarget => ?_⟩
  rw [resource?_sending] at htarget
  split at htarget
  · rename_i hid
    cases htarget
    obtain ⟨b, hmem, hlink⟩ := hbound res (hid ▸ h)
    exact ⟨b, hfront.subset hmem, hlink⟩
  · exact hbound target htarget

/-- A resource is sent over one more link, if there is one at the position. -/
theorem edits_bindOne (h : r.resource? id = some res) (hother : id ≠ writer)
    (state : List Binding × List Link) {k : Nat} (hfront : res.bindings <+: state.1)
    (hnew : ∀ b ∈ state.1, b.link ≠ k)
    (hbuffers : k < state.2.length → r.BuffersSent res.storage k) :
    Edits strict writer ⟨r.sending id res state, outside, taken⟩
      ⟨r.sending id res (bindOne res r.tick state k), outside, taken⟩ := by
  unfold bindOne
  cases hlink : state.2[k]? with
  | none =>
    rw [updateLink_of_none _ hlink]
    simpa using Relation.ReflTransGen.refl
  | some link =>
    rw [updateLink_of_some _ hlink]
    have hk : k < state.2.length := (List.getElem?_eq_some_iff.mp hlink).1
    have hfound : (r.sending id res state).resource? id = some { res with bindings := state.1 } := by
      rw [resource?_sending, if_pos rfl]
    have hunbound : ¬({ res with bindings := state.1 } : Resource).IsBoundTo k := by
      rintro ⟨b, hb, hbk⟩
      exact hnew b hb hbk
    have hlast := r.quiet_sending_sending id res state
      (state.1 ++ [(link.ship k res r.tick).1], state.2.set k (link.ship k res r.tick).2)
    exact .tail (.single (.ship res.load hfound hlink hother hunbound
      ((hbuffers hk).sending h hfront))) (.quiet hlast)

/-- How far a resource that is being sent over some links has come. -/
structure IsSent (res : Resource) (links : List Link) (positions : List Nat)
    (state : List Binding × List Link) : Prop where
  /-- It stays bound to its links. -/
  bindings : res.bindings <+: state.1
  /-- It was sent over every link that there is. -/
  sent : ∀ k ∈ positions, k < links.length → ∃ b ∈ state.1, b.link = k
  /-- There are as many links as before. -/
  length : state.2.length = links.length

/-- A resource is sent over links one after another. -/
theorem edits_foldl_bindOne (h : r.resource? id = some res) (hother : id ≠ writer)
    {positions : List Nat} (hnodup : positions.Nodup) (state : List Binding × List Link)
    (hfront : res.bindings <+: state.1) (hlength : state.2.length = r.links.length)
    (hnew : ∀ k ∈ positions, ∀ b ∈ state.1, b.link ≠ k)
    (hbuffers : ∀ k ∈ positions, k < r.links.length → r.BuffersSent res.storage k) :
    Edits strict writer ⟨r.sending id res state, outside, taken⟩
        ⟨r.sending id res (positions.foldl (bindOne res r.tick) state), outside, taken⟩ ∧
      IsSent res r.links positions (positions.foldl (bindOne res r.tick) state) ∧
      state.1 <+: (positions.foldl (bindOne res r.tick) state).1 := by
  induction positions generalizing state with
  | nil => exact ⟨.refl, ⟨hfront, by simp, hlength⟩, List.prefix_refl _⟩
  | cons k rest ih =>
    obtain ⟨hk, hrest⟩ := List.nodup_cons.mp hnodup
    have hone : Edits strict writer ⟨r.sending id res state, outside, taken⟩
        ⟨r.sending id res (bindOne res r.tick state k), outside, taken⟩ :=
      edits_bindOne h hother state hfront (hnew k List.mem_cons_self)
        fun hlt => hbuffers k List.mem_cons_self (hlength ▸ hlt)
    have hstep : ∃ more : List Binding, (bindOne res r.tick state k).1 = state.1 ++ more ∧
        (∀ b ∈ more, b.link = k) ∧ (k < r.links.length → more ≠ []) ∧
        (bindOne res r.tick state k).2.length = r.links.length := by
      unfold bindOne
      cases hlink : state.2[k]? with
      | none =>
        rw [updateLink_of_none _ hlink]
        refine ⟨[], rfl, by simp, ?_, hlength⟩
        intro hlt
        rw [List.getElem?_eq_none_iff] at hlink
        omega
      | some link =>
        rw [updateLink_of_some _ hlink]
        exact ⟨_, rfl, by simp, by simp, by simpa using hlength⟩
    obtain ⟨more, hmore, hlinks, hnonempty, hlength'⟩ := hstep
    have hext : state.1 <+: (bindOne res r.tick state k).1 := by
      rw [hmore]
      exact List.prefix_append _ _
    obtain ⟨hedits, hsent, hgrown⟩ := ih hrest _ (hfront.trans hext) hlength'
      (by
        intro k' hk' b hb
        rw [hmore] at hb
        rcases List.mem_append.mp hb with hb | hb
        · exact hnew k' (List.mem_cons_of_mem _ hk') b hb
        · rw [hlinks b hb]
          exact fun heq => hk (heq ▸ hk'))
      fun k' hk' => hbuffers k' (List.mem_cons_of_mem _ hk')
    refine ⟨hone.trans hedits, ⟨hsent.bindings, ?_, hsent.length⟩, hext.trans hgrown⟩
    intro k' hk' hlt
    rcases List.mem_cons.mp hk' with rfl | hk'
    · obtain ⟨b, hb⟩ := List.exists_mem_of_ne_nil _ (hnonempty hlt)
      exact ⟨b, hgrown.subset (by rw [hmore]; exact List.mem_append_right _ hb), hlinks b hb⟩
    · exact hsent.sent k' hk' hlt

/-- What a sending over some links leaves. -/
structure Sends (r after : Registry) (id : ResourceId) (res : Resource) (positions : List Nat) :
    Prop where
  /-- It is a chain of elementary changes that moves no reference. -/
  edits : ∀ strict writer, id ≠ writer → ∀ outside taken,
    Edits strict writer ⟨r, outside, taken⟩ ⟨after, outside, taken⟩
  /-- The resource was sent over every link that there is. -/
  found : ∃ bindings load, after.resource? id = some { res with bindings, load } ∧
    ∀ k ∈ positions, k < r.links.length → ∃ b ∈ bindings, b.link = k
  /-- Other resources are as before. -/
  others : ∀ x, x ≠ id → after.resource? x = r.resource? x
  /-- The indexes are as before. -/
  indexes : after.indexes = r.indexes
  /-- Nothing is told. -/
  journal : after.journal = r.journal
  /-- There are as many links as before. -/
  length : after.links.length = r.links.length
  /-- No number is given out. -/
  supply : after.supply = r.supply

/-- Binding a live resource to links that it was not sent over sends it over each of them. -/
theorem ends_bind (h : r.resource? id = some res) {positions : List Nat}
    (hnodup : positions.Nodup) (hnew : ∀ k ∈ positions, ¬res.IsBoundTo k)
    (hbuffers : ∀ k ∈ positions, k < r.links.length → r.BuffersSent res.storage k) :
    Ends (bind id positions) r (fun _ after => Sends r after id res positions)
      (fun _ _ => False) := by
  unfold bind find
  simp only [Ends.bind_iff, Ends.get_iff, h, Ends.pure_iff, Ends.modify_iff]
  have hfold (strict : Prop) (writer : ResourceId) (hother : id ≠ writer)
      (outside taken : Multiset ResourceId) :
      Edits strict writer ⟨r.sending id res (res.bindings, r.links), outside, taken⟩
          ⟨r.sending id res (positions.foldl (bindOne res r.tick) (res.bindings, r.links)),
            outside, taken⟩ ∧ _ :=
    edits_foldl_bindOne h hother hnodup (res.bindings, r.links) (List.prefix_refl _) rfl
      (fun k hk b hb hbk => hnew k hk ⟨b, hb, hbk⟩) hbuffers
  obtain ⟨writer', hwriter'⟩ : ∃ writer', id ≠ writer' := ⟨id + 1, by simp⟩
  have hsent := (hfold True writer' hwriter' 0 0).2.1
  generalize hstate : positions.foldl (bindOne res r.tick) (res.bindings, r.links) = state
    at hfold hsent
  refine ⟨fun strict writer hother outside taken => ?_, ⟨state.1, awaiting state.1, ?_, hsent.sent⟩,
    ?_, rfl, rfl, hsent.length, rfl⟩
  · have hfirst : Edit strict writer ⟨r, outside, taken⟩
        ⟨r.sending id res (res.bindings, r.links), outside, taken⟩ := .quiet (quiet_sending h)
    have hlast : Edit strict writer ⟨r.sending id res state, outside, taken⟩
        ⟨{ r with
          links := state.2
          resources := r.resources.insert id
            { res with bindings := state.1, load := awaiting state.1 } }, outside, taken⟩ :=
      .quiet (quiet_sending_load state (awaiting state.1))
    exact .head hfirst ((hfold strict writer hother outside taken).1.tail hlast)
  · show (Std.TreeMap.insert _ _ _)[id]? = _
    rw [getElem?_insert, if_pos rfl]
  · intro x hx
    show (Std.TreeMap.insert _ _ _)[x]? = _
    rw [getElem?_insert, if_neg hx]
    rfl

theorem buffersSent_payload (r : Registry) (p : Payload) (k : Nat) :
    r.BuffersSent (.payload p) k := by
  intro schema bytes h
  cases h

/-- What entering a payload and sending it over some links leaves. -/
structure Spawns (r after : Registry) (type : String) (p : Payload) (options : Options)
    (positions : List Nat) : Prop where
  /-- It is a chain of elementary changes that moves no reference. -/
  neutral : r.Neutral after
  /-- The resource has the next number and was sent over every link that there is. -/
  found : ∃ bindings load, after.resource? r.supply.nextId =
      some ⟨r.supply.nextId, type, options.name?.getD (defaultName type r.supply.nextId), 0,
        .payload p, options.cacheKey?, options.hook?, bindings, load, []⟩ ∧
    ∀ k ∈ positions, k < r.links.length → ∃ b ∈ bindings, b.link = k
  /-- Other resources are as before. -/
  others : ∀ x, x ≠ r.supply.nextId → after.resource? x = r.resource? x
  /-- It is listed and cached. -/
  indexes : after.indexes = (r.insert type (.payload p) options).2.indexes
  /-- Nothing is told. -/
  journal : after.journal = r.journal
  /-- There are as many links as before. -/
  length : after.links.length = r.links.length
  /-- One number is given out. -/
  supply : after.supply = r.supply.draw

/-- A payload is entered under the next number and sent over its links. -/
theorem ends_spawn (type : String) (p : Payload) (options : Options) {positions : List Nat}
    (hnodup : positions.Nodup) (r : Registry) (huncached : r.cached? type options.cacheKey? = none) :
    Ends (spawn type (.payload p) options positions) r
      (fun id after => id = r.supply.nextId ∧ r.Spawns after type p options positions)
      (fun _ _ => False) := by
  unfold spawn
  simp only [Ends.bind_iff, Ends.get_iff]
  rw [← Prod.mk.eta (p := r.insert type (.payload p) options)]
  simp only [Ends.set_iff, Ends.pure_iff]
  have hlookup := resource?_insert r type (.payload p) options
  have hfound := hlookup r.supply.nextId
  rw [if_pos rfl] at hfound
  have hsound : (Storage.payload p).IsSound := trivial
  refine (ends_bind hfound hnodup (by simp [Resource.IsBoundTo])
    fun k _ _ => buffersSent_payload _ p k).imp ?_ ?_
  · intro _ after hsends
    refine ⟨rfl, fun strict writer hwriter outside taken => ?_, ?_, ?_, hsends.indexes,
      hsends.journal, hsends.length, hsends.supply⟩
    · exact .head (.enter type options hsound rfl (Storage.isNamed_payload p type) huncached)
        (hsends.edits strict writer (Ne.symm hwriter) outside taken)
    · exact hsends.found
    · intro x hx
      rw [hsends.others x hx, hlookup, if_neg hx]
  · exact fun _ _ h => h

/-- The number that a text has or is given when it is interned. -/
def internedId (r : Registry) (text : String) : ResourceId :=
  if text.isEmpty then 0 else (r.cached? stringType (some (.text text))).getD r.supply.nextId

/-- What interning a text leaves: everything as it was, or a new resource for the text. -/
def Interns (r after : Registry) (text : String) : Prop :=
  after = r ∨ r.internedId text = r.supply.nextId ∧
    r.cached? stringType (some (.text text)) = none ∧
      r.Spawns after stringType (.text text) { cacheKey? := some (.text text) } r.allLinks

namespace Interns

variable {after : Registry} {text : String}

theorem neutral (h : r.Interns after text) : r.Neutral after := by
  rcases h with rfl | ⟨-, -, hspawns⟩
  · exact .refl _
  · exact hspawns.neutral

/-- What is there is left alone. -/
theorem others (h : r.Interns after text) :
    ∀ x, x ≠ r.supply.nextId → after.resource? x = r.resource? x := by
  rcases h with rfl | ⟨-, -, hspawns⟩
  · exact fun _ _ => rfl
  · exact hspawns.others

theorem supply (h : r.Interns after text) : after = r ∨ after.supply = r.supply.draw :=
  h.imp_right fun hnew => hnew.2.2.supply

end Interns

/-- Interning a text gives the number that the text has then. -/
theorem ends_createString (text : String) (r : Registry) :
    Ends (createString text) r
      (fun id after => id = r.internedId text ∧ r.Interns after text) (fun _ _ => False) := by
  unfold createString internedId
  split
  · exact ⟨rfl, .inl rfl⟩
  · rename_i hfull
    simp only [Ends.bind_iff, Ends.get_iff]
    cases h : r.cached? stringType (some (.text text)) with
    | some id => exact ⟨rfl, .inl rfl⟩
    | none =>
      apply (ends_spawn stringType (.text text) { cacheKey? := some (.text text) }
        List.nodup_range r h).imp
      · intro id after hnew
        refine ⟨hnew.1, .inr ⟨?_, h, hnew.2⟩⟩
        unfold internedId
        rw [if_neg hfull, h]
        rfl
      · exact fun _ _ h => h

/-- A raw buffer is entered under the next number and sent over every link. -/
theorem ends_createBuffer (buffer : RawBuffer) (r : Registry) :
    Ends (createBuffer buffer) r
      (fun id after => id = r.supply.nextId ∧
        r.Spawns after arrayBufferType (.buffer buffer) {} r.allLinks)
      (fun _ _ => False) := by
  unfold createBuffer
  simp only [Ends.bind_iff, Ends.get_iff]
  exact ends_spawn arrayBufferType (.buffer buffer) {} List.nodup_range r rfl

/-- Creating an opaque resource moves no reference. -/
theorem ends_createOpaque (thread : Thread) (type : String) (p : Payload) (options : Options)
    (r : Registry) :
    Ends (createOpaque thread type p options) r
      (fun _ after => r.Neutral after) (fun _ after => after = r) := by
  unfold createOpaque
  simp only [Ends.bind_iff, Ends.get_iff]
  cases r.linkTo? thread with
  | none => rfl
  | some position =>
    dsimp only
    split
    · rfl
    · cases huncached : r.cached? type options.cacheKey? with
      | some id => exact .refl r
      | none =>
        apply (ends_spawn type p options (List.nodup_singleton position) r huncached).imp
        · exact fun id after hspawn => hspawn.2.neutral
        · exact fun _ _ h => h.elim

end Registry

end Framecast
