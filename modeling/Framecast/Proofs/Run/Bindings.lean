import Framecast.Proofs.Feed.Course
import Framecast.Proofs.Run.Deeds
import Framecast.Proofs.Run.Segments

/-!
# The targets of a resource

A resource is bound to links when it is made, and to no other link afterwards. Each
binding names the thread at the far end of its link, and a thread is at the far end of
one link at most, so that the targets of a resource say what it is bound to.
-/

namespace Framecast

namespace Registry

variable {r r' : Registry} {k : Nat} {thread : Thread} {res : Resource}

/-- The threads that are followed by, link by link. -/
def threads (r : Registry) : List Thread := r.links.map Link.thread

/-- Every thread is followed by once at most, and every binding names the thread of its link. -/
structure IsAddressed (r : Registry) : Prop where
  /-- No thread is there twice. -/
  once : r.threads.Nodup
  /-- A binding names the thread of its link. -/
  named : ∀ id res, r.resource? id = some res → ∀ binding ∈ res.bindings,
    r.threads[binding.link]? = some binding.thread

/-- A link to a thread has the thread at its far end. -/
theorem getElem?_threads_of_linkTo? (h : r.linkTo? thread = some k) :
    r.threads[k]? = some thread := by
  obtain ⟨hk, hthread, -⟩ := List.findIdx?_eq_some_iff_getElem.mp h
  unfold threads
  rw [List.getElem?_map, List.getElem?_eq_getElem hk, Option.map_some]
  exact congrArg some (by simpa using hthread)

/-- A resource is targeted at a thread if it is bound to the link to it. -/
theorem IsAddressed.mem_targets_iff (h : r.IsAddressed) {id : ResourceId}
    (hres : r.resource? id = some res) (hk : r.threads[k]? = some thread) :
    thread ∈ res.targets ↔ res.IsBoundTo k := by
  constructor
  · intro hmem
    obtain ⟨binding, hbinding, rfl⟩ := List.mem_map.mp hmem
    have hlink := h.named id res hres binding hbinding
    refine ⟨binding, hbinding, ?_⟩
    exact (List.getElem?_inj (List.getElem?_eq_some_iff.mp hlink).1 h.once).mp (hlink.trans hk.symm)
  · rintro ⟨binding, hbinding, rfl⟩
    have hlink := (h.named id res hres binding hbinding).symm.trans hk
    exact List.mem_map.mpr ⟨binding, hbinding, Option.some.inj hlink⟩

/-- Bindings go on naming the threads of their links if links are added and resources keep their
bindings. -/
theorem IsAddressed.of_sameBodies (h : r.IsAddressed) (hsame : r.SameBodies r')
    (hthreads : r.threads <+: r'.threads) (honce : r'.threads.Nodup) : r'.IsAddressed := by
  refine ⟨honce, fun id res' hres' binding hbinding => ?_⟩
  obtain ⟨res, hres, heq⟩ := hsame.origin hres'
  rw [← Resource.bindings_of_body heq] at hbinding
  have hlink := h.named id res hres binding hbinding
  obtain ⟨more, hmore⟩ := hthreads
  rw [← hmore, List.getElem?_append_left (List.getElem?_eq_some_iff.mp hlink).1]
  exact hlink

/-- Sending the outboxes keeps the links where they are. -/
theorem threads_flushLinks (links : List Link) :
    (flushLinks links).1.map Link.thread = links.map Link.thread := by
  have hone (link : Link) : (flushLink link).1.thread = link.thread := by
    unfold flushLink
    split <;> rfl
  induction links with
  | nil => rfl
  | cons first rest ih =>
    unfold flushLinks
    split
    · exact congrArg (first.thread :: ·) ih
    · have hfirst := hone first
      split
      · rename_i hflush
        rw [hflush] at hfirst
        exact congrArg (· :: rest.map Link.thread) hfirst
      · rename_i hflush
        rw [hflush] at hfirst
        rw [List.map_cons, List.map_cons, ih]
        exact congrArg (· :: rest.map Link.thread) hfirst

/-- Only a thread that nobody follows by is connected. -/
theorem ends_connect_once (thread : Thread) (r : Registry) :
    Ends (connect thread) r (fun _ _ => thread ∉ r.threads) (fun _ _ => True) := by
  unfold connect
  rw [Ends.bind_iff, Ends.get_iff]
  dsimp only
  split
  · trivial
  · rename_i hfree
    have hnew : thread ∉ r.threads := by
      intro hmem
      obtain ⟨link, hlink, hthread⟩ := List.mem_map.mp hmem
      apply hfree
      rw [Bool.or_eq_true]
      exact .inr (List.any_eq_true.mpr ⟨link, hlink, by simpa using hthread⟩)
    cases Wire.create r.config.ringCapacity with
    | error cause => trivial
    | ok wire => exact hnew

/-- A registry in which what was there before is bound to the links that it was bound to. -/
def KeepsBindings (r after : Registry) : Prop :=
  ∀ x res', after.resource? x = some res' → x.toNat ≤ r.supply.issued →
    ∃ res, r.resource? x = some res ∧ res'.bindings = res.bindings

/-- A deed binds nothing that was there before. -/
theorem Deed.keepsBindings {new? : Option (ResourceId × Option String)} (h : r.Deed r' new?)
    (hl : r'.supply.Lasts) : r.KeepsBindings r' := by
  have hold {x : ResourceId} {s : Registry} (hx : x.toNat ≤ r.supply.issued)
      (hissued : r.supply.issued ≤ s.supply.issued) (hls : s.supply.Lasts) : x ≠ s.supply.nextId := by
    rintro rfl
    rw [Supply.toNat_nextId hls] at hx
    omega
  refine h.keep (P := fun draft? s => r.KeepsBindings s ∧
    ∀ d, draft? = some d → r.supply.issued < d.toNat) (Q := fun _ s => r.KeepsBindings s) hl
    ?_ (fun s hP => hP.1) ?_ ?_ (fun _ _ _ hP => hP.1) ?_
    ⟨fun x res' hres' _ => ⟨res', hres', rfl⟩, fun _ hnone => by cases hnone⟩
  · rintro draft? s s' hissued - hls hone ⟨hs, hdraft⟩
    refine ⟨fun x res' hres' hx => ?_, hdraft⟩
    cases hone with
    | declare => exact hs x res' hres' hx
    | touch id hf =>
      have hstanding := standing_modifyResource s id hf x
      rw [hres', Option.map_some] at hstanding
      obtain ⟨old, hres, heq⟩ := Option.map_eq_some_iff.mp hstanding.symm
      obtain ⟨res, hfound, hbindings⟩ := hs x old hres hx
      exact ⟨res, hfound, (Resource.of_standing heq.symm).2.1.trans hbindings⟩
    | add hadds =>
      have hne := hold hx hissued (hadds.supply ▸ hls).of_draw
      exact hs x res' ((hadds.others x hne).symm.trans hres') hx
    | remove =>
      rw [resource?_remove] at hres'
      split at hres'
      · cases hres'
      · exact hs x res' hres' hx
  · rintro s' res hls hadds ⟨hs, -⟩ x res' hres' hx
    have hne := hold hx (Nat.le_refl _) (hadds.supply ▸ hls).of_draw
    exact hs x res' ((hadds.others x hne).symm.trans hres') hx
  · rintro s s' res hissued hls hdraft ⟨hs, -⟩
    have hlast := (hdraft.supply ▸ hls).of_draw
    refine ⟨fun x res' hres' hx => ?_, fun d hd => ?_⟩
    · exact hs x res' ((hdraft.others x (hold hx hissued hlast)).symm.trans hres') hx
    · cases hd
      rw [Supply.toNat_nextId hlast]
      omega
  · rintro d s s' old hook? bindings hnew - hplaced - ⟨hs, -⟩ x res' hres' hx
    have hne : x ≠ d := by
      rintro rfl
      omega
    exact hs x res' ((hplaced.others x hne).symm.trans hres') hx

end Registry

namespace Edit

variable {strict : Prop} {writer : ResourceId} {b b' : Book}

/-- An elementary change keeps the links where they are. -/
theorem threads (h : Edit strict writer b b') : b'.registry.threads = b.registry.threads := by
  cases h with
  | quiet h =>
    have hthreads := congrArg (List.map Link.thread) h.links
    rw [List.map_map, List.map_map] at hthreads
    exact hthreads
  | enter => rfl
  | drop => rfl
  | retain => simp [Registry.threads]
  | release => simp [Registry.threads]
  | store =>
    exact congrArg (List.map Link.thread) (Registry.links_modifyResource _ _ _)
  | @ship r _ _ id res k link load h hlink _ _ _ =>
    obtain ⟨hk, rfl⟩ := List.getElem?_eq_some_iff.mp hlink
    have hship : (r.links[k].ship k res r.tick).2.thread = r.links[k].thread := by
      unfold Link.ship
      cases res.storage <;> rfl
    unfold Registry.threads
    rw [List.map_set, hship]
    apply List.ext_getElem?
    intro j
    rw [List.getElem?_set]
    split
    · rename_i hkj
      subst hkj
      simp [hk]
    · rfl
  | @remove r _ _ id res _ _ =>
    obtain ⟨_, heq⟩ := Registry.remove_eq res r
    apply List.ext_getElem?
    intro k
    simp [heq, Registry.threads, Link.enqueue, Function.comp_def]

/-- The binding that a sending gives names the thread of the link. -/
theorem isAddressed (h : Edit strict writer b b') (ha : b.registry.IsAddressed) :
    b'.registry.IsAddressed := by
  have hthreads := h.threads
  refine ⟨hthreads ▸ ha.once, fun id res' hres' binding hbinding => ?_⟩
  rw [hthreads]
  cases h.descent hres' with
  | kept hres _ _ _ _ hbindings => exact ha.named id _ hres binding (hbindings ▸ hbinding)
  | entered _ _ _ hnew =>
    rw [hnew.unsent] at hbinding
    cases hbinding
  | stored _ hres _ _ _ _ heq =>
    subst heq
    exact ha.named id _ hres binding hbinding
  | @shipped res k link load hres hlink _ _ _ heq =>
    subst heq
    rcases List.mem_append.mp hbinding with hmem | hmem
    · exact ha.named id res hres binding hmem
    · have hthread : (link.ship k res b.registry.tick).1.thread = link.thread := by
        unfold Link.ship
        cases res.storage <;> rfl
      rw [List.mem_singleton.mp hmem, Link.link_ship, hthread]
      unfold Registry.threads
      rw [List.getElem?_map, hlink]
      rfl

end Edit

namespace Broadcast

variable {b : Broadcast} {action : Action}

/-- Links are added for threads that nobody followed by, and stay where they are. -/
theorem threads_step (h : action.isInternal = false) :
    (b.step action).2.registry.threads = b.registry.threads ∨
      ∃ thread, thread ∉ b.registry.threads ∧
        (b.step action).2.registry.threads = b.registry.threads ++ [thread] := by
  have hcourses {r : Registry} (hr : r.links.map Link.course = b.registry.links.map Link.course) :
      r.threads = b.registry.threads := by
    have hthreads := congrArg (List.map Link.thread) hr
    rw [List.map_map, List.map_map] at hthreads
    exact hthreads
  have hmodify (k : Nat) (f : Link → Link) (hf : ∀ link, (f link).thread = link.thread) :
      (b.registry.modifyLink k f).threads = b.registry.threads := by
    unfold Registry.threads Registry.modifyLink
    apply List.ext_getElem?
    intro j
    rw [List.getElem?_map, List.getElem?_map, List.getElem?_modify]
    cases b.registry.links[j]? with
    | none => rfl
    | some link =>
      by_cases hkj : k = j
      · simp [hkj, hf]
      · simp [hkj]
  have hconnection {α : Type} (k : Nat) (m : ConnectionM α) :
      (b.onConnection k m).2.registry.threads = b.registry.threads := by
    rcases b.onConnection_cases k m with
      ⟨-, heq⟩ | ⟨c, -, ⟨_, after, -, heq⟩ | ⟨_, after, -, heq⟩⟩
    · rw [heq]
    · rw [heq]
      exact hmodify k _ fun _ => rfl
    · rw [heq]
      exact hmodify k _ fun _ => rfl
  cases action with
  | setTick tick => exact .inl rfl
  | connect thread =>
    rcases b.step_connect thread with ⟨wire, -, hstep⟩ | ⟨e, hstep⟩
    · refine .inr ⟨thread, ?_, ?_⟩
      · have honce := Registry.ends_connect_once thread b.registry
        cases hrun : (Registry.connect thread).run b.registry with
        | ok position after => exact honce.of_ok hrun
        | error e after =>
          simp only [step, connect, hrun] at hstep
          cases hstep
      · rw [hstep]
        unfold Registry.threads
        rw [List.map_append]
        rfl
    · rw [hstep]
      exact .inl rfl
  | commit => exact .inl (hcourses b.courses_commit)
  | flush =>
    refine .inl (onRegistry_after (P := fun after => after.threads = b.registry.threads) ?_ _)
    apply (Registry.ends_flush b.registry).imp
    · rintro _ after ⟨retired, hretired, -, rfl⟩
      exact (Registry.threads_flushLinks _).trans (hcourses hretired.course)
    · rintro _ after ⟨retired, hretired, rfl | rfl⟩
      · exact hcourses hretired.course
      · exact (Registry.threads_flushLinks _).trans (hcourses hretired.course)
  | registerLoader k type loader => exact .inl (hconnection k _)
  | update k tick => exact .inl (hconnection k _)
  | hangUp k => exact .inl (hmodify k _ fun _ => rfl)
  | registerType | createOpaque | createInstance | createString | createBuffer | retain |
    dispose | setProp | setPropFromScript | await | processAcks | elsewhere => cases h

/-- In every step bindings go on naming the threads of their links, and links stay where they are. -/
theorem isAddressed_step (hc : action.IsCompiled) (hw : b.registry.WellFormed)
    (hl : (b.step action).2.registry.supply.Lasts) (h : b.registry.IsAddressed) :
    (b.step action).2.registry.IsAddressed ∧
      b.registry.threads <+: (b.step action).2.registry.threads := by
  cases hinternal : action.isInternal with
  | true =>
    have hkept := (changes_step hinternal hc hw hl).keep
      (P := fun s => s.IsAddressed ∧ s.threads = b.registry.threads) hw hl
      (fun _ _ _ _ _ _ _ hedit hs => ⟨hedit.isAddressed hs.1, hedit.threads.trans hs.2⟩) ⟨h, rfl⟩
    exact ⟨hkept.2.1, hkept.2.2 ▸ List.prefix_refl _⟩
  | false =>
    have hsame := sameBodies_step (b := b) hinternal
    rcases threads_step (b := b) hinternal with heq | ⟨thread, hnew, heq⟩
    · have hprefix : b.registry.threads <+: (b.step action).2.registry.threads :=
        heq ▸ List.prefix_refl _
      exact ⟨h.of_sameBodies hsame hprefix (heq ▸ h.once), hprefix⟩
    · have hprefix : b.registry.threads <+: (b.step action).2.registry.threads :=
        heq ▸ List.prefix_append _ _
      refine ⟨h.of_sameBodies hsame hprefix ?_, hprefix⟩
      rw [heq]
      exact h.once.append (List.nodup_singleton _) (List.disjoint_singleton.mpr hnew)

/-- In every step what was there before keeps its bindings. -/
theorem keepsBindings_step (hc : action.IsCompiled) (hw : b.registry.WellFormed)
    (hl : (b.step action).2.registry.supply.Lasts) :
    b.registry.KeepsBindings (b.step action).2.registry := by
  have hbodies {after : Registry} (h : ∀ x, (after.resource? x).map Resource.body =
      (b.registry.resource? x).map Resource.body) : b.registry.KeepsBindings after := by
    intro x res' hres' _
    have hbody := h x
    rw [hres', Option.map_some] at hbody
    obtain ⟨res, hres, heq⟩ := Option.map_eq_some_iff.mp hbody.symm
    exact ⟨res, hres, (Resource.bindings_of_body heq).symm⟩
  cases hinternal : action.isInternal with
  | false => exact hbodies (sameBodies_step (b := b) hinternal).resources
  | true =>
    cases hacks : action.takesAcks with
    | false =>
      obtain ⟨_, hdeed, -⟩ := deed_step hinternal hacks hc hw hl
      exact hdeed.keepsBindings hl
    | true =>
      cases action with
      | await id => exact hbodies (Registry.quiet_await b.registry id).resources
      | processAcks => exact hbodies (Registry.quiet_processAcks b.registry).resources
      | setTick | connect | registerType | createOpaque | createInstance | createString |
        createBuffer | retain | dispose | setProp | setPropFromScript | commit | flush |
        elsewhere | registerLoader | update | hangUp => cases hacks <;> cases hinternal

end Broadcast

namespace Run

variable {config : Config} {supply : Supply} {past later earlier : List Moment} {b b₁ : Broadcast}

/-- In every run bindings name the threads of their links. -/
theorem isAddressed (h : Run (.opened config supply) past b)
    (hc : ∀ m ∈ past, m.action.IsCompiled) (hl : b.registry.supply.Lasts) :
    b.registry.IsAddressed := by
  refine h.kept (P := fun b => b.registry.IsAddressed) hc hl ?_ ?_
  · refine ⟨List.nodup_nil, fun id res hres => ?_⟩
    rw [Broadcast.resource?_opened] at hres
    cases hres
  · exact fun b action hw hone hl h => (Broadcast.isAddressed_step hone hw hl h).1

/-- A run that goes on keeps the links where they are, and what was there keeps its bindings. -/
theorem keeps_targets (h : Run (.opened config supply) earlier b₁)
    (hlater : Run b₁ later b) (hc : ∀ m ∈ later ++ earlier, m.action.IsCompiled)
    (hl : b.registry.supply.Lasts) :
    b₁.registry.threads <+: b.registry.threads ∧ b₁.registry.KeepsBindings b.registry := by
  induction hlater with
  | nil => exact ⟨List.prefix_refl _, fun x res hres _ => ⟨res, hres, rfl⟩⟩
  | @snoc later b hlater action ih =>
    have hone : action.IsCompiled := hc ⟨b, action⟩ List.mem_cons_self
    have hrest : ∀ m ∈ later ++ earlier, m.action.IsCompiled :=
      fun m hm => hc m (List.mem_cons_of_mem _ hm)
    have hlasts : b.registry.supply.Lasts := hl.mono (b.issued_le_step hone)
    have hrun := h.append hlater
    have hw := hrun.wellFormed hrest hlasts
    obtain ⟨hthreads, hkeeps⟩ := ih hrest hlasts
    refine ⟨hthreads.trans (Broadcast.isAddressed_step hone hw hl
      (hrun.isAddressed hrest hlasts)).2, fun x res' hres' hx => ?_⟩
    obtain ⟨b₂, h₂, hissued⟩ := hrun.beginning hrest
    obtain rfl := h₂.end_unique h
    obtain ⟨res, hres, hbindings⟩ := Broadcast.keepsBindings_step hone hw hl x res' hres'
      (hx.trans hissued)
    obtain ⟨res₁, hres₁, heq⟩ := hkeeps x res hres hx
    exact ⟨res₁, hres₁, hbindings.trans heq⟩

end Run

end Framecast
