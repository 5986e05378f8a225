import Framecast.Proofs.Accounts.Operations
import Framecast.Proofs.Run.Steps

/-!
# The accounts of a run

Over a whole run, the count of a live resource is what the host took on it and did
not give back, plus the slots of live instances that hold it. The host keeps to
one rule: it disposes of a resource only while it has a reference on it, or when
no instance holds it.
-/

namespace Framecast

/-- What an action adds to the references of the host on a resource. -/
def Moment.lent (m : Moment) (id : ResourceId) : Int :=
  match m.action, m.answer with
  | .retain x, .counted _ => if x = id then 1 else 0
  | .dispose x, .disposed false => if x = id then -1 else 0
  | _, _ => 0

/-- The references that the host took on a resource, less those it gave back. -/
def external (past : List Moment) (id : ResourceId) : Int := (past.map (·.lent id)).sum

/-- The host disposes of a resource only while it has a reference on it, or when no instance holds
it. -/
def Disciplined : List Moment → Prop
  | [] => True
  | m :: past =>
    (match m.action with
      | .dispose id => 0 < external past id ∨ m.before.registry.retainers id = []
      | _ => True) ∧ Disciplined past

/-- Whether the host keeps to its rule can be tried out. -/
def decideDisciplined : (past : List Moment) → Decidable (Disciplined past)
  | [] => .isTrue trivial
  | m :: past =>
    have := decideDisciplined past
    have : Decidable (match m.action with
        | .dispose id => 0 < external past id ∨ m.before.registry.retainers id = []
        | _ => True) := by
      split <;> infer_instance
    inferInstanceAs (Decidable (_ ∧ _))

instance (past : List Moment) : Decidable (Disciplined past) := decideDisciplined past

/-- No count reaches its limit during an action. A write that fails takes no reference. -/
def Moment.Spares (m : Moment) : Prop :=
  match m.action with
  | .retain id => m.before.registry.Spares {id}
  | .setProp id name value | .setPropFromScript id name value =>
    m.answer = .done → m.before.registry.Spares (m.before.registry.takesFor id name value)
  | .createInstance schema props options => m.before.registry.SparesCreation schema props options
  | _ => True

instance (m : Moment) : Decidable m.Spares := by
  unfold Moment.Spares
  split <;> infer_instance

/-- Whether the host disposed of a resource and was told that it is gone. -/
def Relinquished (past : List Moment) (id : ResourceId) : Prop :=
  ∃ m ∈ past, m.action = .dispose id ∧ m.answer = .disposed true

/-- The references outside of instances are those of the host, as far as live resources go. -/
structure Hosted (r : Registry) (past : List Moment) (outside : Multiset ResourceId) : Prop where
  /-- As many references on a live resource are outside as the host has. -/
  host : ∀ {x res}, r.resource? x = some res → (outside.count x : Int) = external past x
  /-- The host has references on numbers only that were given out. -/
  issued : ∀ x, external past x ≠ 0 → x.toNat ≤ r.supply.issued
  /-- No others are outside. -/
  given : ∀ x ∈ outside, x.toNat ≤ r.supply.issued

/-- The accounts of a producer after a run: the references of the host balance the books. -/
structure Accounted (r : Registry) (past : List Moment) (outside : Multiset ResourceId) : Prop
    extends Hosted r past outside where
  /-- The books are balanced. -/
  balanced : r.IsBalanced outside
  /-- What the host has a reference on lives until the host disposes of it. -/
  kept : ∀ x, 0 < external past x → (∃ res, r.resource? x = some res) ∨ Relinquished past x

namespace Broadcast

variable {b : Broadcast} {action : Action} {outside : Multiset ResourceId}

/-- Every action but a reference taken or given back by the host keeps the balance. -/
theorem isBalanced_step (hb : b.registry.IsBalanced outside) (hw : b.registry.WellFormed)
    (hc : action.IsCompiled) (hl : (b.step action).2.registry.supply.Lasts)
    (hs : Moment.Spares ⟨b, action⟩) (hretain : ∀ id, action ≠ .retain id)
    (hdispose : ∀ id, action ≠ .dispose id) :
    (b.step action).2.registry.IsBalanced outside := by
  cases hinternal : action.isInternal with
  | false => exact hb.of_body (sameBodies_step hinternal).resources
  | true =>
    have hwrites {id : ResourceId} {limit : Multiset ResourceId} {m : RegistryM Unit}
        (h : Ends m b.registry
          (fun _ after => after.supply.Lasts → b.registry.Writes after id limit)
          (fun _ after => after.supply.Lasts → b.registry.Writes after id 0))
        (hl : (b.onRegistry m fun _ => .done).2.registry.supply.Lasts)
        (hs : (b.onRegistry m fun _ => .done).1 = .done → b.registry.Spares limit) :
        (b.onRegistry m fun _ => .done).2.registry.IsBalanced outside := by
      rcases (onRegistry_ends h fun _ => .done).1 with ⟨_, hdone, hafter⟩ | ⟨_, -, hafter⟩
      · exact hb.of_writes hw hl (hafter hl) fun x hx => (hs hdone x hx).le
      · exact hb.of_writes hw hl (hafter hl) fun x hx => absurd hx (Multiset.notMem_zero x)
    cases action with
    | elsewhere drawn pool => exact hb.of_body fun _ => rfl
    | registerType type =>
      exact hb.of_body (Registry.quiet_registerType b.registry type).resources
    | createOpaque thread type payload options =>
      refine onRegistry_after (P := fun after => after.supply.Lasts → after.IsBalanced outside)
        ?_ _ hl
      apply (Registry.ends_createOpaque thread type payload options b.registry).imp
      · exact fun _ after h hl => hb.of_neutral hw hl h
      · rintro _ after rfl -
        exact hb
    | createInstance schema props options =>
      exact onRegistry_after (hb.ends_createInstance hw hc.isSound props options hs) _ hl
    | createString text =>
      refine onRegistry_after (P := fun after => after.supply.Lasts → after.IsBalanced outside)
        ?_ _ hl
      apply (Registry.ends_createString text b.registry).imp
      · exact fun _ after h hl => hb.of_neutral hw hl h.2.neutral
      · exact fun _ _ h => h.elim
    | createBuffer buffer =>
      refine onRegistry_after (P := fun after => after.supply.Lasts → after.IsBalanced outside)
        ?_ _ hl
      apply (Registry.ends_createBuffer buffer b.registry).imp
      · exact fun _ after h hl => hb.of_neutral hw hl h.2.neutral
      · exact fun _ _ h => h.elim
    | setProp id name value => exact hwrites (Registry.ends_put hw .host) hl hs
    | setPropFromScript id name value =>
      exact hwrites (Registry.ends_put hw .script) hl hs
    | await id => exact hb.of_body (Registry.quiet_await b.registry id).resources
    | processAcks => exact hb.of_body (Registry.quiet_processAcks b.registry).resources
    | retain id => exact absurd rfl (hretain id)
    | dispose id => exact absurd rfl (hdispose id)
    | setTick | connect | commit | flush | registerLoader | update | hangUp => cases hinternal

end Broadcast

theorem external_cons (m : Moment) (past : List Moment) (x : ResourceId) :
    external (m :: past) x = m.lent x + external past x := List.sum_cons

namespace Moment

variable {m : Moment} {id : ResourceId}

theorem lent_of_counted {count : Nat} (haction : m.action = .retain id)
    (hanswer : m.answer = .counted count) (x : ResourceId) : m.lent x = if id = x then 1 else 0 := by
  unfold lent
  rw [haction, hanswer]

/-- A reference that was given back, while others are left, is one less for the host. -/
theorem lent_of_kept (haction : m.action = .dispose id) (hanswer : m.answer = .disposed false)
    (x : ResourceId) : m.lent x = if id = x then -1 else 0 := by
  unfold lent
  rw [haction, hanswer]

theorem lent_of_gone (haction : m.action = .dispose id) (hanswer : m.answer = .disposed true)
    (x : ResourceId) : m.lent x = 0 := by
  unfold lent
  rw [haction, hanswer]

/-- Nothing is taken or given back by what fails. -/
theorem lent_of_failed {e : ResourceError} (hanswer : m.answer = .failed e) (x : ResourceId) :
    m.lent x = 0 := by
  unfold lent
  rw [hanswer]
  cases m.action <;> rfl

/-- Only the host takes references and gives them back. -/
theorem lent_of_other (hretain : ∀ id, m.action ≠ .retain id)
    (hdispose : ∀ id, m.action ≠ .dispose id) (x : ResourceId) : m.lent x = 0 := by
  unfold lent
  cases haction : m.action with
  | retain id => exact absurd haction (hretain id)
  | dispose id => exact absurd haction (hdispose id)
  | _ => rfl

end Moment

namespace Hosted

variable {b : Broadcast} {action : Action} {past : List Moment}
  {outside outside' : Multiset ResourceId} {id : ResourceId} {res : Resource}

/-- The references of the host after one more action, from what it does to those outside. -/
theorem snoc (h : Hosted b.registry past outside) (hw : b.registry.WellFormed)
    (hc : action.IsCompiled) (hl : (b.step action).2.registry.supply.Lasts)
    (hcount : ∀ x res, (b.step action).2.registry.resource? x = some res →
      (outside'.count x : Int) = outside.count x + Moment.lent ⟨b, action⟩ x)
    (hlent : ∀ x, Moment.lent ⟨b, action⟩ x ≠ 0 → ∃ res, b.registry.resource? x = some res)
    (hfrom : ∀ x ∈ outside', x ∈ outside ∨ ∃ res, b.registry.resource? x = some res) :
    Hosted (b.step action).2.registry (⟨b, action⟩ :: past) outside' := by
  have hissued := b.issued_le_step hc
  refine ⟨?_, ?_, ?_⟩
  · intro x res' hx
    rw [external_cons, hcount x res' hx, Int.add_comm]
    congr 1
    by_cases hold : x.toNat ≤ b.registry.supply.issued
    · obtain ⟨res, hres, -⟩ := Broadcast.origin_step hc hw hl hold hx
      exact h.host hres
    · -- the host has no reference on a number that was only now given out
      have hnone : external past x = 0 := by
        by_contra hne
        exact hold (h.issued x hne)
      rw [Multiset.count_eq_zero_of_notMem fun hmem => hold (h.given x hmem), hnone]
      rfl
  · intro x hx
    rw [external_cons] at hx
    by_cases hne : external past x = 0
    · rw [hne, Int.add_zero] at hx
      obtain ⟨res, hres⟩ := hlent x hx
      exact (hw.numbered hres).2.trans hissued
    · exact (h.issued x hne).trans hissued
  · intro x hx
    rcases hfrom x hx with hold | ⟨res, hres⟩
    · exact (h.given x hold).trans hissued
    · exact (hw.numbered hres).2.trans hissued

/-- The host has the same references after an action that neither takes nor gives back any. -/
theorem other (h : Hosted b.registry past outside) (hw : b.registry.WellFormed)
    (hc : action.IsCompiled) (hl : (b.step action).2.registry.supply.Lasts)
    (hlent : ∀ x, Moment.lent ⟨b, action⟩ x = 0) :
    Hosted (b.step action).2.registry (⟨b, action⟩ :: past) outside := by
  apply h.snoc hw hc hl
  · intro x _ _
    rw [hlent, Int.add_zero]
  · exact fun x hx => absurd (hlent x) hx
  · exact fun x hx => .inl hx

/-- The host has one more reference after it took one. -/
theorem retain {count : Nat} (h : Hosted b.registry past outside) (hw : b.registry.WellFormed)
    (hl : (b.step (.retain id)).2.registry.supply.Lasts)
    (hres : b.registry.resource? id = some res) (hanswer : (b.step (.retain id)).1 = .counted count) :
    Hosted (b.step (.retain id)).2.registry (⟨b, .retain id⟩ :: past) (id ::ₘ outside) := by
  have hlent := Moment.lent_of_counted (m := ⟨b, .retain id⟩) rfl hanswer
  refine h.snoc hw trivial hl ?_ ?_ ?_
  · intro x _ _
    rw [hlent, Multiset.count_cons]
    simp only [@eq_comm _ x id]
    split <;> simp
  · intro x hx
    rw [hlent] at hx
    by_cases heq : id = x
    · exact ⟨res, heq ▸ hres⟩
    · simp [heq] at hx
  · intro x hx
    rcases Multiset.mem_cons.mp hx with rfl | hmem
    · exact .inr ⟨res, hres⟩
    · exact .inl hmem

/-- The host has one reference less after it gave one back and others are left. -/
theorem released (h : Hosted b.registry past outside) (hw : b.registry.WellFormed)
    (hl : (b.step (.dispose id)).2.registry.supply.Lasts)
    (hres : b.registry.resource? id = some res) (hmem : id ∈ outside)
    (hanswer : (b.step (.dispose id)).1 = .disposed false) :
    Hosted (b.step (.dispose id)).2.registry (⟨b, .dispose id⟩ :: past) (outside.erase id) := by
  have hlent := Moment.lent_of_kept (m := ⟨b, .dispose id⟩) rfl hanswer
  refine h.snoc hw trivial hl ?_ ?_ ?_
  · intro x _ _
    rw [hlent]
    by_cases heq : id = x
    · subst heq
      have := Multiset.count_pos.mpr hmem
      rw [Multiset.count_erase_self, if_pos rfl]
      omega
    · rw [Multiset.count_erase_of_ne (Ne.symm heq), if_neg heq]
      rfl
  · intro x hx
    rw [hlent] at hx
    by_cases heq : id = x
    · exact ⟨res, heq ▸ hres⟩
    · simp [heq] at hx
  · exact fun x hx => .inl (Multiset.mem_of_mem_erase hx)

/-- What the host has on a resource that is gone does not matter. -/
theorem disposed (h : Hosted b.registry past outside) (hw : b.registry.WellFormed)
    (hl : (b.step (.dispose id)).2.registry.supply.Lasts)
    (hanswer : (b.step (.dispose id)).1 = .disposed true)
    (hgone : (b.step (.dispose id)).2.registry.resource? id = none) :
    Hosted (b.step (.dispose id)).2.registry (⟨b, .dispose id⟩ :: past) (outside.erase id) := by
  have hlent := Moment.lent_of_gone (m := ⟨b, .dispose id⟩) rfl hanswer
  refine h.snoc hw trivial hl ?_ ?_ ?_
  · intro x res' hx
    have hne : x ≠ id := by
      rintro rfl
      rw [hx] at hgone
      cases hgone
    rw [hlent, Multiset.count_erase_of_ne hne, Int.add_zero]
  · exact fun x hx => absurd (hlent x) hx
  · exact fun x hx => .inl (Multiset.mem_of_mem_erase hx)

/-- A host without resources has no references. -/
theorem opened (config : Config) (supply : Supply) :
    Hosted (Broadcast.opened config supply).registry [] 0 := by
  refine ⟨?_, fun x hx => absurd rfl hx, fun x hx => absurd hx (Multiset.notMem_zero x)⟩
  intro x res hx
  rw [Broadcast.resource?_opened] at hx
  cases hx

end Hosted

namespace Accounted

variable {b : Broadcast} {past : List Moment} {outside : Multiset ResourceId}

/-- The accounts after one more action, from what the host has then and what becomes of the
resources that it has references on. -/
theorem snoc {action : Action} {outside' : Multiset ResourceId}
    (h : Accounted b.registry past outside)
    (hhosted : Hosted (b.step action).2.registry (⟨b, action⟩ :: past) outside')
    (hb : (b.step action).2.registry.IsBalanced outside')
    (hgain : ∀ x, 0 < Moment.lent ⟨b, action⟩ x →
      ∃ res, (b.step action).2.registry.resource? x = some res)
    (hdead : ∀ x ∈ outside, (b.step action).2.registry.resource? x = none →
      action = .dispose x ∧ (b.step action).1 = .disposed true) :
    Accounted (b.step action).2.registry (⟨b, action⟩ :: past) outside' := by
  refine ⟨hhosted, hb, fun x hx => ?_⟩
  rw [external_cons] at hx
  cases hafter : (b.step action).2.registry.resource? x with
  | some res => exact .inl ⟨res, rfl⟩
  | none =>
    right
    have hlost : Moment.lent ⟨b, action⟩ x ≤ 0 := by
      by_contra hpos
      obtain ⟨res, hres⟩ := hgain x (Int.not_le.mp hpos)
      rw [hafter] at hres
      cases hres
    rcases h.kept x (by omega) with ⟨res, hres⟩ | ⟨m, hm, hgone⟩
    · have hhost := h.host hres
      have hmem : x ∈ outside := Multiset.count_pos.mp (by omega)
      exact ⟨⟨b, action⟩, List.mem_cons_self, hdead x hmem hafter⟩
    · exact ⟨m, List.mem_cons_of_mem _ hm, hgone⟩

/-- The accounts after an action that neither takes nor gives back a reference of the host. -/
theorem other {action : Action} (h : Accounted b.registry past outside) (hw : b.registry.WellFormed)
    (hc : action.IsCompiled) (hl : (b.step action).2.registry.supply.Lasts)
    (hb : (b.step action).2.registry.IsBalanced outside)
    (hlent : ∀ x, Moment.lent ⟨b, action⟩ x = 0) :
    Accounted (b.step action).2.registry (⟨b, action⟩ :: past) outside := by
  refine h.snoc (h.toHosted.other hw hc hl hlent) hb ?_ ?_
  · intro x hx
    rw [hlent] at hx
    exact absurd hx (Int.lt_irrefl 0)
  · intro x hx hnone
    obtain ⟨res, hres⟩ := hb.live x (Multiset.mem_add.mpr (.inl hx))
    rw [hnone] at hres
    cases hres

/-- The accounts after an action that failed and changed nothing. -/
theorem refused {action : Action} {e : ResourceError} (h : Accounted b.registry past outside)
    (hw : b.registry.WellFormed) (hc : action.IsCompiled) (hl : b.registry.supply.Lasts)
    (hanswer : (b.step action).1 = .failed e) (hstep : (b.step action).2.registry = b.registry) :
    Accounted (b.step action).2.registry (⟨b, action⟩ :: past) outside :=
  h.other hw hc (hstep ▸ hl) (hstep ▸ h.balanced) (Moment.lent_of_failed hanswer)

/-- The accounts after the host took a reference, or failed to. -/
theorem retain {id : ResourceId} (h : Accounted b.registry past outside)
    (hw : b.registry.WellFormed) (hl : b.registry.supply.Lasts)
    (hs : b.registry.Spares {id}) : ∃ outside',
      Accounted (b.step (.retain id)).2.registry (⟨b, .retain id⟩ :: past) outside' := by
  rcases (Broadcast.onRegistry_ends (Registry.ends_retain id b.registry) .counted).1 with
    ⟨count, hanswer, res, hres, hcount, hafter⟩ | ⟨e, hanswer, hnone, -, hafter⟩
  · have hstep : (b.step (.retain id)).2.registry =
        b.registry.modifyResource id Resource.retained := hafter
    have hlookup := Registry.resource?_modifyResource b.registry id Resource.retained
    rw [hres, Option.map_some] at hlookup
    have hsurvives : ∀ x res, b.registry.resource? x = some res →
        ∃ res', (b.step (.retain id)).2.registry.resource? x = some res' := by
      intro x res hx
      rw [hstep, hlookup]
      split
      · exact ⟨_, rfl⟩
      · exact ⟨res, hx⟩
    have hchain : Edits True 0 ⟨b.registry, outside, 0⟩
        ⟨(b.step (.retain id)).2.registry, id ::ₘ outside, id ::ₘ 0⟩ := by
      rw [hstep]
      exact .single (.retain hres)
    have hl' : (b.step (.retain id)).2.registry.supply.Lasts := by
      rw [hstep]
      simpa using hl
    refine ⟨id ::ₘ outside, h.snoc (h.toHosted.retain hw hl' hres hanswer)
      (hchain.isBalanced hw hl' (fun x hx => (hs x hx).le) h.balanced) ?_ ?_⟩
    · intro x hx
      rw [Moment.lent_of_counted (m := ⟨b, .retain id⟩) rfl hanswer] at hx
      by_cases heq : id = x
      · exact hsurvives x res (heq ▸ hres)
      · simp [heq] at hx
    · intro x hx hnone
      obtain ⟨res, hres⟩ := h.balanced.live x (Multiset.mem_add.mpr (.inl hx))
      obtain ⟨res', hres'⟩ := hsurvives x res hres
      rw [hnone] at hres'
      cases hres'
  · exact ⟨outside, h.refused hw trivial hl hanswer hafter⟩

/-- The accounts after the host gave a reference back. -/
theorem released {id : ResourceId} {res : Resource} (h : Accounted b.registry past outside)
    (hw : b.registry.WellFormed) (hl : b.registry.supply.Lasts)
    (hres : b.registry.resource? id = some res) (hmem : id ∈ outside)
    (hanswer : (b.step (.dispose id)).1 = .disposed false)
    (hstep : (b.step (.dispose id)).2.registry = b.registry.modifyResource id Resource.released)
    (hb : (b.step (.dispose id)).2.registry.IsBalanced (outside.erase id)) :
    Accounted (b.step (.dispose id)).2.registry (⟨b, .dispose id⟩ :: past) (outside.erase id) := by
  have hl' : (b.step (.dispose id)).2.registry.supply.Lasts := by
    rw [hstep]
    simpa using hl
  refine h.snoc (h.toHosted.released hw hl' hres hmem hanswer) hb ?_ ?_
  · intro x hx
    rw [Moment.lent_of_kept (m := ⟨b, .dispose id⟩) rfl hanswer] at hx
    split at hx <;> omega
  · intro x hx hnone
    obtain ⟨target, htarget⟩ := h.balanced.live x (Multiset.mem_add.mpr (.inl hx))
    rw [hstep, Registry.resource?_modifyResource, hres, htarget] at hnone
    split at hnone <;> cases hnone

/-- The accounts after the host disposed of a resource. -/
theorem disposed {id : ResourceId} (h : Accounted b.registry past outside)
    (hw : b.registry.WellFormed) (hl : (b.step (.dispose id)).2.registry.supply.Lasts)
    (hanswer : (b.step (.dispose id)).1 = .disposed true)
    (hgone : (b.step (.dispose id)).2.registry.resource? id = none)
    (hb : (b.step (.dispose id)).2.registry.IsBalanced (outside.erase id)) :
    Accounted (b.step (.dispose id)).2.registry (⟨b, .dispose id⟩ :: past) (outside.erase id) := by
  refine h.snoc (h.toHosted.disposed hw hl hanswer hgone) hb ?_ ?_
  · intro x hx
    rw [Moment.lent_of_gone (m := ⟨b, .dispose id⟩) rfl hanswer] at hx
    exact absurd hx (Int.lt_irrefl 0)
  · intro x hx hnone
    by_cases heq : x = id
    · exact ⟨heq ▸ rfl, hanswer⟩
    · -- the resource is still referenced, so it is there
      obtain ⟨res, hres⟩ := hb.live x (Multiset.mem_add.mpr
        (.inl ((Multiset.mem_erase_of_ne heq).mpr hx)))
      rw [hnone] at hres
      cases hres

/-- The accounts after the host gave a reference back or disposed of a resource, or failed to. -/
theorem dispose {id : ResourceId} (h : Accounted b.registry past outside)
    (hw : b.registry.WellFormed) (hl : b.registry.supply.Lasts)
    (hd : 0 < external past id ∨ b.registry.retainers id = []) : ∃ outside',
      Accounted (b.step (.dispose id)).2.registry (⟨b, .dispose id⟩ :: past) outside' := by
  cases hlive : b.registry.resource? id with
  | some res =>
    have hfree : id ∈ outside ∨ b.registry.retainers id = [] := by
      refine hd.imp_left fun hpos => Multiset.count_pos.mp ?_
      have := h.host hlive
      omega
    rcases (Broadcast.onRegistry_ends (h.balanced.ends_dispose hw hl hfree) .disposed).1 with
      ⟨gone, hanswer, -, hb, ⟨rfl, hmem, hstep⟩ | ⟨rfl, hgone, hlasts⟩⟩ | ⟨e, hanswer, hafter⟩
    · exact ⟨_, h.released hw hl hlive hmem hanswer hstep hb⟩
    · exact ⟨_, h.disposed hw hlasts hanswer hgone hb⟩
    · exact ⟨outside, h.refused hw trivial hl hanswer hafter⟩
  | none =>
    rcases (Broadcast.onRegistry_ends (Registry.ends_dispose id b.registry) .disposed).1 with
      ⟨gone, -, res, hres, -⟩ | ⟨e, hanswer, -, -, hafter⟩
    · rw [hlive] at hres
      cases hres
    · exact ⟨outside, h.refused hw trivial hl hanswer hafter⟩

/-- A producer without resources has nothing on its accounts. -/
theorem opened (config : Config) (supply : Supply) :
    Accounted (Broadcast.opened config supply).registry [] 0 := by
  refine ⟨.opened config supply, ⟨?_, ?_, ?_⟩, fun x hx => absurd hx (Int.lt_irrefl 0)⟩
  · intro x res hx
    rw [Broadcast.resource?_opened] at hx
    cases hx
  · intro x hx
    rw [Multiset.zero_add] at hx
    obtain ⟨id, res, hres, -⟩ := Resources.mem_gather.mp hx
    have hres := (Broadcast.resource?_opened config supply id).symm.trans hres
    cases hres
  · intro id res schema bytes prop hid
    rw [Broadcast.resource?_opened] at hid
    cases hid

end Accounted

namespace Run

variable {config : Config} {supply : Supply} {past : List Moment} {b : Broadcast}

/-- Whatever was done, some references outside of instances balance the books and are those of the
host. -/
theorem accounted (h : Run (.opened config supply) past b)
    (hc : ∀ m ∈ past, m.action.IsCompiled) (hl : b.registry.supply.Lasts)
    (hs : ∀ m ∈ past, m.Spares) (hd : Disciplined past) :
    ∃ outside, Accounted b.registry past outside := by
  refine h.keeps (P := fun past b => (∀ m ∈ past, m.Spares) → Disciplined past →
    ∃ outside, Accounted b.registry past outside) hc hl ?_ ?_ hs hd
  · exact fun _ _ => ⟨0, .opened config supply⟩
  · intro past b action h hrest hone hlasts hl ih hs hd
    have hw := h.wellFormed hrest hlasts
    have hspare : Moment.Spares ⟨b, action⟩ := hs _ List.mem_cons_self
    obtain ⟨outside, ih⟩ := ih (fun m hm => hs m (List.mem_cons_of_mem _ hm)) hd.2
    by_cases hretain : ∃ id, action = .retain id
    · obtain ⟨id, rfl⟩ := hretain
      exact ih.retain hw hlasts hspare
    · by_cases hdispose : ∃ id, action = .dispose id
      · obtain ⟨id, rfl⟩ := hdispose
        exact ih.dispose hw hlasts hd.1
      · have hbalanced := Broadcast.isBalanced_step ih.balanced hw hone hl hspare
          (fun id heq => hretain ⟨id, heq⟩) fun id heq => hdispose ⟨id, heq⟩
        exact ⟨outside, ih.other hw hone hl hbalanced (Moment.lent_of_other
          (fun id heq => hretain ⟨id, heq⟩) fun id heq => hdispose ⟨id, heq⟩)⟩

/-- The count of a live resource is what the host took on it and did not give back, plus the slots of
live instances that hold it. Texts, raw buffers and owning references of live instances lead to live
resources, of the declared type. What the host has a reference on is not removed until the host
itself disposes of it. -/
theorem refCount_eq_external_add_retainers (h : Run (.opened config supply) past b)
    (hc : ∀ m ∈ past, m.action.IsCompiled) (hl : b.registry.supply.Lasts)
    (hs : ∀ m ∈ past, m.Spares) (hd : Disciplined past) :
    (∀ id res, b.registry.resource? id = some res →
        (res.refCount : Int) = external past id + (b.registry.retainers id).length) ∧
      (∀ holder res schema bytes, b.registry.resource? holder = some res →
        res.storage = .fields schema bytes → ∀ prop ∈ schema.layout.props,
          ∀ slot id, (slot, id) ∈ prop.refSlots (prop.slice bytes) → id ≠ 0 →
            ∃ target, b.registry.resource? id = some target ∧
              (prop.isOwningRef = true → prop.target? = some target.type)) ∧
      ∀ id, 0 < external past id →
        (∃ res, b.registry.resource? id = some res) ∨ Relinquished past id := by
  obtain ⟨outside, haccounts⟩ := h.accounted hc hl hs hd
  refine ⟨?_, ?_, haccounts.kept⟩
  · intro id res hid
    rw [haccounts.balanced.counts hid, Multiset.count_add, ← haccounts.host hid,
      Registry.length_retainers, Nat.cast_add]
  · intro holder res schema bytes hholder hstorage prop hprop slot id hslot hne
    have hheld : id ∈ prop.heldIds (prop.slice bytes) :=
      Property.mem_heldIds.mpr ⟨⟨slot, hslot⟩, hne⟩
    have hmem := Registry.mem_holdings_of_mem hholder hstorage hprop hheld
    obtain ⟨target, htarget⟩ := haccounts.balanced.live id (Multiset.mem_add.mpr (.inr hmem))
    refine ⟨target, htarget, fun howning => ?_⟩
    obtain ⟨target', htarget', htype⟩ :=
      haccounts.balanced.typed hholder hstorage hprop howning id hheld
    rw [htarget] at htarget'
    cases htarget'
    exact htype

end Run

namespace Samples

/-- Two nodes in a circle, one of which the host keeps. -/
def circle : List Moment × Broadcast :=
  (Broadcast.opened ⟨.game, 4⟩ ⟨0, .initial⟩).play
    [.createInstance ⟨0, node⟩ [("name", .text "a")] {},
      .createInstance ⟨0, node⟩ [("name", .text "a"), ("next", .ref (some 1))] {},
      .setProp 1 "next" (.ref (some 3)),
      .retain 1,
      .retain 1,
      .dispose 1]

theorem isCompiled_circle : ∀ m ∈ circle.1, m.action.IsCompiled :=
  Broadcast.isCompiled_play _ (by simp [Action.IsCompiled, isCompiled_node])

/-- The first node of the circle is referenced by the host and by the second node. -/
theorem refCount_circle :
    (circle.2.registry.resource? 1).map Resource.refCount = some 2 ∧ external circle.1 1 = 1 ∧
      (circle.2.registry.retainers 1).length = 1 ∧
        ∀ id res, circle.2.registry.resource? id = some res →
          (res.refCount : Int) = external circle.1 id + (circle.2.registry.retainers id).length :=
  ⟨by decide +kernel, by decide +kernel, by decide +kernel,
    (Run.refCount_eq_external_add_retainers (.play _ _) isCompiled_circle (by decide +kernel)
      (by decide +kernel) (by decide +kernel)).1⟩

end Samples

end Framecast
