import Mathlib.Data.FinEnum
import Framecast.Proofs.Accounts.Cover
import Framecast.Proofs.Accounts.Ledger
import Framecast.Proofs.Cascade.Fixpoint

/-!
# What keeps resources alive

Whatever is counted is named, by the host or by the slot of a live instance. Where no
chain of slots leads back to where it began, going from holder to holder must end, and
it can end only at a resource that the host has a reference on or that nothing counts.
So a host that has given everything back can dispose of what has no reference, again
and again, until nothing is left.
-/

namespace Framecast

namespace Registry

/-- Whether a slot of one live resource holds another. -/
def Holds (r : Registry) (holder held : ResourceId) : Prop :=
  ∃ res, r.resource? holder = some res ∧ ∃ slot ∈ res.storage.heldRefs, slot.id = held

/-- Whether no chain of slots leads back to where it began. -/
def IsAcyclic (r : Registry) : Prop := ∀ x, ¬Relation.TransGen r.Holds x x

variable {r r' : Registry} {outside : Multiset ResourceId} {id x y : ResourceId} {res : Resource}

theorem holds_iff :
    r.Holds x y ↔ ∃ res, r.resource? x = some res ∧ y ∈ res.storage.heldIds := by
  unfold Holds
  simp only [← Storage.map_id_heldRefs, List.mem_map]

theorem IsAcyclic.of_holds (h : r.IsAcyclic) (hle : ∀ x y, r'.Holds x y → r.Holds x y) :
    r'.IsAcyclic := fun x hback => h x (hback.lift id hle)

/-- There is no way back where every slot of a live resource leads down. -/
theorem isAcyclic_of_rank (hkeyed : r.IsKeyed) (rank : ResourceId → Nat)
    (h : ∀ res ∈ r.live, ∀ slot ∈ res.storage.heldRefs, rank slot.id < rank res.id) :
    r.IsAcyclic := by
  have hdown : ∀ x y, Relation.TransGen r.Holds x y → rank y < rank x := by
    have hone : ∀ x y, r.Holds x y → rank y < rank x := by
      rintro x y ⟨res, hres, slot, hslot, rfl⟩
      rw [← hkeyed x res hres]
      exact h res (mem_live.mpr ⟨x, hres⟩) slot hslot
    intro x y hpath
    induction hpath with
    | single hstep => exact hone _ _ hstep
    | tail _ hstep ih => exact (hone _ _ hstep).trans ih
  exact fun x hback => (hdown x x hback).false

/-- There are finitely many numbers, so going from holder to holder ends. -/
theorem IsAcyclic.wellFounded (h : r.IsAcyclic) : WellFounded r.Holds := by
  have hirrefl : Std.Irrefl (Relation.TransGen r.Holds) := ⟨h⟩
  have htrans : WellFounded (Relation.TransGen r.Holds) := Finite.wellFounded_of_trans_of_irrefl _
  exact Subrelation.wf Relation.TransGen.single htrans

/-- From every live resource, going from holder to holder leads to one that is referenced outside of
instances or that nothing counts. -/
theorem IsCovered.reached (hb : r.IsCovered outside) (ha : r.IsAcyclic)
    (hx : r.resource? x = some res) :
    ∃ root top, r.resource? root = some top ∧ (top.refCount = 0 ∨ root ∈ outside) ∧
      Relation.ReflTransGen r.Holds root x := by
  induction x using ha.wellFounded.induction generalizing res with
  | _ x ih =>
    by_cases hroot : res.refCount = 0 ∨ x ∈ outside
    · exact ⟨x, res, hx, hroot, .refl⟩
    · rw [not_or] at hroot
      obtain ⟨holder, found, hholder, hheld⟩ := hb.exists_holder hx hroot.1 hroot.2
      have hholds : r.Holds holder x := holds_iff.mpr ⟨found, hholder, hheld⟩
      obtain ⟨root, top, htop, hout, hpath⟩ := ih holder hholds hholder
      exact ⟨root, top, htop, hout, hpath.tail hholds⟩

/-- A disposal of what is referenced outside, or of what nothing counts, keeps the books covered with
one reference less. -/
theorem IsCovered.ends_dispose (hb : r.IsCovered outside) (hw : r.WellFormed)
    (hl : r.supply.Lasts)
    (hfree : ∀ res, r.resource? id = some res → id ∈ outside ∨ res.refCount = 0) :
    Ends (dispose id) r
      (fun gone after => (∃ res, r.resource? id = some res) ∧ after.supply.Lasts ∧
        after.IsCovered (outside.erase id) ∧
          (gone = false ∧ id ∈ outside ∨ gone = true ∧ after.resource? id = none))
      (fun _ after => after = r) := by
  have hcovered : r.IsCovered (id ::ₘ outside.erase id) := hb.mono (Multiset.le_cons_erase _ _)
  apply (Registry.ends_dispose id r).imp
  · rintro gone after ⟨res, hres, hcases⟩
    refine ⟨⟨res, hres⟩, ?_⟩
    have hrelease : Edit True 0 ⟨r, id ::ₘ outside.erase id, 0⟩
        ⟨r.modifyResource id Resource.released, outside.erase id, 0⟩ := .release hres
    have hl' : (r.modifyResource id Resource.released).supply.Lasts := by simpa using hl
    obtain ⟨rfl, hmany, rfl⟩ | ⟨rfl, hone, rfl⟩ := hcases
    · exact ⟨hl', hrelease.isCovered hw hl' hcovered,
        .inl ⟨rfl, (hfree res hres).resolve_right (by omega)⟩⟩
    · have hlasts : ((r.modifyResource id Resource.released).destroy id).supply.Lasts := by
        simpa using hl
      have hchain : Edits True 0 ⟨r, id ::ₘ outside.erase id, 0⟩
          ⟨(r.modifyResource id Resource.released).destroy id, outside.erase id, 0⟩ :=
        edits_released_destroy hres hone
      exact ⟨hlasts, hchain.dealings.isCovered hw hlasts hcovered,
        .inr ⟨rfl, resource?_destroy_self (hrelease.wellFormed hw hl') hl' id⟩⟩
  · rintro _ after ⟨-, -, rfl⟩
    rfl

/-- A registry of which nothing is referenced outside of instances and no slot leads back. -/
structure IsSweepable (r : Registry) : Prop where
  /-- The registry is well formed. -/
  wellFormed : r.WellFormed
  /-- Numbers last. -/
  lasts : r.supply.Lasts
  /-- Whatever is counted is held by live resources. -/
  covered : r.IsCovered 0
  /-- Going from holder to holder ends. -/
  acyclic : r.IsAcyclic

/-- Where anything is live, something live has no reference. -/
theorem IsSweepable.exists_uncounted (h : r.IsSweepable) (hx : r.resource? x = some res) :
    ∃ root top, r.resource? root = some top ∧ top.refCount = 0 := by
  obtain ⟨root, top, htop, hzero | hmem, -⟩ := h.covered.reached h.acyclic hx
  · exact ⟨root, top, htop, hzero⟩
  · exact absurd hmem (Multiset.notMem_zero root)

/-- What is left when something without references was disposed of can be swept as well. -/
theorem IsSweepable.destroy (h : r.IsSweepable) (hres : r.resource? id = some res)
    (hzero : res.refCount = 0) :
    ((r.modifyResource id Resource.released).destroy id).IsSweepable := by
  have hone : res.refCount ≤ 1 := by omega
  have hlasts : ((r.modifyResource id Resource.released).destroy id).supply.Lasts := by
    simpa using h.lasts
  have hchain : Edits True 0 ⟨r, id ::ₘ 0, 0⟩
      ⟨(r.modifyResource id Resource.released).destroy id, 0, 0⟩ := edits_released_destroy hres hone
  refine ⟨hchain.changes.wellFormed h.wellFormed hlasts, hlasts,
    hchain.dealings.isCovered h.wellFormed hlasts (h.covered.mono (Multiset.zero_le _)),
    h.acyclic.of_holds fun x y hholds => ?_⟩
  obtain ⟨after, hafter, hheld⟩ := holds_iff.mp hholds
  obtain ⟨old, hold, hstorage⟩ := origin_of_destroy h.wellFormed.isKeyed hres hafter
  exact holds_iff.mpr ⟨old, hold, hstorage ▸ hheld⟩

end Registry

namespace Broadcast

variable {b b' : Broadcast} {id : ResourceId} {res : Resource}

/-- The host disposes of a live resource that has no reference. -/
def Discards (b b' : Broadcast) : Prop :=
  ∃ id res, b.registry.resource? id = some res ∧ res.refCount = 0 ∧
    b' = (b.step (.dispose id)).2

/-- What has no reference is gone when the host disposes of it. -/
theorem step_dispose_of_uncounted (h : b.registry.resource? id = some res)
    (hzero : res.refCount = 0) : b.step (.dispose id) = (.disposed true, { b with
      registry := (b.registry.modifyResource id Resource.released).destroy id }) := by
  have hrun := Registry.run_dispose h (by omega)
  show b.onRegistry (Registry.dispose id) .disposed = _
  unfold onRegistry
  rw [hrun]

/-- Whatever can be swept can be swept on. -/
theorem Discards.isSweepable (h : b.Discards b') (hs : b.registry.IsSweepable) :
    b'.registry.IsSweepable := by
  obtain ⟨id, res, hres, hzero, rfl⟩ := h
  rw [step_dispose_of_uncounted hres hzero]
  exact hs.destroy hres hzero

/-- Less is live after each disposal. -/
theorem Discards.size_lt (h : b.Discards b') (hkeyed : b.registry.IsKeyed) :
    b'.registry.size < b.registry.size := by
  obtain ⟨id, root, hroot, hzero, rfl⟩ := h
  rw [step_dispose_of_uncounted hroot hzero,
    ← Registry.size_modifyResource b.registry id Resource.released]
  apply Registry.size_destroy_lt (hkeyed.modifyResource id Resource.released fun _ => rfl)
  rw [Registry.resource?_modifyResource, if_pos rfl, hroot]
  rfl

/-- Sweeping ends. -/
theorem acc_discards (hs : b.registry.IsSweepable) :
    Acc (fun later earlier => Discards earlier later) b := by
  induction hsize : b.registry.size using Nat.strongRecOn generalizing b with
  | _ size ih =>
    subst hsize
    exact ⟨b, fun b' h => ih _ (h.size_lt hs.wellFormed.isKeyed) (h.isSweepable hs) rfl⟩

/-- Sweeping goes on until nothing is left. -/
theorem discards_or_empty (hs : b.registry.IsSweepable)
    (h : Relation.ReflTransGen Discards b b') :
    b'.registry.IsSweepable ∧ (b'.registry.size = 0 ∨ ∃ later, b'.Discards later) := by
  have hs' : b'.registry.IsSweepable := by
    induction h with
    | refl => exact hs
    | tail _ hlast ih => exact hlast.isSweepable ih
  refine ⟨hs', or_iff_not_imp_left.mpr fun hsize => ?_⟩
  obtain ⟨x, res, hx⟩ := Registry.exists_of_size_ne_zero hsize
  obtain ⟨root, top, hroot, hzero⟩ := hs'.exists_uncounted hx
  exact ⟨_, root, top, hroot, hzero, rfl⟩

end Broadcast

/-- Whether the references of the host cover the books. -/
def HostCovers (r : Registry) (past : List Moment) : Prop :=
  ∃ outside, Hosted r past outside ∧ r.IsCovered outside

namespace HostCovers

variable {b : Broadcast} {past : List Moment} {action : Action} {id : ResourceId}

/-- The books stay covered by an action that fails and changes nothing. -/
theorem refused {e : ResourceError} (h : HostCovers b.registry past) (hw : b.registry.WellFormed)
    (hc : action.IsCompiled) (hl : b.registry.supply.Lasts)
    (hanswer : (b.step action).1 = .failed e) (hstep : (b.step action).2.registry = b.registry) :
    HostCovers (b.step action).2.registry (⟨b, action⟩ :: past) := by
  obtain ⟨outside, hhosted, hcovered⟩ := h
  exact ⟨outside, hhosted.other hw hc (hstep ▸ hl) (Moment.lent_of_failed hanswer),
    hstep ▸ hcovered⟩

/-- The books stay covered when the host takes a reference, or fails to. -/
theorem retain (h : HostCovers b.registry past) (hw : b.registry.WellFormed)
    (hl : b.registry.supply.Lasts) :
    HostCovers (b.step (.retain id)).2.registry (⟨b, .retain id⟩ :: past) := by
  rcases (Broadcast.onRegistry_ends (Registry.ends_retain id b.registry) .counted).1 with
    ⟨count, hanswer, res, hres, -, hafter⟩ | ⟨e, hanswer, -, -, hafter⟩
  · have hstep : (b.step (.retain id)).2.registry =
        b.registry.modifyResource id Resource.retained := hafter
    have hl' : (b.step (.retain id)).2.registry.supply.Lasts := by
      rw [hstep]
      simpa using hl
    obtain ⟨outside, hhosted, hcovered⟩ := h
    have hedit : Edit True 0 ⟨b.registry, outside, 0⟩
        ⟨(b.step (.retain id)).2.registry, id ::ₘ outside, id ::ₘ 0⟩ := hstep ▸ .retain hres
    exact ⟨_, hhosted.retain hw hl' hres hanswer, hedit.isCovered hw hl' hcovered⟩
  · exact h.refused hw trivial hl hanswer hafter

/-- The books stay covered when the host gives a reference back or disposes of what no instance
holds, or fails to. -/
theorem dispose (h : HostCovers b.registry past) (hw : b.registry.WellFormed)
    (hl : b.registry.supply.Lasts) (hd : 0 < external past id ∨ b.registry.retainers id = []) :
    HostCovers (b.step (.dispose id)).2.registry (⟨b, .dispose id⟩ :: past) := by
  obtain ⟨outside, hhosted, hcovered⟩ := h
  have hfree : ∀ res, b.registry.resource? id = some res → id ∈ outside ∨ res.refCount = 0 := by
    intro res hres
    by_contra hnot
    rw [not_or] at hnot
    have hhost := hhosted.host hres
    rw [Multiset.count_eq_zero_of_notMem hnot.1] at hhost
    obtain ⟨holder, found, hholder, hheld⟩ := hcovered.exists_holder hres hnot.2 hnot.1
    have hcount := Registry.length_retainers b.registry id
    rw [hd.resolve_left (by omega), eq_comm, List.length_nil, Multiset.count_eq_zero] at hcount
    exact hcount (Resources.mem_gather.mpr ⟨holder, found, hholder, hheld⟩)
  rcases (Broadcast.onRegistry_ends (hcovered.ends_dispose hw hl hfree) .disposed).1 with
    ⟨gone, hanswer, ⟨res, hres⟩, hl', hafter, ⟨rfl, hmem⟩ | ⟨rfl, hgone⟩⟩ | ⟨e, hanswer, hafter⟩
  · exact ⟨_, hhosted.released hw hl' hres hmem hanswer, hafter⟩
  · exact ⟨_, hhosted.disposed hw hl' hanswer hgone, hafter⟩
  · exact refused ⟨outside, hhosted, hcovered⟩ hw trivial hl hanswer hafter

/-- The books stay covered by every other action. -/
theorem other (h : HostCovers b.registry past) (hw : b.registry.WellFormed)
    (hc : action.IsCompiled) (hl : (b.step action).2.registry.supply.Lasts)
    (hretain : ∀ id, action ≠ .retain id) (hdispose : ∀ id, action ≠ .dispose id) :
    HostCovers (b.step action).2.registry (⟨b, action⟩ :: past) := by
  obtain ⟨outside, hhosted, hcovered⟩ := h
  refine ⟨outside, hhosted.other hw hc hl (Moment.lent_of_other hretain hdispose), ?_⟩
  cases hinternal : action.isInternal with
  | true =>
    exact hcovered.of_keepsOutside hw hl
      (Broadcast.keepsOutside_step hinternal hc hw hl hretain hdispose)
  | false => exact hcovered.of_body (Broadcast.sameBodies_step hinternal).resources

end HostCovers

namespace Run

variable {config : Config} {supply : Supply} {past : List Moment} {b : Broadcast}

/-- Whatever was done, the references of the host cover the books. Counts may have stopped at their
limit. -/
theorem hostCovers (h : Run (.opened config supply) past b)
    (hc : ∀ m ∈ past, m.action.IsCompiled) (hl : b.registry.supply.Lasts)
    (hd : Disciplined past) : HostCovers b.registry past := by
  refine h.keeps (P := fun past b => Disciplined past → HostCovers b.registry past) hc hl ?_ ?_ hd
  · refine fun _ => ⟨0, .opened config supply, fun x res hx => ?_⟩
    rw [Broadcast.resource?_opened] at hx
    cases hx
  · intro past b action h hrest hone hlasts hl ih hd
    have hw := h.wellFormed hrest hlasts
    have hcovers := ih hd.2
    by_cases hretain : ∃ id, action = .retain id
    · obtain ⟨id, rfl⟩ := hretain
      exact hcovers.retain hw hlasts
    by_cases hdispose : ∃ id, action = .dispose id
    · obtain ⟨id, rfl⟩ := hdispose
      exact hcovers.dispose hw hlasts hd.1
    · exact hcovers.other hw hone hl (fun id heq => hretain ⟨id, heq⟩)
        fun id heq => hdispose ⟨id, heq⟩

/-- No garbage is out of reach. While no chain of slots leads back to where it began, every live
resource is reached from one that has no reference or that the host has a reference on. So when the
host has no reference left on what is live, it can dispose of what has no reference: every such
disposal removes something, they come to an end, and at the end nothing is live. This holds while fewer
than `2 ^ 32 - 1` numbers have been given out. -/
theorem leaves_no_garbage (h : Run (.opened config supply) past b)
    (hc : ∀ m ∈ past, m.action.IsCompiled) (hl : b.registry.supply.Lasts)
    (hd : Disciplined past) (ha : b.registry.IsAcyclic) :
    (∀ x res, b.registry.resource? x = some res →
        ∃ root top, b.registry.resource? root = some top ∧
          (top.refCount = 0 ∨ 0 < external past root) ∧
            Relation.ReflTransGen b.registry.Holds root x) ∧
      ((∀ x res, b.registry.resource? x = some res → external past x ≤ 0) →
        Acc (fun later earlier => Broadcast.Discards earlier later) b ∧
          ∀ b', Relation.ReflTransGen Broadcast.Discards b b' →
            (∀ id res, b'.registry.resource? id = some res → res.refCount = 0 →
                (b'.step (.dispose id)).1 = .disposed true) ∧
              (b'.registry.size = 0 ∨ ∃ later, b'.Discards later)) := by
  obtain ⟨outside, hhosted, hcovered⟩ := h.hostCovers hc hl hd
  refine ⟨fun x res hx => ?_, fun hnone => ?_⟩
  · obtain ⟨root, top, htop, hout, hpath⟩ := hcovered.reached ha hx
    refine ⟨root, top, htop, hout.imp_right fun hmem => ?_, hpath⟩
    rw [← hhosted.host htop]
    exact Int.natCast_pos.mpr (Multiset.count_pos.mpr hmem)
  · have hloose : b.registry.IsCovered 0 := by
      intro x res hx
      have hhost := hhosted.host hx
      have hless := hnone x res hx
      have hcount : outside.count x = 0 := by omega
      have hcovers := hcovered x res hx
      rwa [Multiset.count_add, hcount, ← Multiset.count_zero x, ← Multiset.count_add] at hcovers
    have hs : b.registry.IsSweepable := ⟨h.wellFormed hc hl, hl, hloose, ha⟩
    refine ⟨Broadcast.acc_discards hs, fun b' hsweep => ⟨fun id res hres hzero => ?_, ?_⟩⟩
    · rw [Broadcast.step_dispose_of_uncounted hres hzero]
    · exact (Broadcast.discards_or_empty hs hsweep).2

end Run

namespace Samples

/-- A node that refers to another of the same name. The host has given back what it took. -/
def chain : List Moment × Broadcast :=
  (Broadcast.opened ⟨.game, 4⟩ ⟨0, .initial⟩).play
    [.createInstance ⟨0, node⟩ [("name", .text "a")] {},
      .createInstance ⟨0, node⟩ [("name", .text "a"), ("next", .ref (some 1))] {},
      .retain 1,
      .dispose 1]

theorem isCompiled_chain : ∀ m ∈ chain.1, m.action.IsCompiled :=
  Broadcast.isCompiled_play _ (by simp [Action.IsCompiled, isCompiled_node])

/-- The text is reached from the node that nothing holds, and goes with it. -/
theorem leaves_no_garbage_chain :
    chain.2.registry.IsAcyclic ∧ (∀ res ∈ chain.2.registry.live, external chain.1 res.id ≤ 0) ∧
      (∃ root top, chain.2.registry.resource? root = some top ∧
        (top.refCount = 0 ∨ 0 < external chain.1 root) ∧
          Relation.ReflTransGen chain.2.registry.Holds root 2) ∧
      Acc (fun later earlier => Broadcast.Discards earlier later) chain.2 ∧
      (chain.2.registry.live.map fun res => (res.id, res.refCount)) = [(1, 1), (2, 2), (3, 0)] ∧
      (chain.2.step (.dispose 3)).2.registry.size = 0 := by
  have hrun : Run (.opened ⟨.game, 4⟩ ⟨0, .initial⟩) chain.1 chain.2 := .play _ _
  have hlasts : chain.2.registry.supply.Lasts := by decide +kernel
  have hkeyed := (hrun.wellFormed isCompiled_chain hlasts).isKeyed
  have hacyclic : chain.2.registry.IsAcyclic :=
    Registry.isAcyclic_of_rank hkeyed (fun x => if x = 2 then 0 else x.toNat) (by decide +kernel)
  have hnone : ∀ res ∈ chain.2.registry.live, external chain.1 res.id ≤ 0 := by decide +kernel
  obtain ⟨hreached, hsweep⟩ := Run.leaves_no_garbage hrun isCompiled_chain hlasts
    (by decide +kernel) hacyclic
  have hlive : ∃ res, chain.2.registry.resource? 2 = some res :=
    Option.isSome_iff_exists.mp (by decide +kernel)
  obtain ⟨text, htext⟩ := hlive
  refine ⟨hacyclic, hnone, hreached 2 text htext, (hsweep fun x res hx => ?_).1, by decide +kernel,
    by decide +kernel⟩
  rw [← hkeyed x res hx]
  exact hnone res (Registry.mem_live.mpr ⟨x, hx⟩)

/-- A node that has a name, and one that has none and the number of the first. Between their creations
all other numbers were drawn elsewhere. -/
def strayText : List Moment × Broadcast :=
  (Broadcast.opened ⟨.game, 4⟩ ⟨0, .initial⟩).play
    [.createInstance ⟨0, node⟩ [("name", .text "a")] {},
      .elsewhere (2 ^ 32 - 2) .initial,
      .createInstance ⟨0, node⟩ [] {}]

theorem isCompiled_strayText : ∀ m ∈ strayText.1, m.action.IsCompiled :=
  Broadcast.isCompiled_play _ (by simp [Action.IsCompiled, isCompiled_node])

/-- Where the numbers have come around, the first node is replaced without being disposed of. Its name
is still counted once, although nothing holds it any more, so it is out of reach. -/
theorem unreached_strayText :
    Run (.opened ⟨.game, 4⟩ ⟨0, .initial⟩) strayText.1 strayText.2 ∧
      (∀ m ∈ strayText.1, m.action.IsCompiled) ∧ Disciplined strayText.1 ∧
      strayText.2.registry.IsAcyclic ∧ (∀ id, external strayText.1 id = 0) ∧
      (∃ res, strayText.2.registry.resource? 2 = some res ∧ res.refCount = 1) ∧
      ¬∃ root top, strayText.2.registry.resource? root = some top ∧
        (top.refCount = 0 ∨ 0 < external strayText.1 root) ∧
          Relation.ReflTransGen strayText.2.registry.Holds root 2 := by
  have hblank : ∀ res ∈ strayText.2.registry.live, res.storage.heldRefs = [] := by decide +kernel
  have hholds (x y : ResourceId) : ¬strayText.2.registry.Holds x y := by
    rintro ⟨res, hres, slot, hslot, -⟩
    rw [hblank res (Registry.mem_live.mpr ⟨x, hres⟩)] at hslot
    cases hslot
  have hacyclic : strayText.2.registry.IsAcyclic := by
    intro x hback
    cases hback with
    | single hstep => exact hholds _ _ hstep
    | tail _ hstep => exact hholds _ _ hstep
  have htext : (strayText.2.registry.resource? 2).map Resource.refCount = some 1 := by decide +kernel
  obtain ⟨res, hres, hcount⟩ := Option.map_eq_some_iff.mp htext
  have hexternal (id : ResourceId) : external strayText.1 id = 0 := rfl
  refine ⟨.play _ _, isCompiled_strayText, by decide +kernel, hacyclic, hexternal,
    ⟨res, hres, hcount⟩, ?_⟩
  rintro ⟨root, top, htop, hout, hpath⟩
  rcases Relation.ReflTransGen.cases_tail hpath with rfl | ⟨_, -, hstep⟩
  · obtain rfl := Option.some.inj (hres.symm.trans htop)
    rw [hcount, hexternal] at hout
    omega
  · exact hholds _ _ hstep

end Samples

end Framecast
