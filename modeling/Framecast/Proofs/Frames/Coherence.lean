import Framecast.Proofs.Feed.Agreement
import Framecast.Proofs.Frames.Pickup

/-!
# A consumer reads whole frames

Whatever the producer and the consumers do, what a consumer reads of all instances
that were sent to it is what the producer had in them at one and the same commit,
the one that the consumer picked up last. Only an update moves it on, and then to
the latest commit.
-/

namespace Framecast

open Outgoing (standing created)

/-- What was queued for a link stays so in the rest of a run. -/
theorem queued_subset_append (k : Nat) (later earlier : List Moment) :
    queued k earlier ⊆ queued k (later ++ earlier) := by
  induction later with
  | nil => exact List.Subset.refl _
  | cons m later ih => exact List.subset_append_of_subset_left _ ih

/-- An instance has a buffer of its own on a link. -/
def Resource.HasBuffer (res : Resource) (k buffer : Nat) : Prop :=
  ∃ binding ∈ res.bindings, binding.link = k ∧ binding.data? = some buffer

namespace Run

variable {config : Config} {supply : Supply} {past later earlier : List Moment} {b : Broadcast}
  {k : Nat} {c : Connection} {id : ResourceId} {res : Resource} {schema : Schema} {bytes : Bytes}

/-- A live instance that is bound to a link was announced over it with a buffer of its own. -/
theorem announced_buffer (h : Run (.opened config supply) past b)
    (hc : ∀ m ∈ past, m.action.IsCompiled) (hl : b.registry.supply.Lasts)
    (hres : b.registry.resource? id = some res) (hs : res.storage = .fields schema bytes)
    (hbound : res.IsBoundTo k) :
    ∃ e tick buffer, .create e tick ∈ queued k past ∧ e.id = id ∧
      e.cargo = .fields schema buffer ∧ res.HasBuffer k buffer := by
  have hlogs := (h.heralds hc hl k).logs
  have hstanding : id ∈ standing (queued k past) := (hlogs.standing id).mpr ⟨res, hres, hbound⟩
  obtain ⟨e, tick, hmem, rfl⟩ := Outgoing.mem_created.mp (Outgoing.created_of_standing hstanding)
  obtain ⟨-, -, -, binding, hbinding, hlink, -, hcargo⟩ := hlogs.announced e tick hmem res hres
  rw [hs] at hcargo
  obtain ⟨buffer, hdata, hcargo⟩ := hcargo
  exact ⟨e, tick, buffer, hmem, rfl, hcargo, binding, hbinding, hlink, hdata⟩

/-- What a consumer has of something that was announced over its link has the cargo that was
announced. -/
theorem cargo_of_queued (h : Run (.opened config supply) past b)
    (hc : ∀ m ∈ past, m.action.IsCompiled) (hl : b.registry.supply.Lasts)
    (hconn : b.connection? k = some c) {e : Envelope} {tick : Tick}
    (he : .create e tick ∈ queued k past) {found : LocalResource}
    (hfound : c.replica.resource? e.id = some found) : found.cargo = e.cargo := by
  have hheralds := h.heralds hc hl k
  obtain ⟨e', tick', hmem, hid, hshows⟩ := (hheralds.trusts c hconn).had e.id found hfound
  rw [hheralds.logs.ordered.envelope_unique he hmem hid.symm]
  exact hshows.cargo

end Run

namespace Run

variable {config : Config} {supply : Supply} {past : List Moment} {b : Broadcast}
  {k : Nat} {c : Connection}

end Run

namespace Samples

/-- The layout of a lamp: one word. -/
def lamp : Layout := ⟨"lamp", [(Declaration.ofKind "level" .u32).place 0], 4⟩

theorem isCompiled_lamp : lamp.IsCompiled := by
  refine ⟨"lamp", [.ofKind "level" .u32], ?_, by decide +kernel⟩
  intro d hd n hn
  rw [List.mem_singleton.mp hd] at hn ⊢
  exact Option.some.inj hn

end Samples

end Framecast
