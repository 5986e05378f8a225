import Framecast.Proofs.Fields.Resolving
import Framecast.Proofs.Registry.Retaining
import Framecast.Proofs.Run.Plans
import Framecast.Proofs.Run.Shifting

/-!
# The retainers of every run

All live instances are of compiled layouts, whose properties have different names, and
they are under the numbers that they carry. This is so even when numbers are given out
again, so what keeps a resource alive can be asked for in every state that a run comes to.
-/

namespace Framecast

namespace Run

variable {config : Config} {supply : Supply} {past : List Moment} {b : Broadcast}

/-- In every run, the layouts of live instances were asked for, and so they are compiled. -/
theorem layouts_compiled (h : Run (.opened config supply) past b)
    (hc : ∀ m ∈ past, m.action.IsCompiled) {x : ResourceId} {res : Resource} {schema : Schema}
    {bytes : Bytes} (hres : b.registry.resource? x = some res)
    (hstorage : res.storage = .fields schema bytes) : schema.layout.IsCompiled := by
  obtain ⟨-, ⟨m, hm, hasked⟩, -⟩ := h.isKnown hc x res hres schema (Resource.frame_mould hstorage)
  obtain ⟨props, options, haction⟩ := Action.eq_of_schema? hasked
  have hcompiled := hc m hm
  rwa [haction] at hcompiled

/-- In every run, the retainers of a number that is not zero, whether it is live or not, are the
slots of live instances that store it, each of them once and in order. -/
theorem lists_retainers (h : Run (.opened config supply) past b)
    (hc : ∀ m ∈ past, m.action.IsCompiled) {id : ResourceId} (hid : id ≠ 0) :
    b.registry.ListsRetainers id :=
  Registry.listsRetainers h.isKeyed
    (fun _ _ _ _ hres hstorage => (h.layouts_compiled hc hres hstorage).isSound.names) hid

end Run

namespace Samples

/-- What is declared of a card: a title, and a page that it belongs to and does not keep alive. -/
def cardDeclared : List Declaration :=
  [.ofKind "title" .string, { Declaration.reference "page" "page" with backRef := true }]

/-- The layout of a card. -/
def card : Layout := ⟨"card", cardDeclared.zipWith Declaration.place [0, 4], 8⟩

theorem isCompiled_card : card.IsCompiled :=
  ⟨"card", cardDeclared, by decide, by decide +kernel⟩

/-- A page, a second page that is on the first and links to it twice, and a card of the first page
that has the title of the second. -/
def library : List Moment × Broadcast :=
  (Broadcast.opened ⟨.game, 8⟩ ⟨0, .initial⟩).play
    [.createInstance ⟨0, page⟩ [] {},
      .createInstance ⟨0, page⟩ [("title", .text "a"), ("parent", .ref (some 1)),
        ("links", .refs [some 1, none, some 1]), ("body", .buffer (.frozen 1 [7, 8]))] {},
      .createInstance ⟨1, card⟩ [("title", .text "a"), ("page", .ref (some 1))] {}]

theorem isCompiled_library : ∀ m ∈ library.1, m.action.IsCompiled :=
  Broadcast.isCompiled_play _ (by simp [Action.IsCompiled, isCompiled_page, isCompiled_card])

/-- What gathers the retainers of a number finds them, up to their order. -/
theorem perm_retainers_library :
    (library.2.registry.retainers 1).Perm
      [⟨3, "page", "links", 0⟩, ⟨3, "page", "links", 2⟩, ⟨3, "page", "parent", 0⟩] := by
  refine Multiset.coe_eq_coe.mp ?_
  rw [Registry.coe_retainers]
  decide +kernel

/-- The first page is kept alive by both links and by being the parent of the second, which are
listed in order; the card refers to it backwards and is not listed. -/
theorem lists_retainers_library :
    library.2.registry.ListsRetainers 1 ∧
      library.2.registry.retainers 1 =
        [⟨3, "page", "links", 0⟩, ⟨3, "page", "links", 2⟩, ⟨3, "page", "parent", 0⟩] := by
  have hlists : library.2.registry.ListsRetainers 1 :=
    Run.lists_retainers (.play _ _) isCompiled_library (by decide)
  refine ⟨hlists, ?_⟩
  have hsorted : List.Pairwise Retainer.Before
      [⟨3, "page", "links", 0⟩, ⟨3, "page", "links", 2⟩, ⟨3, "page", "parent", 0⟩] := by
    decide +kernel
  exact perm_retainers_library.eq_of_pairwise (fun _ _ _ _ h h' => (h.asymm h').elim)
    hlists.increasing hsorted

end Samples

end Framecast
