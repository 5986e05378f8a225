import Framecast.Proofs.Feed.Intents
import Framecast.Proofs.Ring.Queue
import Framecast.Registry.Frame

/-!
# What a flush delivers

A link whose consumer is there is flushed as a whole or not at all: if the ring has
room for the outbox, all of its records go behind those in the ring and all of its
envelopes behind those on their way, and the outbox is empty afterwards.
-/

namespace Framecast

/-- A wire on which records and envelopes wait, with a consumer at its end. -/
structure Wire.Carries (wire : Wire) (underway : List Outgoing) : Prop where
  /-- The consumer is there. -/
  receiving : wire.receiving = true
  /-- The ring holds the records. -/
  ring : wire.ring.Holds (underway.map Outgoing.record)
  /-- The envelopes wait in the same order. -/
  envelopes : wire.envelopes.toList = underway.filterMap Outgoing.envelope?

/-- A new wire carries nothing. -/
theorem Wire.carries_create {capacity : Nat} {wire : Wire} (h : Wire.create capacity = .ok wire) :
    wire.Carries [] := by
  unfold create at h
  cases hring : RecordRing.create capacity with
  | error e =>
    rw [hring] at h
    cases h
  | ok ring =>
    rw [hring] at h
    cases h
    exact ⟨rfl, RecordRing.holds_create hring, rfl⟩

/-- A new wire has no snapshots. -/
theorem Wire.frames_create {capacity : Nat} {wire : Wire} (h : Wire.create capacity = .ok wire) :
    wire.frames = .initial := by
  unfold create at h
  cases hring : RecordRing.create capacity with
  | error e =>
    rw [hring] at h
    cases h
  | ok ring =>
    rw [hring] at h
    cases h
    rfl

namespace Wire

variable {wire : Wire} {underway : List Outgoing}

/-- What can be put on a wire goes ahead of the rest. -/
theorem deliverAll_cons_of_ok {thread : Thread} {d : Delivery} {after : Wire}
    (h : wire.deliver thread d = .ok after) (rest : List Delivery) :
    wire.deliverAll thread (d :: rest) = after.deliverAll thread rest := by
  conv_lhs => unfold deliverAll
  rw [h]

/-- The wire with some intents put on it: their envelopes go behind those under way, and the ring is
another. -/
def loaded (wire : Wire) (ring : RecordRing) (intents : List Outgoing) : Wire :=
  { wire with ring, envelopes := wire.envelopes ++ (intents.filterMap Outgoing.envelope?).toArray }

@[simp] theorem loaded_loaded (wire : Wire) (ring ring' : RecordRing) (front back : List Outgoing) :
    (wire.loaded ring front).loaded ring' back = wire.loaded ring' (front ++ back) := by
  unfold loaded
  simp

variable {queue : List Record} {intents : List Outgoing}

/-- One intent is put on a wire if the ring has room for its record, and its consumer is there for its
envelope. -/
theorem deliver_intent (hring : wire.ring.Holds queue)
    (hroom : queue.length < wire.ring.capacity.toNat) (thread : Thread) (o : Outgoing)
    (hreach : wire.receiving = true ∨ o.envelope? = none) :
    ∃ ring : RecordRing, ring.Holds (queue ++ [o.record]) ∧ ring.capacity = wire.ring.capacity ∧
      ∀ rest, wire.deliverAll thread (o.deliveries ++ rest) =
        (wire.loaded ring [o]).deliverAll thread rest := by
  obtain ⟨ring, hpush, hholds, hcapacity⟩ := hring.push hroom o.record
  refine ⟨ring, hholds, hcapacity, fun rest => ?_⟩
  cases o with
  | create e tick =>
    have hreceiving : wire.receiving = true := hreach.resolve_right fun h => by cases h
    have henvelope : wire.deliver thread (.envelope e) =
        .ok { wire with envelopes := wire.envelopes.push e } := if_pos hreceiving
    have hrecord : ({ wire with envelopes := wire.envelopes.push e } : Wire).deliver thread
        (.record (Outgoing.create e tick).record) = .ok (wire.loaded ring [.create e tick]) := by
      unfold deliver loaded
      simp [hpush, Outgoing.envelope?]
    exact (deliverAll_cons_of_ok henvelope _).trans (deliverAll_cons_of_ok hrecord rest)
  | dispose id tick =>
    have hrecord : wire.deliver thread (.record (Outgoing.dispose id tick).record) =
        .ok (wire.loaded ring [.dispose id tick]) := by
      unfold deliver loaded
      simp [hpush, Outgoing.envelope?]
    exact deliverAll_cons_of_ok hrecord rest

/-- Intents are put on a wire that has room for all of them, if the consumer is there or none of them
has an envelope. -/
theorem deliverAll_of_room (hring : wire.ring.Holds queue) (thread : Thread)
    (hroom : queue.length + intents.length ≤ wire.ring.capacity.toNat)
    (hreach : wire.receiving = true ∨ intents.filterMap Outgoing.envelope? = []) :
    ∃ ring : RecordRing, ring.Holds (queue ++ intents.map Outgoing.record) ∧
      ring.capacity = wire.ring.capacity ∧
      wire.deliverAll thread (intents.flatMap Outgoing.deliveries) =
        (wire.loaded ring intents, none) := by
  induction intents generalizing wire queue with
  | nil =>
    refine ⟨wire.ring, by simpa using hring, rfl, ?_⟩
    unfold loaded
    simp [deliverAll]
  | cons o rest ih =>
    rw [List.length_cons] at hroom
    have hfirst : wire.receiving = true ∨ o.envelope? = none :=
      hreach.imp_right fun h => List.filterMap_eq_nil_iff.mp h o List.mem_cons_self
    obtain ⟨ring, hholds, hcapacity, hone⟩ := deliver_intent hring (by omega) thread o hfirst
    have hleft : (queue ++ [o.record]).length + rest.length ≤ ring.capacity.toNat := by
      rw [List.length_append, List.length_singleton, hcapacity]
      omega
    have hloaded : (wire.loaded ring [o]).ring.Holds (queue ++ [o.record]) := hholds
    obtain ⟨ring', hholds', hcapacity', hrest⟩ := ih hloaded hleft
      (hreach.imp_right fun h => List.filterMap_eq_nil_iff.mpr fun x hx =>
        List.filterMap_eq_nil_iff.mp h x (List.mem_cons_of_mem o hx))
    refine ⟨ring', by simpa using hholds', hcapacity'.trans hcapacity, ?_⟩
    rw [List.flatMap_cons, hone, hrest, loaded_loaded]
    rfl

/-- Without a consumer, the first envelope is where the putting ends. -/
theorem deliverAll_of_hungUp (hring : wire.ring.Holds queue) (thread : Thread)
    (hroom : queue.length + intents.length ≤ wire.ring.capacity.toNat)
    (hgone : wire.receiving = false) (hcreate : intents.filterMap Outgoing.envelope? ≠ []) :
    (wire.deliverAll thread (intents.flatMap Outgoing.deliveries)).2 =
      some (.disconnected thread) := by
  induction intents generalizing wire queue with
  | nil => exact absurd rfl hcreate
  | cons o rest ih =>
    rw [List.length_cons] at hroom
    cases o with
    | create e tick =>
      have henvelope : wire.deliver thread (.envelope e) = .error (.disconnected thread) :=
        if_neg (by simp [hgone])
      have hhead : ((Outgoing.create e tick) :: rest).flatMap Outgoing.deliveries =
          .envelope e :: .record (Outgoing.create e tick).record ::
            rest.flatMap Outgoing.deliveries := rfl
      rw [hhead]
      unfold deliverAll
      rw [henvelope]
    | dispose id tick =>
      obtain ⟨ring, hholds, hcapacity, hone⟩ :=
        deliver_intent hring (by omega) thread (.dispose id tick) (.inr rfl)
      have hloaded : (wire.loaded ring [.dispose id tick]).ring.Holds
          (queue ++ [(Outgoing.dispose id tick).record]) := hholds
      have hleft : (queue ++ [(Outgoing.dispose id tick).record]).length + rest.length ≤
          ring.capacity.toNat := by
        rw [List.length_append, List.length_singleton, hcapacity]
        omega
      rw [List.flatMap_cons, hone]
      exact ih hloaded hleft hgone hcreate

/-- Intents are put on a wire that carries others and has room for all of them. -/
theorem Carries.deliverAll (h : wire.Carries underway) (thread : Thread)
    (hroom : intents.length ≤ wire.ring.free) :
    ∃ after, wire.deliverAll thread (intents.flatMap Outgoing.deliveries) = (after, none) ∧
      after.Carries (underway ++ intents) ∧ after.frames = wire.frames ∧ after.acks = wire.acks := by
  have hfits := h.ring.fits
  rw [h.ring.free] at hroom
  have hall : (underway.map Outgoing.record).length + intents.length ≤
      wire.ring.capacity.toNat := by omega
  obtain ⟨ring, hholds, -, hdelivered⟩ :=
    deliverAll_of_room h.ring thread hall (.inl h.receiving)
  refine ⟨wire.loaded ring intents, hdelivered, ⟨h.receiving, ?_, ?_⟩, rfl, rfl⟩
  · rw [List.map_append]
    exact hholds
  · unfold loaded
    simp [h.envelopes]

end Wire

namespace Registry

/-- What a flush makes of one link: nothing, or its outbox is sent as a whole. -/
inductive Flushed (link : Link) (underway : List Outgoing) : Link → Prop
  /-- Nothing is sent. -/
  | kept : Flushed link underway link
  /-- Everything is sent. -/
  | sent {wire : Wire} (hcarries : wire.Carries (underway ++ link.outbox.toList))
    (hframes : wire.frames = link.wire.frames) (hacks : wire.acks = link.wire.acks) :
    Flushed link underway { link with outbox := #[], wire }

/-- A link is flushed as a whole or not at all. -/
theorem flushed_flushLink {link : Link} {underway : List Outgoing}
    (h : link.wire.Carries underway) :
    Flushed link underway (flushLink link).1 ∧
      ((flushLink link).2 = none → (flushLink link).1.outbox = #[]) := by
  unfold flushLink
  split
  · exact ⟨.kept, fun hnone => by cases hnone⟩
  · rename_i hroom
    have hfits : link.outbox.toList.length ≤ link.wire.ring.free := by
      rw [Array.length_toList]
      omega
    obtain ⟨wire, hdelivered, hcarries, hframes, hacks⟩ := h.deliverAll link.thread hfits
    rw [hdelivered]
    exact ⟨.sent hcarries hframes hacks, fun _ => rfl⟩

/-- A flush of several links flushes each of them or leaves it alone. -/
theorem getElem?_flushLinks {links : List Link} {k : Nat} {link : Link} (h : links[k]? = some link) :
    ∃ link', (flushLinks links).1[k]? = some link' ∧
      (link' = link ∧ ((flushLinks links).2 = none → link.outbox = #[]) ∨
        link' = (flushLink link).1 ∧ ((flushLinks links).2 = none → (flushLink link).2 = none)) := by
  induction links generalizing k with
  | nil => simp at h
  | cons first rest ih =>
    unfold flushLinks
    cases k with
    | zero =>
      cases h
      split
      · rename_i hempty
        refine ⟨link, rfl, .inl ⟨rfl, fun _ => ?_⟩⟩
        simpa using hempty
      · split
        · rename_i link' e hflush
          refine ⟨link', rfl, .inr ⟨by rw [hflush], fun hnone => by cases hnone⟩⟩
        · rename_i link' hflush
          exact ⟨link', rfl, .inr ⟨by rw [hflush], fun _ => by rw [hflush]⟩⟩
    | succ k =>
      rw [List.getElem?_cons_succ] at h
      obtain ⟨link', hlink', hcases⟩ := ih h
      split
      · exact ⟨link', hlink', hcases⟩
      · split
        · exact ⟨link, h, .inl ⟨rfl, fun hnone => by cases hnone⟩⟩
        · exact ⟨link', hlink', hcases⟩

/-- A flush keeps all links. -/
@[simp] theorem length_flushLinks (links : List Link) :
    (flushLinks links).1.length = links.length := by
  induction links with
  | nil => rfl
  | cons first rest ih =>
    unfold flushLinks
    split
    · simpa using ih
    · split
      · rfl
      · simpa using ih

end Registry

end Framecast
