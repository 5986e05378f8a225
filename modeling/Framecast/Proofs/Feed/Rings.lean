import Framecast.Proofs.Feed.Relay
import Framecast.Proofs.Ring.Bounded
import Framecast.Proofs.Run.Settings

/-!
# The rings of a producer

In every state every ring of a producer is a queue for as many records as the settings
ask for, rounded up to a power of two. This does not depend on whether the consumer is
still there: pushes that fail leave a ring as it was, and an update takes off all that
is in it, however it ends.
-/

namespace Framecast

namespace RecordRing

/-- A ring that holds some records and has room for so many. -/
structure IsQueueOf (ring : RecordRing) (capacity : Nat) : Prop where
  /-- It holds some records. -/
  holds : ∃ records, ring.Holds records
  /-- It has so much room. -/
  capacity : ring.capacity.toNat = capacity

variable {ring after : RecordRing} {capacity requested : Nat}

/-- A new ring has the room that was asked for, rounded up. -/
theorem isQueueOf_create (h : create requested = .ok ring) :
    ring.IsQueueOf (roundedCapacity requested) := by
  have hrange : ¬(requested = 0 ∨ 2 ^ 31 < requested) := by
    intro hout
    rw [create_of_out_of_range hout] at h
    cases h
  have hpos : 0 < requested := by omega
  have hmax : requested ≤ 2 ^ 31 := by omega
  obtain ⟨ring', hcreate, hholds, hcapacity⟩ := create_of_in_range hpos hmax
  rw [h] at hcreate
  cases hcreate
  exact ⟨⟨[], hholds⟩, hcapacity⟩

/-- Pushing keeps the room. -/
theorem IsQueueOf.push (h : ring.IsQueueOf capacity) {record : Record}
    (hpush : ring.push record = .ok after) : after.IsQueueOf capacity := by
  obtain ⟨records, hholds⟩ := h.holds
  by_cases hfull : records.length = ring.capacity.toNat
  · rw [hholds.push_full hfull record] at hpush
    cases hpush
  · have hroom : records.length < ring.capacity.toNat :=
      Nat.lt_of_le_of_ne hholds.fits hfull
    obtain ⟨pushed, hok, hpushed, hcapacity⟩ := hholds.push hroom record
    rw [hpush] at hok
    cases hok
    exact ⟨⟨_, hpushed⟩, by rw [hcapacity, h.capacity]⟩

/-- A drain keeps the room and leaves nothing in the ring. -/
theorem IsQueueOf.drain (h : ring.IsQueueOf capacity) (gate : TickGate) (tick : Tick) :
    (gate.drain ring tick).ring.IsQueueOf capacity ∧ (gate.drain ring tick).ring.length = 0 := by
  obtain ⟨records, hholds⟩ := h.holds
  obtain ⟨drained, hdrained, heq⟩ :
      ∃ drained : RecordRing, drained.Holds [] ∧ gate.drain ring tick = _ :=
    TickGate.drain_eq hholds tick
  have hring : (gate.drain ring tick).ring = drained := by rw [heq]
  refine ⟨⟨⟨[], hring ▸ hdrained⟩, ?_⟩, hring ▸ hdrained.length⟩
  exact (congrArg UInt32.toNat ring.capacity_popAll).trans h.capacity

end RecordRing

/-- Whatever is put on a wire, its ring keeps its room. -/
theorem Wire.isQueueOf_deliverAll {wire : Wire} {capacity : Nat}
    (h : wire.ring.IsQueueOf capacity) (thread : Thread) (ds : List Delivery) :
    (wire.deliverAll thread ds).1.ring.IsQueueOf capacity := by
  induction ds generalizing wire with
  | nil => exact h
  | cons d rest ih =>
    unfold deliverAll
    split
    · rename_i after hd
      apply ih
      unfold deliver at hd
      cases d with
      | envelope e =>
        dsimp only at hd
        split at hd
        · cases hd
          exact h
        · cases hd
      | record record =>
        dsimp only at hd
        split at hd
        · rename_i ring hpush
          cases hd
          exact h.push hpush
        · cases hd
    · exact h

namespace Registry

/-- Whether all rings of a registry are queues for so many records. -/
def HasRingsOf (r : Registry) (capacity : Nat) : Prop :=
  ∀ link ∈ r.links, link.wire.ring.IsQueueOf capacity

variable {r after : Registry} {capacity : Nat}

/-- Where the same goes over the wires, the rings have the same room. -/
theorem HasRingsOf.of_transits (h : r.HasRingsOf capacity)
    (htransits : after.links.map (·.wire.transit) = r.links.map (·.wire.transit)) :
    after.HasRingsOf capacity := by
  intro link' hlink'
  have hmem : link'.wire.transit ∈ r.links.map (·.wire.transit) :=
    htransits ▸ List.mem_map_of_mem hlink'
  obtain ⟨link, hlink, heq⟩ := List.mem_map.mp hmem
  have hring : link.wire.transit.ring = link'.wire.transit.ring := congrArg Wire.ring heq
  have hsame : link.wire.ring = link'.wire.ring := hring
  exact hsame ▸ h link hlink

/-- Links on the same course have rings of the same room. -/
theorem HasRingsOf.of_courses (h : r.HasRingsOf capacity)
    (hcourses : after.links.map Link.course = r.links.map Link.course) :
    after.HasRingsOf capacity := by
  apply h.of_transits
  have hwires := congrArg (List.map (·.wire)) hcourses
  rw [List.map_map, List.map_map] at hwires
  exact hwires

/-- One link may change if its ring keeps its room. -/
theorem HasRingsOf.modifyLink (h : r.HasRingsOf capacity) {k : Nat} {f : Link → Link}
    (hf : ∀ link, r.links[k]? = some link → (f link).wire.ring.IsQueueOf capacity) :
    (r.modifyLink k f).HasRingsOf capacity := by
  intro link' hlink'
  obtain ⟨j, hj⟩ := List.mem_iff_getElem?.mp hlink'
  have hj : (r.links.modify k f)[j]? = some link' := hj
  rw [List.getElem?_modify] at hj
  obtain ⟨link, hlink, rfl⟩ := Option.map_eq_some_iff.mp hj
  split
  · rename_i hkj
    exact hf link (hkj ▸ hlink)
  · exact h link (List.mem_iff_getElem?.mpr ⟨j, hlink⟩)

/-- Sending outboxes keeps the room of all rings. -/
theorem HasRingsOf.flushLinks (h : r.HasRingsOf capacity) :
    ({ r with links := (flushLinks r.links).1 } : Registry).HasRingsOf capacity := by
  have hone (link : Link) (hlink : link.wire.ring.IsQueueOf capacity) :
      (flushLink link).1.wire.ring.IsQueueOf capacity := by
    unfold flushLink
    split
    · exact hlink
    · exact Wire.isQueueOf_deliverAll hlink link.thread _
  have hall (links : List Link) (hlinks : ∀ link ∈ links, link.wire.ring.IsQueueOf capacity) :
      ∀ link ∈ (Registry.flushLinks links).1, link.wire.ring.IsQueueOf capacity := by
    induction links with
    | nil => exact hlinks
    | cons first rest ih =>
      obtain ⟨hfirst, hrest⟩ := List.forall_mem_cons.mp hlinks
      have hflushed := hone first hfirst
      unfold Registry.flushLinks
      split
      · exact List.forall_mem_cons.mpr ⟨hfirst, ih hrest⟩
      · split
        · rename_i hflush
          rw [hflush] at hflushed
          exact List.forall_mem_cons.mpr ⟨hflushed, hrest⟩
        · rename_i hflush
          rw [hflush] at hflushed
          exact List.forall_mem_cons.mpr ⟨hflushed, ih hrest⟩
  exact hall r.links h

end Registry

namespace Broadcast

variable {b : Broadcast} {action : Action} {capacity : Nat}

/-- An operation of a consumer keeps the room of all rings if it keeps that of its own. -/
theorem hasRingsOf_onConnection (h : b.registry.HasRingsOf capacity) {α : Type} (k : Nat)
    (m : ConnectionM α)
    (hm : ∀ c : Connection, c.wire.ring.IsQueueOf capacity →
      Ends m c (fun _ after => after.wire.ring.IsQueueOf capacity)
        (fun _ after => after.wire.ring.IsQueueOf capacity)) :
    (b.onConnection k m).2.registry.HasRingsOf capacity := by
  rcases b.onConnection_cases k m with ⟨-, heq⟩ | ⟨c, hconn, hcases⟩
  · rw [heq]
    exact h
  · obtain ⟨replica, link, -, hlink, rfl⟩ := connection?_eq_some.mp hconn
    have hends := hm ⟨replica, link.wire⟩ (h link (List.mem_iff_getElem?.mpr ⟨k, hlink⟩))
    rcases hcases with ⟨_, after, hrun, heq⟩ | ⟨_, after, hrun, heq⟩
    · rw [heq]
      exact h.modifyLink fun _ _ => hends.of_ok hrun
    · rw [heq]
      exact h.modifyLink fun _ _ => hends.of_error hrun

/-- Every action keeps the room of all rings, and a new ring has the room that the settings ask
for. -/
theorem hasRingsOf_step (action : Action)
    (h : b.registry.HasRingsOf (RecordRing.roundedCapacity b.registry.config.ringCapacity)) :
    (b.step action).2.registry.HasRingsOf
      (RecordRing.roundedCapacity b.registry.config.ringCapacity) := by
  cases hinternal : action.isInternal with
  | true => exact h.of_transits (transits_step hinternal)
  | false =>
    cases action with
    | setTick tick => exact h
    | connect thread =>
      rcases b.step_connect thread with ⟨wire, hwire, hstep⟩ | ⟨e, hstep⟩
      · rw [hstep]
        intro link hlink
        rcases List.mem_append.mp hlink with hlink | hlink
        · exact h link hlink
        · rw [List.mem_singleton.mp hlink]
          unfold Wire.create at hwire
          cases hring : RecordRing.create b.registry.config.ringCapacity with
          | error e =>
            rw [hring] at hwire
            cases hwire
          | ok ring =>
            rw [hring] at hwire
            cases hwire
            exact RecordRing.isQueueOf_create hring
      · rw [hstep]
        exact h
    | commit => exact h.of_courses b.courses_commit
    | flush =>
      apply onRegistry_after
        (P := fun after => after.HasRingsOf
          (RecordRing.roundedCapacity b.registry.config.ringCapacity))
      apply (Registry.ends_flush b.registry).imp
      · rintro _ after ⟨retired, hretired, -, rfl⟩
        exact (h.of_courses hretired.course).flushLinks
      · rintro _ after ⟨retired, hretired, rfl | rfl⟩
        · exact h.of_courses hretired.course
        · exact (h.of_courses hretired.course).flushLinks
    | registerLoader k type loader => exact hasRingsOf_onConnection h k _ fun _ hc => hc
    | update k tick =>
      refine hasRingsOf_onConnection h k _ fun c hc => (Connection.ends_update_wire tick c).imp ?_ ?_
      · rintro _ after ⟨acks, hwire⟩
        rw [hwire]
        exact (hc.drain c.replica.gate tick).1
      · rintro _ after ⟨acks, hwire⟩
        rw [hwire]
        exact (hc.drain c.replica.gate tick).1
    | hangUp k =>
      exact h.modifyLink fun link hlink => h link (List.mem_iff_getElem?.mpr ⟨k, hlink⟩)
    | registerType | createOpaque | createInstance | createString | createBuffer | retain |
      dispose | setProp | setPropFromScript | await | processAcks | elsewhere => cases hinternal

end Broadcast

/-- In every state of a run all rings are queues for as many records as the producer was opened for,
rounded up. -/
theorem Run.hasRingsOf {config : Config} {supply : Supply} {past : List Moment} {b : Broadcast}
    (h : Run (.opened config supply) past b) :
    b.registry.HasRingsOf (RecordRing.roundedCapacity config.ringCapacity) := by
  induction h with
  | nil =>
    intro link hlink
    cases hlink
  | snoc h action hrings =>
    rw [← h.config_eq] at hrings ⊢
    exact Broadcast.hasRingsOf_step action hrings

end Framecast
