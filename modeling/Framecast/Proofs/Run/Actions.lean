import Framecast.Broadcast
import Framecast.Proofs.Operation.Instance

/-!
# Runs of a broadcast

A run is any sequence of actions, of the host on the producer and of the consumers
on their replicas, in any order. It keeps the state before each action, so that
what is said of a run can look back at all of it. Other producers of the station
may draw numbers and issue buffers in between.
-/

namespace Framecast

/-- What can be done with a producer and its consumers. -/
inductive Action where
  /-- A consumer is connected. -/
  | connect (thread : Thread)
  /-- The tick of later intents is set. -/
  | setTick (tick : Tick)
  /-- An opaque type is declared to be loadable. -/
  | registerType (type : String)
  /-- An opaque resource is created. -/
  | createOpaque (thread : Thread) (type : String) (payload : Payload) (options : Options)
  /-- An instance is created. -/
  | createInstance (schema : Schema) (props : List (String × Value)) (options : Options)
  /-- A text is interned. -/
  | createString (text : String)
  /-- A raw buffer is entered. -/
  | createBuffer (buffer : RawBuffer)
  /-- The host takes a reference. -/
  | retain (id : ResourceId)
  /-- The host gives a reference back, or disposes of what is not referenced. -/
  | dispose (id : ResourceId)
  /-- The host writes a property. -/
  | setProp (id : ResourceId) (name : String) (value : Value)
  /-- A script writes a property. -/
  | setPropFromScript (id : ResourceId) (name : String) (value : Value)
  /-- The host waits for a resource. -/
  | await (id : ResourceId)
  /-- Answers are taken in. -/
  | processAcks
  /-- Other producers draw so many numbers and leave the pool of buffers like this. -/
  | elsewhere (drawn : Nat) (pool : BufferPool)
  /-- The current bytes are published. -/
  | commit
  /-- Queued intents are sent. -/
  | flush
  /-- A consumer installs a loader. -/
  | registerLoader (k : Nat) (type : String) (loader : Loader)
  /-- A consumer is brought to a tick. -/
  | update (k : Nat) (tick : Tick)
  /-- A consumer goes away. -/
  | hangUp (k : Nat)

/-- How an action is answered. -/
inductive Answer where
  /-- It failed. -/
  | failed (cause : ResourceError)
  /-- It was done. -/
  | done
  /-- The number of what was created. -/
  | created (id : ResourceId)
  /-- The count after a reference was taken. -/
  | counted (refCount : Nat)
  /-- Whether a resource was disposed of. -/
  | disposed (gone : Bool)
  deriving DecidableEq, Repr

namespace Broadcast

/-- Runs an operation of the producer. -/
def onRegistry {α : Type} (b : Broadcast) (m : RegistryM α) (answer : α → Answer) :
    Answer × Broadcast :=
  match m.run b.registry with
  | .ok a registry => (answer a, { b with registry })
  | .error e registry => (.failed e, { b with registry })

/-- Runs an operation of consumer `k`, if there is one. -/
def onConnection {α : Type} (b : Broadcast) (k : Nat) (m : ConnectionM α) : Answer × Broadcast :=
  match b.connection? k with
  | none => (.done, b)
  | some c =>
    match m.run c with
    | .ok _ c => (.done, b.setConnection k c)
    | .error e c => (.failed e, b.setConnection k c)

/-- Changes the registry without fail. -/
def withRegistry (b : Broadcast) (f : Registry → Registry) : Answer × Broadcast :=
  (.done, { b with registry := f b.registry })

/-- Does one action. -/
def step (b : Broadcast) : Action → Answer × Broadcast
  | .connect thread =>
    match b.connect thread with
    | (.ok _, after) => (.done, after)
    | (.error e, after) => (.failed e, after)
  | .setTick tick => b.withRegistry (·.setTick tick)
  | .registerType type => b.withRegistry (·.registerType type)
  | .createOpaque thread type payload options =>
    b.onRegistry (Registry.createOpaque thread type payload options) .created
  | .createInstance schema props options =>
    b.onRegistry (Registry.createInstance schema props options) .created
  | .createString text => b.onRegistry (Registry.createString text) .created
  | .createBuffer buffer => b.onRegistry (Registry.createBuffer buffer) .created
  | .retain id => b.onRegistry (Registry.retain id) .counted
  | .dispose id => b.onRegistry (Registry.dispose id) .disposed
  | .setProp id name value => b.onRegistry (Registry.setProp id name value) fun _ => .done
  | .setPropFromScript id name value =>
    b.onRegistry (Registry.setPropFromScript id name value) fun _ => .done
  | .await id => b.withRegistry fun r => (r.await id).2
  | .processAcks => b.withRegistry Registry.processAcks
  | .elsewhere drawn pool =>
    b.withRegistry fun r => { r with supply := ⟨r.supply.issued + drawn, pool⟩ }
  | .commit => b.onRegistry Registry.commit fun _ => .done
  | .flush => b.onRegistry Registry.flush fun _ => .done
  | .registerLoader k type loader =>
    b.onConnection k (modify fun c => c.mapReplica (·.registerLoader type loader))
  | .update k tick => b.onConnection k (Connection.update tick)
  | .hangUp k => (.done, b.hangUp k)

/-- A producer without resources and consumers that draws from a supply. -/
def opened (config : Config) (supply : Supply) : Broadcast := ⟨.create config supply, #[], true⟩

end Broadcast

/-- One action and the state in which it is done. -/
structure Moment where
  /-- The state before the action. -/
  before : Broadcast
  /-- The action. -/
  action : Action

namespace Moment

/-- How the action is answered. -/
def answer (m : Moment) : Answer := (m.before.step m.action).1

/-- The state after the action. -/
def after (m : Moment) : Broadcast := (m.before.step m.action).2

end Moment

/-- From a state, some actions lead to another. The moments on the way are listed newest first. -/
inductive Run (start : Broadcast) : List Moment → Broadcast → Prop
  /-- Nothing is done. -/
  | nil : Run start [] start
  /-- One more action is done. -/
  | snoc {past : List Moment} {b : Broadcast} (h : Run start past b) (action : Action) :
    Run start (⟨b, action⟩ :: past) (b.step action).2

theorem Run.cons {start b : Broadcast} {past : List Moment} (h : Run start past b)
    (action : Action) : Run start (⟨b, action⟩ :: past) (Moment.after ⟨b, action⟩) := h.snoc action

/-- The moments of a run, newest first, and the state in which it ends. -/
def Broadcast.play (start : Broadcast) (actions : List Action) : List Moment × Broadcast :=
  actions.foldl (fun played action =>
    (⟨played.2, action⟩ :: played.1, (played.2.step action).2)) ([], start)

/-- Actions that are done one after another are a run. -/
theorem Run.play (start : Broadcast) (actions : List Action) :
    Run start (start.play actions).1 (start.play actions).2 := by
  have hfold : ∀ (actions : List Action) (played : List Moment × Broadcast),
      Run start played.1 played.2 →
        Run start
          (actions.foldl (fun played action =>
            (⟨played.2, action⟩ :: played.1, (played.2.step action).2)) played).1
          (actions.foldl (fun played action =>
            (⟨played.2, action⟩ :: played.1, (played.2.step action).2)) played).2 := by
    intro actions
    induction actions with
    | nil => exact fun _ h => h
    | cons action rest ih => exact fun _ h => ih _ (h.snoc action)
  exact hfold actions ([], start) .nil

/-- Whether an action only creates instances of compiled schemas. -/
def Action.IsCompiled : Action → Prop
  | .createInstance schema _ _ => schema.layout.IsCompiled
  | _ => True

/-- What is so of all actions is so of the one at every moment. -/
theorem Broadcast.forall_play {P : Action → Prop} (start : Broadcast) {actions : List Action}
    (h : ∀ action ∈ actions, P action) : ∀ m ∈ (start.play actions).1, P m.action := by
  have hfold : ∀ (actions : List Action) (played : List Moment × Broadcast),
      (∀ action ∈ actions, P action) → (∀ m ∈ played.1, P m.action) →
        ∀ m ∈ (actions.foldl (fun played action =>
          (⟨played.2, action⟩ :: played.1, (played.2.step action).2)) played).1, P m.action := by
    intro actions
    induction actions with
    | nil => exact fun _ _ hplayed => hplayed
    | cons action rest ih =>
      intro played hall hplayed
      refine ih _ (fun a ha => hall a (List.mem_cons_of_mem _ ha)) fun m hm => ?_
      rcases List.mem_cons.mp hm with rfl | hm
      · exact hall action List.mem_cons_self
      · exact hplayed m hm
  exact hfold actions ([], start) h fun m hm => by cases hm

theorem Broadcast.isCompiled_play (start : Broadcast) {actions : List Action}
    (h : ∀ action ∈ actions, action.IsCompiled) :
    ∀ m ∈ (start.play actions).1, m.action.IsCompiled :=
  start.forall_play h

/-- Whether an action is about the resources of the producer alone, all under one tick, so that
nothing goes over a wire but answers. -/
def Action.isInternal : Action → Bool
  | .setTick _ | .connect _ | .commit | .flush | .registerLoader _ _ _ | .update _ _ | .hangUp _ => false
  | _ => true

/-- Whether an action takes in what consumers have answered. -/
def Action.takesAcks : Action → Bool
  | .flush | .await _ | .processAcks => true
  | _ => false

/-- Whether an action is a commit. -/
def Action.isCommit : Action → Bool
  | .commit => true
  | _ => false

theorem Action.isCommit_iff {action : Action} : action.isCommit = true ↔ action = .commit := by
  cases action <;> simp [isCommit]

instance (action : Action) : Decidable (action = .commit) := decidable_of_iff _ Action.isCommit_iff

namespace Samples

/-- What is declared of a node: a text, and a reference to another node. -/
def nodeDeclared : List Declaration :=
  [.ofKind "name" .string, { Declaration.reference "next" "node" with isMutable := true }]

/-- The layout of a node. -/
def node : Layout := ⟨"node", nodeDeclared.zipWith Declaration.place [0, 4], 8⟩

theorem isCompiled_node : node.IsCompiled := by
  refine ⟨"node", nodeDeclared, ?_, by decide +kernel⟩
  intro d hd n hn
  simp only [nodeDeclared, List.mem_cons, List.not_mem_nil, or_false] at hd
  rcases hd with rfl | rfl
  · exact Option.some.inj hn
  · exact Option.some.inj hn

end Samples

end Framecast
