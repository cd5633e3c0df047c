import Spitfire.Conductor.Lifecycle

/-! What a peer connection depends on, statement by statement. Each assignment of the
initialization destroys what was there before, also under a connection that still uses it. -/
namespace Spitfire.Conductor
open Transition

/-- What a connection is created with. -/
inductive Resource where
  | networkThread | workerThread | signalingThread | factory | networkManager | socketFactory
  | relayPortFactory
  deriving DecidableEq, Repr

/-- The objects that the conductor owns now. -/
def State.owned (s : State) : Resource → Option Nat
  | .networkThread => s.networkThread
  | .workerThread => s.workerThread
  | .signalingThread => s.signalingThread
  | .factory => s.pcFactory
  | .networkManager => s.networkManager
  | .socketFactory => s.socketFactory
  | .relayPortFactory => s.relayPortFactory

/-- What is recorded when an object goes. -/
def Resource.release : Resource → Event
  | .networkThread => .destroyThread .network
  | .workerThread => .destroyThread .worker
  | .signalingThread => .destroyThread .signaling
  | .factory => .releaseFactory
  | .networkManager => .releaseNetworkManager
  | .socketFactory => .releaseSocketFactory
  | .relayPortFactory => .releaseRelayPortFactory

structure Connection where
  id : Nat
  uses : Resource → Option Nat

/-- `attached` says that `conductor_` is not null, and `created` is the local variable of
`CreatePeerConnection`. -/
structure World where
  conductor : State := .constructed
  attached : Bool := true
  created : Option Connection := none
  live : List Connection := []

/-- The object is still there. A factory is counted, and every connection keeps a reference
to its own. -/
def World.Alive (w : World) (r : Resource) (n : Nat) : Prop :=
  match r with
  | .factory => w.conductor.pcFactory = some n ∨ ∃ c ∈ w.live, c.uses .factory = some n
  | r => w.conductor.owned r = some n

/-- There is at most one connection, and all that it was created with is still there. -/
def Dependable (w : World) : Prop :=
  w.live.length ≤ 1 ∧ ∀ c ∈ w.live, ∀ r, ∃ n, c.uses r = some n ∧ w.Alive r n

/-- The statements of an initialization and of a teardown; the other operations touch no
resource and are taken whole. -/
inductive Instruction where
  | wrapCurrentThread
  | createNetworkThread
  | createWorkerThread
  | createSignalingThread
  | createFactory (made : Bool)
  | createNetworkManager
  | createSocketFactory
  | createRelayPortFactory
  | createConnection (made : Bool)
  | assignConnection
  | teardown (t : Teardown)
  | detachConductor
  | releaseRelayPortFactory
  | operation (op : Operation)
  deriving DecidableEq, Repr

namespace Instruction

/-- A new object in the place of the old one, which is gone. -/
def renew (w : World) (r : Resource) (f : State → Nat → State) : World :=
  let s := w.conductor.record (letGo (w.conductor.owned r) r.release)
  { w with conductor := { f s s.fresh with fresh := s.fresh + 1 } }

def exec (view : Channel → ChannelView) (i : Instruction) (w : World) : Except Fault World :=
  match i with
  | wrapCurrentThread => .ok { w with conductor := { w.conductor with currentThread := true } }
  | createNetworkThread =>
    .ok (renew w .networkThread fun s n => { s with networkThread := some n })
  | createWorkerThread => .ok (renew w .workerThread fun s n => { s with workerThread := some n })
  | createSignalingThread =>
    .ok (renew w .signalingThread fun s n => { s with signalingThread := some n })
  | createFactory made =>
    .ok (renew w .factory fun s n => { s with pcFactory := if made then some n else none })
  | createNetworkManager =>
    .ok (renew w .networkManager fun s n => { s with networkManager := some n })
  | createSocketFactory =>
    .ok (renew w .socketFactory fun s n => { s with socketFactory := some n })
  | createRelayPortFactory =>
    .ok (renew w .relayPortFactory fun s n => { s with relayPortFactory := some n })
  | createConnection made =>
    let connection := if made then some ⟨w.conductor.fresh, w.conductor.owned⟩ else none
    .ok { w with
      conductor := { w.conductor.record [.createPeerConnection w.conductor.servers] with
        fresh := w.conductor.fresh + 1 }
      created := connection
      live := w.live ++ connection.toList }
  | assignConnection =>
    match w.conductor.peerObserver with
    | none => .error .nullPeerObserver
    | some o => .ok { w with
        conductor := { w.conductor.record (letGo o.peerConnection .destroyConnection) with
          peerObserver := some ⟨w.created.map Connection.id⟩ }
        live := w.live.filter fun c => o.peerConnection ≠ some c.id }
  | teardown t => (t.exec w.conductor).map fun s => { w with
      conductor := s
      live := if t = .destroyPeerObserver
        then w.live.filter fun c => connectionOf w.conductor.detached ≠ some c.id
        else w.live }
  | detachConductor => .ok { w with attached := false }
  | releaseRelayPortFactory =>
    .ok { w with
      conductor := { w.conductor.record
          (letGo w.conductor.relayPortFactory .releaseRelayPortFactory) with
        relayPortFactory := none } }
  | operation op => (op.exec view w.conductor).map fun s => { w with conductor := s }

end Instruction

/-- The first part of `InitializePeerConnection`. -/
def threadsAndFactory (made : Bool) : List Instruction :=
  [.wrapCurrentThread, .createNetworkThread, .createWorkerThread, .createSignalingThread,
    .createFactory made]

def managers : List Instruction :=
  [.createNetworkManager, .createSocketFactory, .createRelayPortFactory]

def initialization (outcome : Outcome) (order : List Label) : List Instruction :=
  match outcome with
  | .factoryFails => threadsAndFactory false ++ (teardown order).map .teardown
  | .connectionFails => threadsAndFactory true ++ managers ++
      [.createConnection false, .assignConnection] ++ (teardown order).map .teardown
  | .succeeds => threadsAndFactory true ++ managers ++ [.createConnection true, .assignConnection]

def Operation.body : Operation → List Instruction
  | initializePeerConnection outcome order => initialization outcome order
  | channel (.deletePeerConnection order) => (teardown order).map .teardown
  | op => [.operation op]

/-- The statements in a row. -/
def execBody (view : Channel → ChannelView) (is : List Instruction) (w : World) :
    Except Fault World :=
  is.foldlM (fun w i => i.exec view w) w

variable {view : Channel → ChannelView}

theorem execBody_teardown (ts : List Teardown) (w : World) :
    (execBody view (ts.map .teardown) w).map World.conductor =
      ts.foldlM (fun s t => t.exec s) w.conductor := by
  induction ts generalizing w with
  | nil => rfl
  | cons t ts ih =>
    rw [List.map_cons, List.foldlM_cons, execBody, List.foldlM_cons, Instruction.exec]
    cases t.exec w.conductor with
    | error f => rfl
    | ok s => exact ih _

theorem execBody_append (is js : List Instruction) (w : World) :
    execBody view (is ++ js) w = execBody view is w >>= execBody view js := by
  rw [execBody, List.foldlM_append]
  rfl

/-- What has been made when the factory is there or has failed. -/
def World.withFactory (w : World) (outcome : Outcome) : World :=
  { w with conductor := createFactory outcome (createThreads w.conductor) }

def World.withManagers (w : World) : World := { w with conductor := createManagers w.conductor }

theorem execBody_threadsAndFactory (w : World) (outcome : Outcome) :
    execBody view (threadsAndFactory (outcome ≠ .factoryFails)) w =
      .ok (w.withFactory outcome) := by
  simp only [execBody, threadsAndFactory, List.foldlM_cons, List.foldlM_nil, Instruction.exec,
    ok_bind, Instruction.renew, State.record, State.owned, Resource.release]
  cases outcome <;> rfl

theorem execBody_made {outcome : Outcome} (hmade : outcome ≠ .factoryFails) (w : World) :
    execBody view (threadsAndFactory true ++ managers) w =
      .ok (w.withFactory outcome).withManagers := by
  rw [execBody_append, ← decide_eq_true hmade, execBody_threadsAndFactory, ok_bind]
  simp only [execBody, managers, List.foldlM_cons, List.foldlM_nil, Instruction.exec, ok_bind,
    Instruction.renew, State.record, State.owned, Resource.release]
  rfl

/-- What `CreatePeerConnection` leaves: the old connection is gone when the new one, or a
null pointer, takes its place. -/
def World.connected (w : World) (made : Bool) (o : PeerConnectionObserver) : World :=
  let connection : Option Connection :=
    if made then some ⟨w.conductor.fresh, w.conductor.owned⟩ else none
  { w with
    conductor := { (w.conductor.record [.createPeerConnection w.conductor.servers]).record
        (letGo o.peerConnection .destroyConnection) with
      peerObserver := some ⟨connection.map Connection.id⟩
      fresh := w.conductor.fresh + 1 }
    created := connection
    live := (w.live ++ connection.toList).filter fun c => o.peerConnection ≠ some c.id }

theorem execBody_connection (made : Bool) (w : World) :
    execBody view [.createConnection made, .assignConnection] w =
      match w.conductor.peerObserver with
      | none => .error .nullPeerObserver
      | some o => .ok (w.connected made o) := by
  obtain ⟨⟨_ | o⟩, attached, created, live⟩ := w <;> rfl

/-- Up to the test of the result, an initialization whose factory is made. -/
theorem initializePeerConnection_made {outcome : Outcome} (hmade : outcome ≠ .factoryFails)
    (order : List Label) (w : World) : initializePeerConnection outcome order w.conductor = (do
      let (created, s) ← createPeerConnection outcome (w.withFactory outcome).withManagers.conductor
      if created && (connectionOf s.peerObserver).isSome then return (true, s)
      return (false, ← deletePeerConnection order s)) := by
  rw [initializePeerConnection, if_pos]
  · rfl
  · cases outcome with
    | factoryFails => exact (hmade rfl).elim
    | connectionFails => rfl
    | succeeds => rfl

theorem createPeerConnection_connected {w : World} {o : PeerConnectionObserver}
    (ho : w.conductor.peerObserver = some o) (outcome : Outcome) :
    createPeerConnection outcome w.conductor =
      .ok (true, (w.connected (outcome = .succeeds) o).conductor) := by
  obtain ⟨⟨peer⟩, attached, created, live⟩ := w
  cases ho
  cases outcome <;> rfl

theorem createPeerConnection_null {s : State} (ho : s.peerObserver = none) (outcome : Outcome) :
    createPeerConnection outcome s = .error .nullPeerObserver := by
  obtain ⟨peer⟩ := s
  cases ho
  rfl

theorem map_teardown (order : List Label) (s : State) :
    (do return (false, ← deletePeerConnection order s) : Except Fault (Bool × State)).map Prod.snd =
      deletePeerConnection order s := by
  cases deletePeerConnection order s <;> rfl

theorem initializePeerConnection_unmade (order : List Label) (w : World) :
    (initializePeerConnection .factoryFails order w.conductor).map Prod.snd =
      deletePeerConnection order (w.withFactory .factoryFails).conductor := by
  rw [initializePeerConnection, if_neg (by simp [createFactory])]
  exact map_teardown order _

/-- Statement by statement, an initialization is the operation. -/
theorem execBody_initialization (outcome : Outcome) (order : List Label) (w : World) :
    (execBody view (initialization outcome order) w).map World.conductor =
      (initializePeerConnection outcome order w.conductor).map Prod.snd := by
  cases outcome with
  | factoryFails =>
    rw [initialization, execBody_append, initializePeerConnection_unmade,
      show threadsAndFactory false = threadsAndFactory (Outcome.factoryFails ≠ .factoryFails) from
        rfl, execBody_threadsAndFactory, ok_bind, execBody_teardown, deletePeerConnection]
  | connectionFails =>
    have hmade : Outcome.connectionFails ≠ .factoryFails := by decide
    rw [initialization, execBody_append, execBody_append, execBody_made hmade, ok_bind,
      execBody_connection, initializePeerConnection_made hmade]
    cases ho : (w.withFactory .connectionFails).withManagers.conductor.peerObserver with
    | none =>
      rw [createPeerConnection_null ho]
      rfl
    | some o =>
      rw [createPeerConnection_connected ho, ok_bind, ok_bind, execBody_teardown]
      exact (map_teardown order _).symm
  | succeeds =>
    have hmade : Outcome.succeeds ≠ .factoryFails := by decide
    rw [initialization, execBody_append, execBody_made hmade, ok_bind, execBody_connection,
      initializePeerConnection_made hmade]
    cases ho : (w.withFactory .succeeds).withManagers.conductor.peerObserver with
    | none =>
      rw [createPeerConnection_null ho]
      rfl
    | some o =>
      rw [createPeerConnection_connected ho, ok_bind]
      rfl

/-- Statement by statement, an operation is the operation. -/
theorem execBody_body (op : Operation) (w : World) :
    (execBody view op.body w).map World.conductor = op.exec view w.conductor := by
  have hwhole (op : Operation) :
      (execBody view [.operation op] w).map World.conductor = op.exec view w.conductor := by
    change (((op.exec view w.conductor).map fun s => { w with conductor := s }) >>= pure).map
      World.conductor = _
    cases op.exec view w.conductor <;> rfl
  cases op with
  | initializePeerConnection outcome order => exact execBody_initialization outcome order w
  | channel op =>
    cases op with
    | deletePeerConnection order => exact execBody_teardown _ w
    | _ => exact hwhole _
  | _ => exact hwhole _

/-- The public calls of an instance. -/
inductive PublicCall where
  | operation (op : Operation)
  | dispose (order : List Label)
  deriving DecidableEq, Repr

/-- Disposing deletes the conductor: the teardown, and then its members. -/
def PublicCall.body : PublicCall → List Instruction
  | operation op => op.body
  | dispose order =>
    .detachConductor :: (teardown order).map .teardown ++ [.releaseRelayPortFactory]

/-- The states that statements in a row pass through. -/
def passed (view : Channel → ChannelView) : List Instruction → World → List World
  | [], _ => []
  | i :: is, w => match i.exec view w with
    | .error _ => []
    | .ok v => v :: passed view is v

namespace World

/-- Nothing is called through a null `conductor_`, and disposing again does nothing. -/
def next (view : Channel → ChannelView) (w : World) (c : PublicCall) : Option World :=
  if w.attached then (execBody view c.body w).toOption
  else match c with
    | .dispose _ => some w
    | .operation _ => none

def passes (view : Channel → ChannelView) (w : World) (c : PublicCall) : List World :=
  if w.attached then passed view c.body w else []

end World

/-- No connection is there when another one is initialized. -/
def Unconnected (w : World) (c : PublicCall) : Prop :=
  ∀ outcome order, c = .operation (.initializePeerConnection outcome order) → w.live = []

end Spitfire.Conductor
