import Mathlib.Data.List.AList

/-! The state of a conductor. A pointer is an optional handle, a data channel is named by
its identity, and every call that reaches a channel, the connection or a thread is
recorded in a log, with what it is given, together with the entries that join and leave the
channel map and the objects that are released. -/
namespace Spitfire.Conductor

/-- Labels are arbitrary byte strings. -/
abbrev Label := List UInt8

@[ext]
structure Channel where
  id : Nat
  label : Label
  deriving DecidableEq, Repr

/-- `registered` is the flag behind the assertion of the destructor. -/
structure DataChannelObserver where
  dataChannel : Option Channel
  registered : Bool := false
  deriving DecidableEq, Repr

structure PeerConnectionObserver where
  peerConnection : Option Nat := none
  deriving DecidableEq, Repr

structure IceServer where
  uri : String
  username : String
  password : String
  deriving DecidableEq, Repr

inductive ThreadName where
  | network | worker | signaling | current
  deriving DecidableEq, Repr

inductive SdpType where
  | offer | pranswer | answer | rollback
  deriving DecidableEq, Repr

/-- What is sent on a channel. -/
structure DataBuffer where
  data : List UInt8
  binary : Bool
  deriving DecidableEq, Repr

/-- How a channel is to be opened. -/
structure DataChannelInit where
  reliable : Bool := false
  ordered : Bool := true
  maxRetransmitTime : Option Int32 := none
  maxRetransmits : Option Int32 := none
  protocol : List UInt8 := []
  negotiated : Bool := false
  id : Int32 := -1
  deriving DecidableEq, Repr

/-- A candidate as the library writes it, and as it is read again. -/
structure CandidateText where
  sdpMid : List UInt8
  sdpMLineIndex : Int32
  sdp : List UInt8
  deriving DecidableEq, Repr

inductive Event where
  | registerObserver (channel : Nat)
  | close (channel : Nat)
  | unregisterObserver (channel : Nat)
  | send (channel : Nat) (buffer : DataBuffer)
  | inserted (channel : Nat)
  | removed (channel : Nat) (registered : Bool)
  | createPeerConnection (servers : List IceServer)
  | createDataChannel (label : Label) (config : DataChannelInit)
  | createOffer
  | createAnswer
  | setRemoteDescription (type : SdpType) (sdp : String)
  | addIceCandidate (candidate : CandidateText)
  | closeConnection
  | destroyConnection
  | releaseFactory
  | releaseSocketFactory
  | releaseNetworkManager
  | releaseRelayPortFactory
  | quit (thread : ThreadName)
  | destroyThread (thread : ThreadName)
  deriving DecidableEq, Repr

/-- Accesses through a null pointer. -/
inductive Fault where
  | nullPeerObserver
  | nullPeerConnection
  | nullDataChannel
  | nullSetSessionObserver
  deriving DecidableEq, Repr

/-- `detached` is the peer observer that `peer_observer_.reset()` is destroying: the
pointer is null before its pointee is gone. -/
structure State where
  peerObserver : Option PeerConnectionObserver := some {}
  detached : Option PeerConnectionObserver := none
  sessionObserver : Bool := true
  setSessionObserver : Bool := true
  dataObservers : AList (fun _ : Label => DataChannelObserver) := ∅
  networkThread : Option Nat := none
  workerThread : Option Nat := none
  signalingThread : Option Nat := none
  currentThread : Bool := false
  networkManager : Option Nat := none
  socketFactory : Option Nat := none
  relayPortFactory : Option Nat := none
  pcFactory : Option Nat := none
  servers : List IceServer := []
  fresh : Nat := 0
  log : List Event := []

/-- The state that the constructor leaves: the three observers and nothing else. -/
def State.constructed : State := {}

def State.record (s : State) (es : List Event) : State := { s with log := s.log ++ es }

/-- A pointer that is assigned lets go of what it held. -/
def letGo (held : Option Nat) (e : Event) : List Event := if held.isSome then [e] else []

theorem mem_letGo {held : Option Nat} {e e' : Event} :
    e' ∈ letGo held e ↔ held.isSome = true ∧ e' = e := by
  cases held <;> simp [letGo]

namespace DataChannelObserver

/-- The observer leaves the map and is destroyed. -/
def removal (o : DataChannelObserver) : List Event :=
  o.dataChannel.toList.map fun ch => .removed ch.id o.registered

def insertion (o : DataChannelObserver) : List Event :=
  o.dataChannel.toList.map fun ch => .inserted ch.id

def registerObserver (o : DataChannelObserver) (s : State) :
    Except Fault (DataChannelObserver × State) :=
  match o.dataChannel with
  | none => .error .nullDataChannel
  | some ch => .ok ({ o with registered := true }, s.record [.registerObserver ch.id])

/-- The channel is closed before its observer is taken off. -/
def unregisterObserver (o : DataChannelObserver) (s : State) :
    Except Fault (DataChannelObserver × State) :=
  match o.dataChannel with
  | none => .error .nullDataChannel
  | some ch =>
    .ok ({ o with registered := false }, s.record [.close ch.id, .unregisterObserver ch.id])

end DataChannelObserver

namespace State

/-- `data_observers_[label] = std::move(observer)`, which destroys an observer that is
already there. -/
def assign (s : State) (label : Label) (o : DataChannelObserver) : State :=
  let replaced := match s.dataObservers.lookup label with
    | none => []
    | some old => old.removal
  { s with
    dataObservers := s.dataObservers.insert label o
    log := s.log ++ (o.insertion ++ replaced) }

/-- The map's observer object is changed in place. -/
def update (s : State) (label : Label) (o : DataChannelObserver) : State :=
  { s with dataObservers := s.dataObservers.insert label o }

def erase (s : State) (label : Label) : State :=
  match s.dataObservers.lookup label with
  | none => s
  | some o => { s with
      dataObservers := s.dataObservers.erase label
      log := s.log ++ o.removal }

/-- `data_observers_.clear()`, one element after the other in this order, and then those that
it does not name. -/
def clearObservers (order : List Label) (s : State) : State :=
  (order ++ s.dataObservers.keys).foldl State.erase s

end State

/-- `element.second->UnregisterObserver()` for the entry of one label. -/
def unregisterEntry (s : State) (label : Label) : Except Fault State :=
  match s.dataObservers.lookup label with
  | none => .ok s
  | some o => do
    let (o, s) ← o.unregisterObserver s
    .ok (s.update label o)

/-- The statements of `DeletePeerConnection`, with `peer_observer_.reset()` split where
the pointer is already null and its pointee is not yet gone. The order in which the map
is walked and cleared is the map's own. -/
inductive Teardown where
  | closeConnection
  | detachPeerObserver
  | destroyPeerObserver
  | releaseFactory
  | releaseSocketFactory
  | releaseNetworkManager
  | unregisterObservers (order : List Label)
  | clearObservers (order : List Label)
  | clearServers
  | quitSignalingThread
  | quitWorkerThread
  | quitNetworkThread
  | releaseSessionObserver
  | releaseSetSessionObserver
  | quitCurrentThread
  deriving DecidableEq, Repr

def connectionOf (o : Option PeerConnectionObserver) : Option Nat :=
  o.bind PeerConnectionObserver.peerConnection

/-- `QuitThread`: nothing is done for a thread that is not there. -/
def quitThread (thread : Option Nat) (name : ThreadName) : List Event :=
  match thread with
  | none => []
  | some _ => [.quit name, .destroyThread name]

def Teardown.exec (t : Teardown) (s : State) : Except Fault State :=
  match t with
  | .closeConnection =>
    .ok (s.record (if (connectionOf s.peerObserver).isSome then [.closeConnection] else []))
  | .detachPeerObserver => .ok { s with peerObserver := none, detached := s.peerObserver }
  | .destroyPeerObserver =>
    .ok { s.record (letGo (connectionOf s.detached) .destroyConnection) with detached := none }
  | .releaseFactory =>
    .ok { s.record (letGo s.pcFactory .releaseFactory) with pcFactory := none }
  | .releaseSocketFactory =>
    .ok { s.record (letGo s.socketFactory .releaseSocketFactory) with socketFactory := none }
  | .releaseNetworkManager =>
    .ok { s.record (letGo s.networkManager .releaseNetworkManager) with networkManager := none }
  | .unregisterObservers order => order.foldlM unregisterEntry s
  | .clearObservers order => .ok (s.clearObservers order)
  | .clearServers => .ok { s with servers := [] }
  | .quitSignalingThread =>
    .ok { s.record (quitThread s.signalingThread .signaling) with signalingThread := none }
  | .quitWorkerThread =>
    .ok { s.record (quitThread s.workerThread .worker) with workerThread := none }
  | .quitNetworkThread =>
    .ok { s.record (quitThread s.networkThread .network) with networkThread := none }
  | .releaseSessionObserver => .ok { s with sessionObserver := false }
  | .releaseSetSessionObserver => .ok { s with setSessionObserver := false }
  | .quitCurrentThread => .ok (s.record (if s.currentThread then [.quit .current] else []))

def teardown (order : List Label) : List Teardown :=
  [.closeConnection, .detachPeerObserver, .destroyPeerObserver, .releaseFactory,
    .releaseSocketFactory, .releaseNetworkManager, .unregisterObservers order,
    .clearObservers order, .clearServers, .quitSignalingThread, .quitWorkerThread,
    .quitNetworkThread, .releaseSessionObserver, .releaseSetSessionObserver, .quitCurrentThread]

/-- What happens between the closing of the connection and the walk over the map. -/
def Teardown.releases : List Teardown :=
  [.detachPeerObserver, .destroyPeerObserver, .releaseFactory, .releaseSocketFactory,
    .releaseNetworkManager]

/-- What happens after the map has been cleared. -/
def Teardown.departures : List Teardown :=
  [.clearServers, .quitSignalingThread, .quitWorkerThread, .quitNetworkThread,
    .releaseSessionObserver, .releaseSetSessionObserver, .quitCurrentThread]

theorem teardown_eq (order : List Label) : teardown order =
    .closeConnection :: Teardown.releases ++
      .unregisterObservers order :: .clearObservers order :: Teardown.departures := rfl

def deletePeerConnection (order : List Label) (s : State) : Except Fault State :=
  (teardown order).foldlM (fun s t => t.exec s) s

end Spitfire.Conductor
