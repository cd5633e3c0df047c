import Spitfire.Conductor.State

/-! The public operations of a conductor, each executed without interruption. What the
library underneath decides (whether a text parses, a factory or a connection is created,
which channel is returned) is an argument. -/
namespace Spitfire.Conductor

inductive DataState where
  | connecting | opened | closing | closed
  deriving DecidableEq, Repr

/-- What the accessors of a channel return. -/
structure ChannelView where
  id : Int32
  bufferedAmount : UInt64
  bytesSent : UInt64
  bytesReceived : UInt64
  reliable : Bool
  ordered : Bool
  negotiated : Bool
  messagesSent : UInt32
  messagesReceived : UInt32
  maxRetransmits : UInt16
  maxRetransmitTime : UInt16
  protocol : String
  state : DataState

structure RtcDataChannelInfo where
  currentBuffer : UInt64
  bytesSent : UInt64
  bytesReceived : UInt64
  reliable : Bool
  ordered : Bool
  negotiated : Bool
  id : Int32
  messagesSent : UInt32
  messagesReceived : UInt32
  maxRetransmits : Int16
  maxRetransmitTime : Int16
  protocol : String
  state : DataState

/-- `if(!peer_observer_->peer_connection_) return;` and then the rest. -/
def withConnection {α : Type} (s : State) (early : α) (k : Except Fault (α × State)) :
    Except Fault (α × State) :=
  match s.peerObserver with
  | none => .error .nullPeerObserver
  | some ⟨none⟩ => .ok (early, s)
  | some ⟨some _⟩ => k

def addServerConfig (server : IceServer) (s : State) : State :=
  { s with servers := s.servers ++ [server] }

def createOffer (s : State) : Except Fault (Unit × State) :=
  withConnection s () (.ok ((), s.record [.createOffer]))

/-- The type names that `CreateSessionDescription` knows. -/
def sdpTypeFromString (type : String) : Option SdpType :=
  if type = "offer" then some .offer
  else if type = "pranswer" then some .pranswer
  else if type = "answer" then some .answer
  else if type = "rollback" then some .rollback
  else none

/-- `CreateSessionDescription`: null for an unknown type and for text that does not parse. -/
def createSessionDescription (parses : Bool) (type : String) : Option SdpType :=
  if parses then sdpTypeFromString type else none

def onOfferReply (parses : Bool) (type sdp : String) (s : State) : Except Fault (Unit × State) :=
  withConnection s () <|
    match createSessionDescription parses type with
    | none => .ok ((), s)
    | some t => .ok ((), s.record [.setRemoteDescription t sdp])

def onOfferRequest (parses : Bool) (sdp : String) (s : State) : Except Fault (Unit × State) :=
  withConnection s () <|
    match createSessionDescription parses "offer" with
    | none => .ok ((), s)
    | some t => .ok ((), s.record [.setRemoteDescription t sdp, .createAnswer])

/-- A candidate that does not parse is refused before the connection is looked at. -/
def addIceCandidate (parses applied : Bool) (candidate : CandidateText) (s : State) :
    Except Fault (Bool × State) :=
  if parses then withConnection s false (.ok (applied, s.record [.addIceCandidate candidate]))
  else .ok (false, s)

/-- The channel is what `peer_connection_->CreateDataChannel` returns, which can be null. -/
def createDataChannel (label : Label) (config : DataChannelInit) (channel : Option Channel)
    (s : State) : Except Fault (Unit × State) :=
  withConnection s () <|
    if s.dataObservers.lookup label = none then do
      let s := s.record [.createDataChannel label config]
      let (o, s) ← DataChannelObserver.registerObserver { dataChannel := channel } s
      .ok ((), s.assign label o)
    else .ok ((), s)

def closeDataChannel (label : Label) (s : State) : Except Fault State :=
  match s.dataObservers.lookup label with
  | none => .ok s
  | some _ => do
    let s ← unregisterEntry s label
    .ok (s.erase label)

/-- `it->second->data_channel_`, used through its accessors. -/
def channelOf (label : Label) (s : State) : Except Fault (Option Channel) :=
  match s.dataObservers.lookup label with
  | none => .ok none
  | some o => match o.dataChannel with
    | none => .error .nullDataChannel
    | some ch => .ok (some ch)

def getDataChannelInfo (view : Channel → ChannelView) (label : Label) (s : State) :
    Except Fault (Option RtcDataChannelInfo) := do
  let channel ← channelOf label s
  return channel.map fun ch =>
    let v := view ch
    { id := v.id
      currentBuffer := v.bufferedAmount
      bytesSent := v.bytesSent
      bytesReceived := v.bytesReceived
      reliable := v.reliable
      ordered := v.ordered
      negotiated := v.negotiated
      messagesSent := v.messagesSent
      messagesReceived := v.messagesReceived
      maxRetransmits := v.maxRetransmits.toInt16
      maxRetransmitTime := v.maxRetransmitTime.toInt16
      protocol := v.protocol
      state := v.state }

def getDataChannelState (view : Channel → ChannelView) (label : Label) (s : State) :
    Except Fault (Option DataState) := do
  let channel ← channelOf label s
  return channel.map fun ch => (view ch).state

def sendToDataChannel (label : Label) (buffer : DataBuffer) (s : State) : Except Fault State := do
  match ← channelOf label s with
  | none => return s
  | some ch => return s.record [.send ch.id buffer]

/-- A channel that the other side opened. -/
def handleDataChannel (channel : Channel) (s : State) : Except Fault State :=
  if s.dataObservers.lookup channel.label = none then do
    let (o, s) ← DataChannelObserver.registerObserver { dataChannel := some channel } s
    .ok (s.assign channel.label o)
  else .ok s

/-- What the library underneath makes of one initialization. -/
inductive Outcome where
  | factoryFails | connectionFails | succeeds
  deriving DecidableEq, Repr

/-- The pointer to the peer observer is used for the result, null or not. A connection that
is already there makes way for the new one. -/
def createPeerConnection (outcome : Outcome) (s : State) : Except Fault (Bool × State) :=
  let s := s.record [.createPeerConnection s.servers]
  match s.peerObserver with
  | none => .error .nullPeerObserver
  | some o =>
    let connection := if outcome = .succeeds then some s.fresh else none
    .ok (true, { s.record (letGo o.peerConnection .destroyConnection) with
      peerObserver := some ⟨connection⟩
      fresh := s.fresh + 1 })

/-- The caller's thread is wrapped and the three threads are started. A thread that is already
there is destroyed without being told to quit. -/
def createThreads (s : State) : State :=
  { s with
    currentThread := true
    networkThread := some s.fresh
    workerThread := some (s.fresh + 1)
    signalingThread := some (s.fresh + 2)
    fresh := s.fresh + 3
    log := s.log ++ letGo s.networkThread (.destroyThread .network) ++
      letGo s.workerThread (.destroyThread .worker) ++
      letGo s.signalingThread (.destroyThread .signaling) }

def createFactory (outcome : Outcome) (s : State) : State :=
  { s with
    pcFactory := if outcome = .factoryFails then none else some s.fresh
    fresh := s.fresh + 1
    log := s.log ++ letGo s.pcFactory .releaseFactory }

def createManagers (s : State) : State :=
  { s with
    networkManager := some s.fresh
    socketFactory := some (s.fresh + 1)
    relayPortFactory := some (s.fresh + 2)
    fresh := s.fresh + 3
    log := s.log ++ letGo s.networkManager .releaseNetworkManager ++
      letGo s.socketFactory .releaseSocketFactory ++
      letGo s.relayPortFactory .releaseRelayPortFactory }

def initializePeerConnection (outcome : Outcome) (order : List Label) (s : State) :
    Except Fault (Bool × State) := do
  let s := createFactory outcome (createThreads s)
  if s.pcFactory.isSome then
    let (created, s) ← createPeerConnection outcome (createManagers s)
    if created && (connectionOf s.peerObserver).isSome then
      return (true, s)
    return (false, ← deletePeerConnection order s)
  else
    return (false, ← deletePeerConnection order s)

/-- The caller's thread is wrapped, and says no more than whether it has been told to quit. -/
def processMessages (quitting : Bool) (s : State) : Bool × State :=
  (!quitting, { s with currentThread := true })

/-- A new conductor after a successful initialization. -/
def State.initialized : State :=
  ((initializePeerConnection .succeeds [] .constructed).toOption.map Prod.snd).getD .constructed

end Spitfire.Conductor
