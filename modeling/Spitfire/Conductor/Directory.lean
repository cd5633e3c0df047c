import Spitfire.Conductor.TeardownCompleteness
import Spitfire.Transition.Trace

/-! What a conductor is for: servers to connect with, at most one connection, and a directory
of channels by label. The operations answer and fault as operations on such a directory do,
and the calls that the peers can notice are the same. -/
namespace Spitfire.Conductor
open Transition

/-- What an operation returns to its caller. -/
inductive Response where
  | nothing
  | success (b : Bool)
  | info (info : Option RtcDataChannelInfo)
  | state (state : Option DataState)

/-- The operation with what it returns. -/
def Operation.answer (view : Channel → ChannelView) (op : Operation) (s : State) :
    Except Fault (Response × State) :=
  match op with
  | addServerConfig server => .ok (.nothing, Conductor.addServerConfig server s)
  | initializePeerConnection outcome order =>
    (Conductor.initializePeerConnection outcome order s).map fun r => (.success r.1, r.2)
  | createOffer => (Conductor.createOffer s).map fun r => (.nothing, r.2)
  | onOfferReply parses type sdp =>
    (Conductor.onOfferReply parses type sdp s).map fun r => (.nothing, r.2)
  | onOfferRequest parses sdp =>
    (Conductor.onOfferRequest parses sdp s).map fun r => (.nothing, r.2)
  | addIceCandidate parses applied candidate =>
    (Conductor.addIceCandidate parses applied candidate s).map fun r => (.success r.1, r.2)
  | processMessages quitting =>
    .ok (.success (Conductor.processMessages quitting s).1,
      (Conductor.processMessages quitting s).2)
  | channel (.getDataChannelInfo l) =>
    (Conductor.getDataChannelInfo view l s).map fun info => (.info info, s)
  | channel (.getDataChannelState l) =>
    (Conductor.getDataChannelState view l s).map fun state => (.state state, s)
  | channel op => (op.exec view s).map fun t => (.nothing, t)

/-- What is told about a channel. The limits are narrowed to signed numbers. -/
def ChannelView.info (v : ChannelView) : RtcDataChannelInfo where
  currentBuffer := v.bufferedAmount
  bytesSent := v.bytesSent
  bytesReceived := v.bytesReceived
  reliable := v.reliable
  ordered := v.ordered
  negotiated := v.negotiated
  id := v.id
  messagesSent := v.messagesSent
  messagesReceived := v.messagesReceived
  maxRetransmits := v.maxRetransmits.toInt16
  maxRetransmitTime := v.maxRetransmitTime.toInt16
  protocol := v.protocol
  state := v.state

/-- `gone` after a teardown: nothing is left that could be asked for a connection. -/
inductive Link where
  | gone
  | present (connected : Bool)
  deriving DecidableEq, Repr

structure Directory where
  link : Link := .present false
  servers : List IceServer := []
  channels : Label → Option Channel := fun _ => none

namespace Directory

/-- What asks for the connection faults where nothing is left. -/
def ask (d : Directory) (k : Bool → Except Fault ((Response × List Event) × Directory)) :
    Except Fault ((Response × List Event) × Directory) :=
  match d.link with
  | .gone => .error .nullPeerObserver
  | .present connected => k connected

/-- The first channel of a label stays. -/
def enter (d : Directory) (ch : Channel) : Directory :=
  { d with channels := Function.update d.channels ch.label ((d.channels ch.label).or (some ch)) }

def closings (d : Directory) (labels : List Label) : List Event :=
  labels.flatMap fun l => (d.channels l).toList.map fun ch => .close ch.id

/-- Another connection takes the place of this one, which is not closed for it. -/
def giveWay (d : Directory) : List Event :=
  if d.link = .present true then [.destroyConnection] else []

def hangUp (d : Directory) : List Event :=
  if d.link = .present true then [.closeConnection, .destroyConnection] else []

/-- The peer connection makes a channel or refuses, and the null of a refusal is used at
once. -/
def create (d : Directory) (l : Label) (config : DataChannelInit) :
    Option Channel → Except Fault ((Response × List Event) × Directory)
  | none => .error .nullDataChannel
  | some ch => .ok ((.nothing, [.createDataChannel l config]), d.enter ch)

/-- The directory after a teardown. -/
def cleared : Directory := { link := .gone }

def nextChannel (view : Channel → ChannelView) (d : Directory) (op : ChannelOperation) :
    Except Fault ((Response × List Event) × Directory) :=
  match op with
  | .createDataChannel l config channel =>
    d.ask fun connected =>
      if connected && (d.channels l).isNone then d.create l config channel
      else .ok ((.nothing, []), d)
  | .handleDataChannel ch => .ok ((.nothing, []), d.enter ch)
  | .closeDataChannel l =>
    .ok ((.nothing, d.closings [l]), { d with channels := Function.update d.channels l none })
  | .sendToDataChannel l buffer =>
    .ok ((.nothing, (d.channels l).toList.map fun ch => .send ch.id buffer), d)
  | .getDataChannelInfo l => .ok ((.info ((d.channels l).map fun ch => (view ch).info), []), d)
  | .getDataChannelState l => .ok ((.state ((d.channels l).map fun ch => (view ch).state), []), d)
  | .deletePeerConnection order => .ok ((.nothing, d.hangUp ++ d.closings order), cleared)

/-- An initialization that fails late has lost the connection that was there before. -/
def next (view : Channel → ChannelView) (d : Directory) (op : Operation) :
    Except Fault ((Response × List Event) × Directory) :=
  match op with
  | .addServerConfig server => .ok ((.nothing, []), { d with servers := d.servers ++ [server] })
  | .initializePeerConnection .factoryFails order =>
    .ok ((.success false, d.hangUp ++ d.closings order), cleared)
  | .initializePeerConnection .connectionFails order =>
    d.ask fun _ => .ok ((.success false,
      .createPeerConnection d.servers :: (d.giveWay ++ d.closings order)), cleared)
  | .initializePeerConnection .succeeds _ =>
    d.ask fun _ => .ok ((.success true, .createPeerConnection d.servers :: d.giveWay),
      { d with link := .present true })
  | .createOffer =>
    d.ask fun connected => .ok ((.nothing, if connected then [.createOffer] else []), d)
  | .onOfferReply parses type sdp =>
    d.ask fun connected => .ok ((.nothing, if connected then
      (createSessionDescription parses type).toList.map (.setRemoteDescription · sdp) else []), d)
  | .onOfferRequest parses sdp =>
    d.ask fun connected => .ok ((.nothing, if connected && parses then
      [.setRemoteDescription .offer sdp, .createAnswer] else []), d)
  | .addIceCandidate false _ _ => .ok ((.success false, []), d)
  | .addIceCandidate true applied candidate =>
    d.ask fun connected =>
      .ok ((.success (if connected then applied else false),
        if connected then [.addIceCandidate candidate] else []), d)
  | .processMessages quitting => .ok ((.success !quitting, []), d)
  | .channel op => d.nextChannel view op

/-- What the library underneath supplies: channels, if any, that bear the label that was asked
for or announced, and, wherever the map is walked, all of its labels in some order. -/
def Supplied (labelOf : Nat → Label) (d : Directory) : Operation → Prop
  | .initializePeerConnection _ order | .channel (.deletePeerConnection order) =>
    order.Nodup ∧ ∀ l, l ∈ order ↔ (d.channels l).isSome = true
  | .channel (.createDataChannel l _ channel) => ∀ ch ∈ channel, ch.label = l ∧ labelOf ch.id = l
  | .channel (.handleDataChannel ch) => labelOf ch.id = ch.label
  | _ => True

end Directory

def State.link (s : State) : Link :=
  match s.peerObserver with
  | none => .gone
  | some o => .present o.peerConnection.isSome

/-- The directory that a state stands for. -/
def State.directory (s : State) : Directory where
  link := s.link
  servers := s.servers
  channels := fun l => (s.dataObservers.lookup l).bind DataChannelObserver.dataChannel

variable {view : Channel → ChannelView} {labelOf : Nat → Label} {s t : State} {op : Operation}

theorem Operation.exec_eq (view : Channel → ChannelView) (op : Operation) (s : State) :
    op.exec view s = (op.answer view s).map Prod.snd := by
  have hsnd {α β : Type} (x : Except Fault (α × State)) (f : α → β) :
      x.map Prod.snd = (x.map fun r => (f r.1, r.2)).map Prod.snd := by
    cases x <;> rfl
  have hall {α β : Type} (x : Except Fault α) (f : α → β) (g : α → State) :
      x.map g = (x.map fun a => (f a, g a)).map Prod.snd := by
    cases x <;> rfl
  have hdefault (x : Except Fault State) :
      x = (x.map fun t => (Response.nothing, t)).map Prod.snd := by
    cases x <;> rfl
  cases op with
  | addServerConfig server => rfl
  | processMessages quitting => rfl
  | initializePeerConnection outcome order => exact hsnd _ Response.success
  | createOffer => exact hsnd _ fun _ => Response.nothing
  | onOfferReply parses type sdp => exact hsnd _ fun _ => Response.nothing
  | onOfferRequest parses sdp => exact hsnd _ fun _ => Response.nothing
  | addIceCandidate parses applied candidate => exact hsnd _ Response.success
  | channel op =>
    cases op with
    | getDataChannelInfo l => exact hall _ Response.info fun _ => s
    | getDataChannelState l => exact hall _ Response.state fun _ => s
    | createDataChannel _ _ _ | handleDataChannel _ | closeDataChannel _ | sendToDataChannel _ _
    | deletePeerConnection _ =>
      exact hdefault _

/-- An entry of the map has the channel of its label. -/
theorem Observing.channelOf (h : Observing labelOf s) (l : Label) :
    channelOf l s = .ok (s.directory.channels l) := by
  cases ho : s.dataObservers.lookup l with
  | none => simp [Conductor.channelOf, State.directory, ho]
  | some o =>
    obtain ⟨_, ch, hch, _⟩ := h l o ho
    simp [Conductor.channelOf, State.directory, ho, hch]

end Spitfire.Conductor
