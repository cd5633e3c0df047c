import Spitfire.Conductor.Session

/-! Two instances that negotiate: the offers that one reports are handed to the other by the
signaling of the application, and the answers back. Both are sessions with their two threads,
and all four threads and the messages between them interleave. -/
namespace Spitfire.Conductor
open Transition

/-- An offer and its answer, both in force. -/
structure Exchange where
  offer : String
  answer : String
  deriving DecidableEq, Repr

/-- A session with what the library has put into force: the local offer that is not yet
answered and the exchanges that were completed. -/
structure Peer where
  session : Session
  localOffer : Option String := none
  completed : List Exchange := []

/-- A description that comes into force and is more than a remote offer, which the session
itself keeps. -/
inductive Applied where
  | localOffer (sdp : String)
  | localAnswer (sdp : String)
  | remoteAnswer (sdp : String)
  | rollback
  deriving DecidableEq, Repr

/-- What the library puts into force in a step, if the step does not fault. -/
def Session.applied (s : Session) : Step → Option Applied
  | .setLocalDescription true => s.delivery.map fun d =>
      if d.request.creation = .offer then .localOffer d.sdp else .localAnswer d.sdp
  | .execute true => match s.todo.head? with
      | some (.setRemoteDescription .answer sdp) => some (.remoteAnswer sdp)
      | some (.setRemoteDescription .rollback _) => some .rollback
      | _ => none
  | _ => none

namespace Peer

/-- An answer completes the exchange with the offer that it finds. A rollback takes the local
offer back. -/
def settle (p : Peer) : Applied → Peer
  | .localOffer x => { p with localOffer := some x }
  | .localAnswer y =>
    { p with completed := p.completed ++ p.session.remoteOffer.toList.map (⟨·, y⟩) }
  | .remoteAnswer y =>
    { p with
      localOffer := none
      completed := p.completed ++ p.localOffer.toList.map (⟨·, y⟩) }
  | .rollback => { p with localOffer := none }

def next (p : Peer) (a : Step) : Option Peer :=
  (p.session.next a).map fun t =>
    if t.fault.isSome then { p with session := t }
    else { (p.session.applied a).elim p p.settle with session := t }

/-- What has been reported between these two states. -/
def news (p q : Peer) : List String :=
  (q.session.reports.drop p.session.reports.length).map Report.sdp

end Peer

/-- The two sides, the messages on their way, and whether the application of the offering
side still waits for the outcome of its last `CreateOffer`. -/
structure Handshake where
  offerer : Peer
  answerer : Peer
  offers : List String := []
  answers : List String := []
  awaiting : Bool := false

/-- The calls of the two applications and the steps of the four threads. A message can be
lost. -/
inductive HandshakeStep where
  | createOffer
  | setOfferRequest (i : Nat) (parses : Bool)
  | setOfferReply (i : Nat) (parses : Bool)
  | disposeOfferer (order : List Label)
  | disposeAnswerer (order : List Label)
  | offerer (a : Step)
  | answerer (a : Step)
  | loseOffer (i : Nat)
  | loseAnswer (i : Nat)
  deriving DecidableEq, Repr

def Step.isCall : Step → Bool
  | .call _ => true
  | _ => false

def Step.isFailure : Step → Bool
  | .onFailure _ => true
  | _ => false

/-- A failed creation and the reply to an answer end the wait of the offering side. -/
def Handshake.next (h : Handshake) : HandshakeStep → Option Handshake
  | .createOffer => do
    let p ← h.offerer.next (.call .createOffer)
    return { h with offerer := p, awaiting := true }
  | .setOfferRequest i parses => do
    let x ← h.offers[i]?
    let p ← h.answerer.next (.call (.onOfferRequest parses x))
    return { h with answerer := p, offers := h.offers.eraseIdx i }
  | .setOfferReply i parses => do
    let y ← h.answers[i]?
    let p ← h.offerer.next (.call (.onOfferReply parses "answer" y))
    return { h with offerer := p, answers := h.answers.eraseIdx i, awaiting := false }
  | .disposeOfferer order => do
    let p ← h.offerer.next (.call (.deletePeerConnection order))
    return { h with offerer := p }
  | .disposeAnswerer order => do
    let p ← h.answerer.next (.call (.deletePeerConnection order))
    return { h with answerer := p }
  | .offerer a =>
    if a.isCall then none
    else do
      let p ← h.offerer.next a
      return { h with
        offerer := p
        offers := h.offers ++ h.offerer.news p
        awaiting := h.awaiting && !a.isFailure }
  | .answerer a =>
    if a.isCall then none
    else do
      let p ← h.answerer.next a
      return { h with answerer := p, answers := h.answers ++ h.answerer.news p }
  | .loseOffer i =>
    if i < h.offers.length then some { h with offers := h.offers.eraseIdx i } else none
  | .loseAnswer i =>
    if i < h.answers.length then some { h with answers := h.answers.eraseIdx i } else none

/-- `SetLocalDescription` does not reject what it is given in this step. -/
def Step.acceptsLocal : Step → Bool
  | .setLocalDescription accepts => accepts
  | _ => true

/-- The application asks for one offer at a time, and `SetLocalDescription` accepts what
`OnSuccess` gives it. -/
def OneAtATime (h : Handshake) : HandshakeStep → Prop
  | .createOffer => h.awaiting = false
  | .offerer a | .answerer a => a.acceptsLocal = true
  | _ => True

instance (h : Handshake) : (a : HandshakeStep) → Decidable (OneAtATime h a)
  | .createOffer => inferInstanceAs (Decidable (_ = false))
  | .offerer _ | .answerer _ => inferInstanceAs (Decidable (_ = true))
  | .setOfferRequest _ _ | .setOfferReply _ _ | .disposeOfferer _ | .disposeAnswerer _
  | .loseOffer _ | .loseAnswer _ => inferInstanceAs (Decidable True)

/-- Whatever the offering side has completed, the other side has completed too, in the same
order; and while no offer is in force unanswered, their last exchanges are the same. -/
structure Agreement (h : Handshake) : Prop where
  sublist : h.offerer.completed.Sublist h.answerer.completed
  last : h.offerer.localOffer = none →
    h.offerer.completed.getLast? = h.answerer.completed.getLast?

end Spitfire.Conductor
