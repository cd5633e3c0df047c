import Spitfire.Conductor.Operations
import Spitfire.Transition.Fallible
import Spitfire.Transition.Run

/-! The negotiation calls taken statement by statement on the thread of the application,
while the signaling thread delivers the descriptions that were asked for. -/
namespace Spitfire.Conductor
open Transition

/-- A statement of a negotiation call. An answer is asked for on behalf of the offer that
its call was given. -/
inductive Statement where
  | testConnection
  | createOffer
  | setRemoteDescription (type : SdpType) (sdp : String)
  | createAnswer (offer : String)
  | teardown (t : Teardown)
  deriving DecidableEq, Repr

/-- `peer_observer_->peer_connection_`, about to be called through. -/
def State.connection (s : State) : Except Fault Nat :=
  match s.peerObserver with
  | none => .error .nullPeerObserver
  | some ⟨none⟩ => .error .nullPeerConnection
  | some ⟨some n⟩ => .ok n

/-- What a statement does to the conductor, and whether its call goes on. -/
def Statement.exec (st : Statement) (s : State) : Except Fault (Bool × State) :=
  match st with
  | testConnection => withConnection s false (.ok (true, s))
  | createOffer => s.connection.map fun _ => (true, s.record [.createOffer])
  | setRemoteDescription type sdp =>
    s.connection.map fun _ => (true, s.record [.setRemoteDescription type sdp])
  | createAnswer _ => s.connection.map fun _ => (true, s.record [.createAnswer])
  | teardown t => (t.exec s).map fun s => (true, s)

/-- Statements in a row, without interruption. -/
def execAll : List Statement → State → Except Fault State
  | [], s => .ok s
  | st :: rest, s => do
    let (goesOn, s) ← st.exec s
    if goesOn then execAll rest s else .ok s

/-- The calls of the application, with what the library makes of their texts. -/
inductive Call where
  | createOffer
  | onOfferReply (parses : Bool) (type sdp : String)
  | onOfferRequest (parses : Bool) (sdp : String)
  | deletePeerConnection (order : List Label)
  deriving DecidableEq, Repr

namespace Call

def body : Call → List Statement
  | createOffer => [.testConnection, .createOffer]
  | onOfferReply parses type sdp => .testConnection ::
      match createSessionDescription parses type with
      | none => []
      | some t => [.setRemoteDescription t sdp]
  | onOfferRequest parses sdp => .testConnection ::
      match createSessionDescription parses "offer" with
      | none => []
      | some t => [.setRemoteDescription t sdp, .createAnswer sdp]
  | deletePeerConnection order => (teardown order).map .teardown

/-- The call as one operation. -/
def exec (c : Call) (s : State) : Except Fault State :=
  match c with
  | createOffer => (Conductor.createOffer s).map Prod.snd
  | onOfferReply parses type sdp => (Conductor.onOfferReply parses type sdp s).map Prod.snd
  | onOfferRequest parses sdp => (Conductor.onOfferRequest parses sdp s).map Prod.snd
  | deletePeerConnection order => Conductor.deletePeerConnection order s

end Call

theorem execAll_teardown (ts : List Teardown) (s : State) :
    execAll (ts.map .teardown) s = ts.foldlM (fun s t => t.exec s) s := by
  induction ts generalizing s with
  | nil => rfl
  | cons t ts ih =>
    rw [List.map_cons, List.foldlM_cons, execAll, Statement.exec]
    cases t.exec s with
    | error f => rfl
    | ok s₁ => exact ih s₁

/-- Statement by statement and undisturbed, a call is the operation. -/
theorem execAll_body (c : Call) (s : State) : execAll c.body s = c.exec s := by
  cases c with
  | createOffer =>
    obtain ⟨_ | ⟨_ | n⟩⟩ := s <;> rfl
  | onOfferReply parses type sdp =>
    rw [Call.body, Call.exec, onOfferReply]
    cases createSessionDescription parses type with
    | none => obtain ⟨_ | ⟨_ | n⟩⟩ := s <;> rfl
    | some t => obtain ⟨_ | ⟨_ | n⟩⟩ := s <;> rfl
  | onOfferRequest parses sdp =>
    rw [Call.body, Call.exec, onOfferRequest]
    cases createSessionDescription parses "offer" with
    | none => obtain ⟨_ | ⟨_ | n⟩⟩ := s <;> rfl
    | some t =>
      -- The operation records its two requests at once.
      have hlog : ∀ es : List Event, es ++ [.setRemoteDescription t sdp, .createAnswer] =
          es ++ [.setRemoteDescription t sdp] ++ [.createAnswer] := by simp
      dsimp only [State.record]
      rw [hlog]
      obtain ⟨_ | ⟨_ | n⟩⟩ := s <;> rfl
  | deletePeerConnection order => exact execAll_teardown _ s

/-- What a description was asked for. An answer remembers the offer of its call and the
remote offer that was in force when the library was asked. -/
inductive Creation where
  | offer
  | answer (requested : String) (inForce : Option String)
  deriving DecidableEq, Repr

/-- There is no answer without a remote offer. -/
def Creation.possible : Creation → Bool
  | .answer _ none => false
  | _ => true

structure Request where
  id : Nat
  creation : Creation
  deriving DecidableEq, Repr

inductive ThreadRole where
  | application | signaling
  deriving DecidableEq, Repr

/-- How far `OnSuccess` has come. -/
inductive Stage where
  | tested | applied
  deriving DecidableEq, Repr

structure Delivery where
  stage : Stage
  request : Request
  sdp : String
  deriving DecidableEq, Repr

/-- A raised `on_success_`. -/
structure Report where
  request : Request
  sdp : String
  deriving DecidableEq, Repr

/-- `todo` is what is left of the call in progress. `accepted` are the requests whose
descriptions `SetLocalDescription` has accepted. -/
structure Session where
  conductor : State
  todo : List Statement := []
  pending : List Request := []
  delivery : Option Delivery := none
  remoteOffer : Option String := none
  accepted : List Nat := []
  reports : List Report := []
  failures : List Nat := []
  issued : Nat := 0
  fault : Option (ThreadRole × Fault) := none

namespace Session

def issue (s : Session) (creation : Creation) : Session :=
  { s with
    pending := s.pending ++ [⟨s.issued, creation⟩]
    issued := s.issued + 1 }

/-- An accepted offer is in force until it is answered or rolled back. -/
def setRemote (s : Session) (type : SdpType) (sdp : String) : Session :=
  match type with
  | .offer => { s with remoteOffer := some sdp }
  | .answer | .rollback => { s with remoteOffer := none }
  | .pranswer => s

/-- What the library does with a statement that calls it. A rejected description changes
nothing. -/
def perform (s : Session) (accepts : Bool) : Statement → Session
  | .createOffer => s.issue .offer
  | .createAnswer offer => s.issue (.answer offer s.remoteOffer)
  | .setRemoteDescription type sdp => if accepts then s.setRemote type sdp else s
  | _ => s

def crash (s : Session) (thread : ThreadRole) (f : Fault) : Session :=
  { s with fault := some (thread, f) }

def call (s : Session) (c : Call) : Option Session :=
  if s.todo = [] then some { s with todo := c.body } else none

/-- The connection object is gone only after every request has been answered. -/
def waits (s : Session) (st : Statement) : Bool :=
  st = .teardown .destroyPeerObserver && (!s.pending.isEmpty || s.delivery.isSome)

/-- The next statement of the call in progress. -/
def execute (s : Session) (accepts : Bool) : Option Session :=
  match s.todo with
  | [] => none
  | st :: rest =>
    if s.waits st then none
    else match st.exec s.conductor with
      | .error f => some (s.crash .application f)
      | .ok (goesOn, c) =>
        some ({ s with conductor := c, todo := if goesOn then rest else [] }.perform accepts st)

def take (s : Session) (i : Nat) : Session := { s with pending := s.pending.eraseIdx i }

def onFailure (s : Session) (i : Nat) : Option Session :=
  match s.delivery, s.pending[i]? with
  | none, some r => some { s.take i with failures := s.failures ++ [r.id] }
  | _, _ => none

/-- `OnSuccess` up to its test for the connection. -/
def onSuccess (s : Session) (i : Nat) (sdp : String) : Option Session :=
  match s.delivery, s.pending[i]? with
  | none, some r =>
    if r.creation.possible then
      match s.conductor.peerObserver with
      | none => some ((s.take i).crash .signaling .nullPeerObserver)
      | some ⟨none⟩ => some (s.take i)
      | some ⟨some _⟩ => some { s.take i with delivery := some ⟨.tested, r, sdp⟩ }
    else none
  | _, _ => none

/-- The description is in force; an answer settles the remote offer. -/
def apply (s : Session) (accepts : Bool) (d : Delivery) : Session :=
  let s := { s with delivery := some { d with stage := .applied } }
  if accepts then
    { s with
      accepted := s.accepted ++ [d.request.id]
      remoteOffer := match d.request.creation with
        | .offer => s.remoteOffer
        | .answer _ _ => none }
  else s

/-- `OnSuccess`, its call of `SetLocalDescription`. -/
def setLocalDescription (s : Session) (accepts : Bool) : Option Session :=
  match s.delivery with
  | some ⟨.tested, r, sdp⟩ =>
    match s.conductor.connection with
    | .error f => some (s.crash .signaling f)
    | .ok _ =>
      if s.conductor.setSessionObserver then some (s.apply accepts ⟨.tested, r, sdp⟩)
      else some (s.crash .signaling .nullSetSessionObserver)
  | _ => none

/-- `OnSuccess`, its call of `on_success_`. -/
def report (s : Session) : Option Session :=
  match s.delivery with
  | some ⟨.applied, r, sdp⟩ => some { s with delivery := none, reports := s.reports ++ [⟨r, sdp⟩] }
  | _ => none

end Session

/-- The steps of the two threads. What the library decides is part of the step. -/
inductive Step where
  | call (c : Call)
  | execute (accepts : Bool)
  | onFailure (i : Nat)
  | onSuccess (i : Nat) (sdp : String)
  | setLocalDescription (accepts : Bool)
  | report
  deriving DecidableEq, Repr

/-- Nothing runs after a fault. -/
def Session.next (s : Session) (a : Step) : Option Session :=
  if s.fault.isSome then none
  else match a with
    | .call c => s.call c
    | .execute accepts => s.execute accepts
    | .onFailure i => s.onFailure i
    | .onSuccess i sdp => s.onSuccess i sdp
    | .setLocalDescription accepts => s.setLocalDescription accepts
    | .report => s.report

/-- The steps as rules, one for each way that a step can go. -/
inductive Move (s : Session) : Step → Session → Prop
  | call {c : Call} (hidle : s.todo = []) : Move s (.call c) { s with todo := c.body }
  | executeFaults {st : Statement} {rest : List Statement} {f : Fault} {accepts : Bool}
      (htodo : s.todo = st :: rest) (hexec : st.exec s.conductor = .error f) :
      Move s (.execute accepts) (s.crash .application f)
  | execute {st : Statement} {rest : List Statement} {goesOn : Bool} {c : State} {accepts : Bool}
      (htodo : s.todo = st :: rest) (hwaits : s.waits st = false)
      (hexec : st.exec s.conductor = .ok (goesOn, c)) :
      Move s (.execute accepts)
        ({ s with conductor := c, todo := if goesOn then rest else [] }.perform accepts st)
  | onFailure {i : Nat} {r : Request} (hidle : s.delivery = none) (hr : s.pending[i]? = some r) :
      Move s (.onFailure i) { s.take i with failures := s.failures ++ [r.id] }
  | onSuccessFaults {i : Nat} {sdp : String} {r : Request} (hidle : s.delivery = none)
      (hr : s.pending[i]? = some r) (hnull : s.conductor.peerObserver = none) :
      Move s (.onSuccess i sdp) ((s.take i).crash .signaling .nullPeerObserver)
  | onSuccessReturns {i : Nat} {sdp : String} {r : Request} (hidle : s.delivery = none)
      (hr : s.pending[i]? = some r) (hnone : s.conductor.peerObserver = some ⟨none⟩) :
      Move s (.onSuccess i sdp) (s.take i)
  | onSuccess {i : Nat} {sdp : String} {r : Request} {n : Nat} (hidle : s.delivery = none)
      (hr : s.pending[i]? = some r) (hpossible : r.creation.possible = true)
      (hsome : s.conductor.peerObserver = some ⟨some n⟩) :
      Move s (.onSuccess i sdp) { s.take i with delivery := some ⟨.tested, r, sdp⟩ }
  | setLocalFaults {r : Request} {sdp : String} {f : Fault} {accepts : Bool}
      (hd : s.delivery = some ⟨.tested, r, sdp⟩) (hnull : s.conductor.connection = .error f) :
      Move s (.setLocalDescription accepts) (s.crash .signaling f)
  | setLocalNull {r : Request} {sdp : String} {accepts : Bool}
      (hd : s.delivery = some ⟨.tested, r, sdp⟩) (hnull : s.conductor.setSessionObserver = false) :
      Move s (.setLocalDescription accepts) (s.crash .signaling .nullSetSessionObserver)
  | setLocal {r : Request} {sdp : String} {n : Nat} {accepts : Bool}
      (hd : s.delivery = some ⟨.tested, r, sdp⟩) (hsome : s.conductor.connection = .ok n) :
      Move s (.setLocalDescription accepts) (s.apply accepts ⟨.tested, r, sdp⟩)
  | report {r : Request} {sdp : String} (hd : s.delivery = some ⟨.applied, r, sdp⟩) :
      Move s .report { s with delivery := none, reports := s.reports ++ [⟨r, sdp⟩] }

theorem move_of_next {s t : Session} {a : Step} (h : s.next a = some t) :
    s.fault = none ∧ Move s a t := by
  unfold Session.next at h
  split at h
  · cases h
  · rename_i hfault
    refine ⟨by simpa using hfault, ?_⟩
    cases a with
    | call c =>
      dsimp only [Session.call] at h
      split at h
      · rename_i hidle
        cases h
        exact .call hidle
      · cases h
    | execute accepts =>
      dsimp only [Session.execute] at h
      split at h
      · cases h
      · rename_i st rest htodo
        split at h
        · cases h
        · rename_i hwaits
          split at h
          · rename_i f hexec
            cases h
            exact .executeFaults htodo hexec
          · rename_i goesOn c hexec
            cases h
            exact .execute htodo (by simpa using hwaits) hexec
    | onFailure i =>
      dsimp only [Session.onFailure] at h
      split at h
      · rename_i r hidle hr
        cases h
        exact .onFailure hidle hr
      · cases h
    | onSuccess i sdp =>
      dsimp only [Session.onSuccess] at h
      split at h
      · rename_i r hidle hr
        split at h
        · rename_i hpossible
          split at h
          · rename_i hnull
            cases h
            exact .onSuccessFaults hidle hr hnull
          · rename_i hnone
            cases h
            exact .onSuccessReturns hidle hr hnone
          · rename_i n hsome
            cases h
            exact .onSuccess hidle hr hpossible hsome
        · cases h
      · cases h
    | setLocalDescription accepts =>
      dsimp only [Session.setLocalDescription] at h
      split at h
      · rename_i r sdp hd
        split at h
        · rename_i f hnull
          cases h
          exact .setLocalFaults hd hnull
        · rename_i n hsome
          split at h
          · cases h
            exact .setLocal hd hsome
          · rename_i hset
            cases h
            exact .setLocalNull hd (by simpa using hset)
      · cases h
    | report =>
      dsimp only [Session.report] at h
      split at h
      · rename_i r sdp hd
        cases h
        exact .report hd
      · cases h

end Spitfire.Conductor
