import Spitfire.Conductor.Operations
import Spitfire.Conductor.Teardown

/-! What an initialization that fails leaves behind. Its error path is the whole teardown,
which also releases what only the constructor makes. -/
namespace Spitfire.Conductor
open Transition

/-- An object goes, and nothing is called. -/
def Event.isRelease : Event → Bool
  | .destroyConnection | .releaseFactory | .releaseSocketFactory | .releaseNetworkManager
  | .releaseRelayPortFactory | .destroyThread _ => true
  | _ => false

/-- What an initialization does before it succeeds or is undone. -/
def Event.initializes (servers : List IceServer) (e : Event) : Bool :=
  e.isRelease || e = .createPeerConnection servers

/-- An object makes way for the next one. The connection is not counted: its end is noticed. -/
def Event.makesWay (e : Event) : Bool :=
  e.isRelease && e ≠ .destroyConnection

theorem initializes_of_makesWay {e : Event} (he : e.makesWay = true) (servers : List IceServer) :
    e.initializes servers = true := by
  rw [Event.initializes, (Bool.and_eq_true_iff.mp he).1, Bool.true_or]

theorem letGo_makesWay {e : Event} (he : e.makesWay = true) (held : Option Nat) :
    ∀ e' ∈ letGo held e, e'.makesWay = true := by
  intro e' he'
  rwa [(mem_letGo.mp he').2]

theorem createFactory_log (outcome : Outcome) (s : State) : ∃ es,
    (createFactory outcome (createThreads s)).log = s.log ++ es ∧
      ∀ e ∈ es, e.makesWay = true := by
  refine ⟨letGo s.networkThread (.destroyThread .network) ++
    (letGo s.workerThread (.destroyThread .worker) ++
      (letGo s.signalingThread (.destroyThread .signaling) ++
        letGo s.pcFactory .releaseFactory)), ?_, ?_⟩
  · simp only [createFactory, createThreads, List.append_assoc]
  · simp only [List.forall_mem_append]
    exact ⟨letGo_makesWay rfl _, letGo_makesWay rfl _, letGo_makesWay rfl _,
      letGo_makesWay rfl _⟩

theorem createManagers_log (s : State) : ∃ es,
    (createManagers s).log = s.log ++ es ∧ ∀ e ∈ es, e.makesWay = true := by
  refine ⟨letGo s.networkManager .releaseNetworkManager ++
    (letGo s.socketFactory .releaseSocketFactory ++
      letGo s.relayPortFactory .releaseRelayPortFactory), ?_, ?_⟩
  · simp only [createManagers, List.append_assoc]
  · simp only [List.forall_mem_append]
    exact ⟨letGo_makesWay rfl _, letGo_makesWay rfl _, letGo_makesWay rfl _⟩

theorem createPeerConnection_initializes {outcome : Outcome} {b : Bool} {s t : State}
    (h : createPeerConnection outcome (createManagers s) = .ok (b, t)) :
    b = true ∧ t.dataObservers = s.dataObservers ∧ t.currentThread = s.currentThread ∧
      (∃ es, t.log = s.log ++ es ∧ ∀ e ∈ es, e.initializes s.servers = true) ∧
      ∃ n, t.peerObserver = some ⟨if outcome = .succeeds then some n else none⟩ := by
  obtain ⟨es, hlog, hes⟩ := createManagers_log s
  unfold createPeerConnection at h
  dsimp only at h
  split at h
  · cases h
  · rename_i o _
    cases h
    refine ⟨rfl, rfl, rfl, ⟨es ++
      .createPeerConnection s.servers :: letGo o.peerConnection .destroyConnection,
      ?_, ?_⟩, _, rfl⟩
    · simp only [State.record, hlog, List.append_assoc, List.singleton_append]
      rfl
    · simp only [List.forall_mem_append, List.forall_mem_cons]
      refine ⟨fun e he => initializes_of_makesWay (hes e he) _, by simp [Event.initializes], ?_⟩
      intro e he
      rw [(mem_letGo.mp he).2]
      rfl

/-- An initialization returns true with what it has made, and false only through the
teardown. What it has made leaves the channels alone. -/
theorem initializePeerConnection_ok {outcome : Outcome} {order : List Label} {b : Bool}
    {s t : State} (h : initializePeerConnection outcome order s = .ok (b, t)) :
    ∃ s', s'.dataObservers = s.dataObservers ∧ s'.currentThread = true ∧
      (∃ es, s'.log = s.log ++ es ∧ ∀ e ∈ es, e.initializes s.servers = true) ∧
      (b = true ∧ outcome = .succeeds ∧ s'.peerObserver.isSome = true ∧ t = s' ∨
        b = false ∧ outcome ≠ .succeeds ∧ deletePeerConnection order s' = .ok t) := by
  have hteardown {s' : State} (h' : (do return (false, ← deletePeerConnection order s')) =
      (.ok (b, t) : Except Fault (Bool × State))) :
      b = false ∧ deletePeerConnection order s' = .ok t := by
    obtain ⟨t', ht', hpair⟩ := bind_eq_ok.mp h'
    cases hpair
    exact ⟨rfl, ht'⟩
  obtain ⟨es, hlog, hes⟩ := createFactory_log outcome s
  replace hes : ∀ e ∈ es, e.initializes s.servers = true :=
    fun e he => initializes_of_makesWay (hes e he) _
  unfold initializePeerConnection at h
  dsimp only at h
  split at h
  · obtain ⟨⟨created, s'⟩, hcreate, h⟩ := bind_eq_ok.mp h
    obtain ⟨hcreated, hmap, hcurrent, ⟨es', hlog', hes'⟩, n, hpeer⟩ :=
      createPeerConnection_initializes hcreate
    refine ⟨s', hmap, hcurrent, ⟨es ++ es', ?_, ?_⟩, ?_⟩
    · rw [hlog', hlog, List.append_assoc]
    · exact List.forall_mem_append.mpr ⟨hes, hes'⟩
    dsimp only at h
    split at h
    · rename_i hconnected
      cases h
      refine Or.inl ⟨rfl, ?_, by simp [hpeer], rfl⟩
      by_contra hfails
      simp [hpeer, connectionOf, hfails] at hconnected
    · rename_i hunconnected
      obtain ⟨hb, ht⟩ := hteardown h
      refine Or.inr ⟨hb, ?_, ht⟩
      rintro rfl
      simp [hcreated, hpeer, connectionOf] at hunconnected
  · rename_i hfactory
    obtain ⟨hb, ht⟩ := hteardown h
    refine ⟨createFactory outcome (createThreads s), rfl, rfl, ⟨es, hlog, hes⟩,
      Or.inr ⟨hb, ?_, ht⟩⟩
    rintro rfl
    exact hfactory rfl

theorem initializePeerConnection_false {outcome : Outcome} {order : List Label} {s t : State}
    (h : initializePeerConnection outcome order s = .ok (false, t)) :
    ∃ s', deletePeerConnection order s' = .ok t := by
  obtain ⟨s', _, _, _, ⟨hb, _⟩ | ⟨_, _, hteardown⟩⟩ := initializePeerConnection_ok h
  · cases hb
  · exact ⟨s', hteardown⟩

/-- Before the first connection both failures do come back as false. -/
theorem initializePeerConnection_fails {outcome : Outcome} (hout : outcome ≠ .succeeds) {s : State}
    (hobserver : s.peerObserver.isSome = true) :
    ∃ t, initializePeerConnection outcome [] s = .ok (false, t) := by
  -- With the observer a constructor, both attempts evaluate.
  obtain ⟨_ | o⟩ := s
  · cases hobserver
  · cases outcome with
    | factoryFails => exact ⟨_, rfl⟩
    | connectionFails => exact ⟨_, rfl⟩
    | succeeds => exact (hout rfl).elim

/-- The calls that a program may make after a failed initialization, with what the
library underneath answers. -/
inductive LaterCall where
  | createOffer
  | onOfferReply (parses : Bool) (type sdp : String)
  | onOfferRequest (parses : Bool) (sdp : String)
  | addIceCandidate (parses applied : Bool) (candidate : CandidateText)
  | createDataChannel (label : Label) (config : DataChannelInit) (channel : Option Channel)
  | initializePeerConnection (outcome : Outcome) (order : List Label)
  deriving DecidableEq, Repr

/-- Only how the call ends is kept. -/
def LaterCall.exec (call : LaterCall) (s : State) : Except Fault State :=
  match call with
  | createOffer => (Conductor.createOffer s).map Prod.snd
  | onOfferReply parses type sdp => (Conductor.onOfferReply parses type sdp s).map Prod.snd
  | onOfferRequest parses sdp => (Conductor.onOfferRequest parses sdp s).map Prod.snd
  | addIceCandidate parses applied candidate =>
    (Conductor.addIceCandidate parses applied candidate s).map Prod.snd
  | createDataChannel label config channel =>
    (Conductor.createDataChannel label config channel s).map Prod.snd
  | initializePeerConnection outcome order =>
    (Conductor.initializePeerConnection outcome order s).map Prod.snd

/-- What an attempt returns and the calls that it makes. What it replaces does not count. -/
def attempt (outcome : Outcome) (order : List Label) (s : State) :
    Except Fault (Bool × List Event) :=
  (initializePeerConnection outcome order s).map fun r =>
    (r.1, (r.2.log.drop s.log.length).filter fun e => !e.isRelease)

/-- The failure can be recovered from: what the constructor made and the configured
servers are still there, no later call goes through a null peer observer, and another
attempt is like the first. -/
structure Recoverable (before after : State) : Prop where
  peerObserver : after.peerObserver = before.peerObserver
  sessionObserver : after.sessionObserver = before.sessionObserver
  setSessionObserver : after.setSessionObserver = before.setSessionObserver
  servers : after.servers = before.servers
  later : ∀ call : LaterCall, call.exec after ≠ .error .nullPeerObserver
  retry : ∀ outcome order, attempt outcome order after = attempt outcome order before

/-- Whatever the state before and whichever stage fails: no initialization that returns
false can be recovered from. -/
theorem failed_initialization_unrecoverable (outcome : Outcome) (order : List Label) (s : State) :
    ¬ ∃ t, initializePeerConnection outcome order s = .ok (false, t) ∧ Recoverable s t := by
  rintro ⟨t, hfalse, hrecoverable⟩
  obtain ⟨s', hteardown⟩ := initializePeerConnection_false hfalse
  obtain ⟨hnull, _⟩ := deletePeerConnection_ok hteardown
  apply hrecoverable.later .createOffer
  simp only [LaterCall.exec, createOffer, withConnection, hnull]
  rfl

/-- The library refuses the one configured server. The attempt returns false, and after it
an offer and even a second attempt that nothing else stops go through a null pointer. -/
theorem initialization_not_retried : ∃ t,
    initializePeerConnection .connectionFails [] (addServerConfig ⟨"stun:", "", ""⟩ .constructed) =
      .ok (false, t) ∧ t.peerObserver = none ∧ t.sessionObserver = false ∧
      t.setSessionObserver = false ∧ t.servers = [] ∧ createOffer t = .error .nullPeerObserver ∧
      initializePeerConnection .succeeds [] t = .error .nullPeerObserver :=
  ⟨_, rfl, rfl, rfl, rfl, rfl, rfl, rfl⟩

end Spitfire.Conductor
