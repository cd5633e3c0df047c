import Spitfire.Conductor.Operations
import Spitfire.Transition.Fallible
import Spitfire.Transition.Run

/-! Channels opened from both sides at once. The application's thread looks a label up,
waits for the signaling thread to make the channel, registers an observer and only then
inserts it; what the signaling thread inserts in the meantime is overwritten. -/
namespace Spitfire.Conductor
open Transition

/-- Where the application's thread stands in `CreateDataChannel` or `CloseDataChannel`. -/
inductive Caller where
  | idle
  | waiting (label : Label)
  | created (channel : Channel)
  | observing (channel : Channel)
  | found (label : Label)
  | unregistered (label : Label)
  deriving DecidableEq, Repr

/-- Where the signaling thread stands in `HandleDataChannel`. -/
inductive Handler where
  | idle
  | absent (channel : Channel)
  | observing (channel : Channel)
  deriving DecidableEq, Repr

/-- What is queued on the signaling thread: an announced channel, or the creation that the
application's thread is blocked on. -/
inductive Task where
  | announced (channel : Channel)
  | create
  deriving DecidableEq, Repr

/-- `issued` numbers the channels in the order in which they come to be. -/
structure Race where
  conductor : State
  caller : Caller := .idle
  handler : Handler := .idle
  queue : List Task := []
  issued : Nat := 0

inductive RaceStep where
  | createDataChannel (label : Label) (config : DataChannelInit)
  | registerCreated
  | insertCreated
  | closeDataChannel (label : Label)
  | unregisterFound
  | eraseFound
  | announce (label : Label)
  | runCreate
  | handleDataChannel
  | registerAnnounced
  | insertAnnounced
  deriving DecidableEq, Repr

namespace Race

/-- `RegisterObserver` of an observer that is not yet in the map. -/
def observe (s : Race) (ch : Channel) : State := s.conductor.record [.registerObserver ch.id]

/-- `data_observers_[label] = std::move(observer)`. -/
def insert (s : Race) (ch : Channel) : State := s.conductor.assign ch.label ⟨some ch, true⟩

/-- The connection is asked for a channel, and its caller waits. -/
def ask (s : Race) (l : Label) (config : DataChannelInit) : Race :=
  { s with
    conductor := s.conductor.record [.createDataChannel l config]
    caller := .waiting l
    queue := s.queue ++ [.create] }

/-- One access to the map or one call of the library is one step. -/
def next (s : Race) : RaceStep → Option Race
  | .createDataChannel l config => match s.caller, s.conductor.peerObserver with
    | .idle, some o =>
      if o.peerConnection.isSome ∧ s.conductor.dataObservers.lookup l = none then
        some (s.ask l config)
      else some s
    | _, _ => none
  | .registerCreated => match s.caller with
    | .created ch => some { s with conductor := s.observe ch, caller := .observing ch }
    | _ => none
  | .insertCreated => match s.caller with
    | .observing ch => some { s with conductor := s.insert ch, caller := .idle }
    | _ => none
  | .closeDataChannel l => match s.caller with
    | .idle =>
      if s.conductor.dataObservers.lookup l = none then some s
      else some { s with caller := .found l }
    | _ => none
  | .unregisterFound => match s.caller with
    | .found l => match unregisterEntry s.conductor l with
      | .ok c => some { s with conductor := c, caller := .unregistered l }
      | .error _ => none
    | _ => none
  | .eraseFound => match s.caller with
    | .unregistered l => some { s with conductor := s.conductor.erase l, caller := .idle }
    | _ => none
  | .announce l => some { s with
      queue := s.queue ++ [.announced ⟨s.issued, l⟩]
      issued := s.issued + 1 }
  | .runCreate => match s.caller, s.handler, s.queue with
    | .waiting l, .idle, .create :: queue => some { s with
        caller := .created ⟨s.issued, l⟩
        queue := queue
        issued := s.issued + 1 }
    | _, _, _ => none
  | .handleDataChannel => match s.handler, s.queue with
    | .idle, .announced ch :: queue =>
      if s.conductor.dataObservers.lookup ch.label = none then
        some { s with handler := .absent ch, queue := queue }
      else some { s with queue := queue }
    | _, _ => none
  | .registerAnnounced => match s.handler with
    | .absent ch => some { s with conductor := s.observe ch, handler := .observing ch }
    | _ => none
  | .insertAnnounced => match s.handler with
    | .observing ch => some { s with conductor := s.insert ch, handler := .idle }
    | _ => none

end Race

/-- The steps as rules. -/
inductive RaceMove (s : Race) : RaceStep → Race → Prop
  | returns {a : RaceStep} : RaceMove s a s
  | createDataChannel {l : Label} {config : DataChannelInit} (hcaller : s.caller = .idle)
      (hfree : s.conductor.dataObservers.lookup l = none) :
      RaceMove s (.createDataChannel l config) (s.ask l config)
  | registerCreated {ch : Channel} (hcaller : s.caller = .created ch) :
      RaceMove s .registerCreated { s with conductor := s.observe ch, caller := .observing ch }
  | insertCreated {ch : Channel} (hcaller : s.caller = .observing ch) :
      RaceMove s .insertCreated { s with conductor := s.insert ch, caller := .idle }
  | closeDataChannel {l : Label} (hcaller : s.caller = .idle)
      (hfound : s.conductor.dataObservers.lookup l ≠ none) :
      RaceMove s (.closeDataChannel l) { s with caller := .found l }
  | unregisterFound {l : Label} {c : State} (hcaller : s.caller = .found l)
      (hexec : unregisterEntry s.conductor l = .ok c) :
      RaceMove s .unregisterFound { s with conductor := c, caller := .unregistered l }
  | eraseFound {l : Label} (hcaller : s.caller = .unregistered l) :
      RaceMove s .eraseFound { s with conductor := s.conductor.erase l, caller := .idle }
  | announce {l : Label} : RaceMove s (.announce l)
      { s with queue := s.queue ++ [.announced ⟨s.issued, l⟩], issued := s.issued + 1 }
  | runCreate {l : Label} {queue : List Task} (hcaller : s.caller = .waiting l)
      (hhandler : s.handler = .idle) (hqueue : s.queue = .create :: queue) :
      RaceMove s .runCreate
        { s with caller := .created ⟨s.issued, l⟩, queue := queue, issued := s.issued + 1 }
  | ignore {ch : Channel} {queue : List Task} (hqueue : s.queue = .announced ch :: queue) :
      RaceMove s .handleDataChannel { s with queue := queue }
  | handleDataChannel {ch : Channel} {queue : List Task} (hhandler : s.handler = .idle)
      (hqueue : s.queue = .announced ch :: queue)
      (hfree : s.conductor.dataObservers.lookup ch.label = none) :
      RaceMove s .handleDataChannel { s with handler := .absent ch, queue := queue }
  | registerAnnounced {ch : Channel} (hhandler : s.handler = .absent ch) :
      RaceMove s .registerAnnounced { s with conductor := s.observe ch, handler := .observing ch }
  | insertAnnounced {ch : Channel} (hhandler : s.handler = .observing ch) :
      RaceMove s .insertAnnounced { s with conductor := s.insert ch, handler := .idle }

theorem raceMove_of_next {s t : Race} {a : RaceStep} (h : s.next a = some t) : RaceMove s a t := by
  cases a with
  | createDataChannel l config =>
    dsimp only [Race.next] at h
    split at h
    · rename_i hcaller _
      split at h
      · rename_i hfree
        cases h
        exact .createDataChannel hcaller hfree.2
      · cases h
        exact .returns
    · cases h
  | registerCreated =>
    dsimp only [Race.next] at h
    split at h
    · rename_i hcaller
      cases h
      exact .registerCreated hcaller
    · cases h
  | insertCreated =>
    dsimp only [Race.next] at h
    split at h
    · rename_i hcaller
      cases h
      exact .insertCreated hcaller
    · cases h
  | closeDataChannel l =>
    dsimp only [Race.next] at h
    split at h
    · rename_i hcaller
      split at h
      · cases h
        exact .returns
      · rename_i hfound
        cases h
        exact .closeDataChannel hcaller hfound
    · cases h
  | unregisterFound =>
    dsimp only [Race.next] at h
    split at h
    · rename_i hcaller
      split at h
      · rename_i hexec
        cases h
        exact .unregisterFound hcaller hexec
      · cases h
    · cases h
  | eraseFound =>
    dsimp only [Race.next] at h
    split at h
    · rename_i hcaller
      cases h
      exact .eraseFound hcaller
    · cases h
  | announce l =>
    cases h
    exact .announce
  | runCreate =>
    dsimp only [Race.next] at h
    split at h
    · rename_i hcaller hhandler hqueue
      cases h
      exact .runCreate hcaller hhandler hqueue
    · cases h
  | handleDataChannel =>
    dsimp only [Race.next] at h
    split at h
    · rename_i hhandler hqueue
      split at h
      · rename_i hfree
        cases h
        exact .handleDataChannel hhandler hqueue hfree
      · cases h
        exact .ignore hqueue
    · cases h
  | registerAnnounced =>
    dsimp only [Race.next] at h
    split at h
    · rename_i hhandler
      cases h
      exact .registerAnnounced hhandler
    · cases h
  | insertAnnounced =>
    dsimp only [Race.next] at h
    split at h
    · rename_i hhandler
      cases h
      exact .insertAnnounced hhandler
    · cases h

section
variable {s : Race} (hcaller : s.caller = .idle) (hhandler : s.handler = .idle)
include hcaller hhandler

/-- Undisturbed, the steps of `CreateDataChannel` are the operation. -/
theorem create_alone (hqueue : s.queue = []) {n : Nat}
    (hpeer : s.conductor.peerObserver = some ⟨some n⟩) {l : Label}
    (hfree : s.conductor.dataObservers.lookup l = none) (config : DataChannelInit) : ∃ t,
    run Race.next s
      [.createDataChannel l config, .runCreate, .registerCreated, .insertCreated] = some t ∧
      createDataChannel l config (some ⟨s.issued, l⟩) s.conductor = .ok ((), t.conductor) := by
  refine ⟨{ s with
    conductor := ((s.conductor.record [.createDataChannel l config]).record
      [.registerObserver s.issued]).assign l ⟨some ⟨s.issued, l⟩, true⟩
    issued := s.issued + 1 }, ?_, ?_⟩
  · simp [run, Race.next, Race.ask, Race.observe, Race.insert, hcaller, hhandler, hqueue, hpeer,
      hfree]
  · simp only [createDataChannel, withConnection, hpeer, hfree, if_true]
    rfl

/-- Undisturbed, the steps of `HandleDataChannel` are the operation. -/
theorem handle_alone {ch : Channel} {queue : List Task} (hqueue : s.queue = .announced ch :: queue)
    (hfree : s.conductor.dataObservers.lookup ch.label = none) : ∃ t,
    run Race.next s [.handleDataChannel, .registerAnnounced, .insertAnnounced] = some t ∧
      handleDataChannel ch s.conductor = .ok t.conductor := by
  refine ⟨{ s with
    conductor := (s.conductor.record [.registerObserver ch.id]).assign ch.label ⟨some ch, true⟩
    queue := queue }, ?_, ?_⟩
  · simp [run, Race.next, Race.observe, Race.insert, hcaller, hhandler, hqueue, hfree]
  · rw [handleDataChannel, if_pos hfree]
    rfl

/-- Undisturbed, the steps of `CloseDataChannel` are the operation. -/
theorem close_alone {l : Label} (hfound : s.conductor.dataObservers.lookup l ≠ none) {c : State}
    (hclose : closeDataChannel l s.conductor = .ok c) :
    run Race.next s [.closeDataChannel l, .unregisterFound, .eraseFound] =
      some { s with conductor := c } := by
  obtain ⟨o, ho⟩ := Option.ne_none_iff_exists'.mp hfound
  rw [closeDataChannel, ho] at hclose
  obtain ⟨c₁, hunregister, herase⟩ := Transition.bind_eq_ok.mp hclose
  cases herase
  simp [run, Race.next, hcaller, hhandler, ho, hunregister]

end

end Spitfire.Conductor
