import Spitfire.Conductor.Operations
import Spitfire.Transition.Fallible
import Spitfire.Transition.Run

/-! Handlers that call back. Closing a channel or the connection may raise state changes
before it returns, their handlers may call any method again, and so the calls in progress
form a stack. -/
namespace Spitfire.Conductor
open Transition

/-- A call in progress: a handler of the user, `CloseDataChannel` inside `Close()` of its
channel, and `DeletePeerConnection` inside `Close()` of the connection or of the channel that
its loop has reached. Observers are named by their channels. -/
inductive Frame where
  | handler
  | close (label : Label) (observer : Nat)
  | closeConnection
  | loop (label : Label) (observer : Nat) (rest : List Label)
  deriving DecidableEq, Repr

def Frame.isLoop : Frame → Bool
  | loop _ _ _ => true
  | _ => false

/-- What must never happen. -/
inductive Violation where
  | usedAfterErase (label : Label)
  | changedWhileIterating (label : Label)
  | nullConductor
  deriving DecidableEq, Repr

/-- The public methods that a handler may call. A channel that is asked for may be refused. -/
inductive Method where
  | closeDataChannel (label : Label)
  | getDataChannelInfo (label : Label)
  | getDataChannelState (label : Label)
  | dataChannelSendText (label : Label) (text : List UInt8)
  | createDataChannel (label : Label) (config : DataChannelInit) (made : Bool)
  deriving DecidableEq, Repr

/-- `attached` says that `conductor_` is not null, and `order` is the one in which the teardown
goes through the map. -/
structure SpitfireRtc where
  conductor : State
  attached : Bool := true
  stack : List Frame := []
  order : List Label := []
  issued : Nat := 0
  violation : Option Violation := none
  fault : Option Fault := none

namespace SpitfireRtc

def violate (s : SpitfireRtc) (v : Violation) : SpitfireRtc := { s with violation := some v }

/-- The end of a call that raises no callback. -/
def complete (s : SpitfireRtc) : Except Fault State → SpitfireRtc
  | .ok c => { s with conductor := c }
  | .error f => { s with fault := some f }

/-- Whether the loop of the teardown is in progress. -/
def iterating (s : SpitfireRtc) : Bool := s.stack.any Frame.isLoop

/-- `UnregisterObserver` up to and into `Close()`. -/
def enterClose (s : SpitfireRtc) (o : DataChannelObserver) (frames : Nat → List Frame) :
    SpitfireRtc :=
  match o.dataChannel with
  | none => { s with fault := some .nullDataChannel }
  | some ch => { s with conductor := s.conductor.record [.close ch.id], stack := frames ch.id }

def closeDataChannel (s : SpitfireRtc) (l : Label) : SpitfireRtc :=
  match s.conductor.dataObservers.lookup l with
  | none => s
  | some o => s.enterClose o fun id => .close l id :: s.stack

def createDataChannel (s : SpitfireRtc) (l : Label) (config : DataChannelInit) (made : Bool) :
    SpitfireRtc :=
  let channel := if made then some ⟨s.issued, l⟩ else none
  match Conductor.createDataChannel l config channel s.conductor with
  | .error f => { s with fault := some f }
  | .ok (_, c) =>
    if s.iterating ∧ c.dataObservers.lookup l ≠ s.conductor.dataObservers.lookup l then
      s.violate (.changedWhileIterating l)
    else { s with conductor := c, issued := s.issued + 1 }

/-- Every method goes through `conductor_`. -/
def call (s : SpitfireRtc) (m : Method) : SpitfireRtc :=
  if s.attached then
    match m with
    | .closeDataChannel l => s.closeDataChannel l
    | .getDataChannelInfo l | .getDataChannelState l =>
      s.complete ((channelOf l s.conductor).map fun _ => s.conductor)
    | .dataChannelSendText l text => s.complete (sendToDataChannel l ⟨text, false⟩ s.conductor)
    | .createDataChannel l config made => s.createDataChannel l config made
  else s.violate .nullConductor

/-- The observer that a call in progress still has to touch, if it is still there. -/
def entryOf (c : State) (l : Label) (observer : Nat) : Option DataChannelObserver :=
  (c.dataObservers.lookup l).filter fun o => o.dataChannel.map Channel.id = some observer

/-- The rest of `UnregisterObserver`. -/
def leaveClose (c : State) (l : Label) (o : DataChannelObserver) (observer : Nat) : State :=
  (c.record [.unregisterObserver observer]).update l { o with registered := false }

/-- `Close()` returns to `CloseDataChannel`. -/
def channelClosed (s : SpitfireRtc) : Option SpitfireRtc :=
  match s.stack with
  | .close l observer :: rest =>
    match entryOf s.conductor l observer with
    | none => some (s.violate (.usedAfterErase l))
    | some o =>
      if s.iterating then some (s.violate (.changedWhileIterating l))
      else some { s with
        conductor := (leaveClose s.conductor l o observer).erase l
        stack := rest }
  | _ => none

/-- The loop of the teardown goes on to its next element, or the teardown ends. -/
def walk (s : SpitfireRtc) : List Label → SpitfireRtc
  | [] =>
    { s.complete ((.clearObservers s.order :: Teardown.departures).foldlM (fun c t => t.exec c)
        s.conductor) with stack := [] }
  | l :: rest =>
    match s.conductor.dataObservers.lookup l with
    | none => s.violate (.usedAfterErase l)
    | some o => s.enterClose o fun id => [.loop l id rest]

/-- `Close()` returns to the loop of the teardown. -/
def elementClosed (s : SpitfireRtc) : Option SpitfireRtc :=
  match s.stack with
  | [.loop l observer rest] =>
    match entryOf s.conductor l observer with
    | none => some (s.violate (.usedAfterErase l))
    | some o => some ({ s with conductor := leaveClose s.conductor l o observer }.walk rest)
  | _ => none

/-- `Close()` of the connection returns, and the teardown goes on to its loop. -/
def connectionClosed (s : SpitfireRtc) (order : List Label) : Option SpitfireRtc :=
  match s.stack with
  | [.closeConnection] =>
    if order.Perm s.conductor.dataObservers.keys then
      match Teardown.releases.foldlM (fun c t => t.exec c) s.conductor with
      | .ok c => some ({ s with conductor := c, order := order }.walk order)
      | .error f => some { s with fault := some f }
    else none
  | _ => none

/-- `DeletePeerConnection` up to and into `Close()` of the connection. -/
def enterTeardown (s : SpitfireRtc) : Option SpitfireRtc :=
  match s.stack with
  | [] => some
      { s.complete (Teardown.closeConnection.exec s.conductor) with stack := [.closeConnection] }
  | _ => none

def deletePeerConnection (s : SpitfireRtc) : Option SpitfireRtc :=
  if s.attached then s.enterTeardown else none

/-- The finalizer: `conductor_` is null before the conductor is deleted. -/
def dispose (s : SpitfireRtc) : Option SpitfireRtc :=
  if s.attached then { s with attached := false }.enterTeardown else none

/-- A registered observer is called and calls its handler. -/
def enterHandler (s : SpitfireRtc) (l : Label) : Option SpitfireRtc :=
  match s.conductor.dataObservers.lookup l with
  | some o => if o.registered then some { s with stack := .handler :: s.stack } else none
  | none => none

/-- The innermost call is inside a `Close()` of the library. -/
def raises (s : SpitfireRtc) : Bool :=
  match s.stack with
  | .close _ _ :: _ | .loop _ _ _ :: _ => true
  | .closeConnection :: _ => (connectionOf s.conductor.peerObserver).isSome
  | _ => false

end SpitfireRtc

/-- The steps of one thread. The library decides when it raises an event, the handlers
what they call. -/
inductive StackStep where
  | event (label : Label)
  | raise (label : Label)
  | call (m : Method)
  | handlerReturns
  | channelClosed
  | dispose
  | deletePeerConnection
  | connectionClosed (order : List Label)
  | elementClosed
  deriving DecidableEq, Repr

def SpitfireRtc.next (s : SpitfireRtc) (a : StackStep) : Option SpitfireRtc :=
  if s.violation.isSome || s.fault.isSome then none
  else match a with
    | .event l => if s.stack = [] then s.enterHandler l else none
    | .raise l => if s.raises then s.enterHandler l else none
    | .call m => match s.stack with
      | [] | .handler :: _ => some (s.call m)
      | _ => none
    | .handlerReturns => match s.stack with
      | .handler :: rest => some { s with stack := rest }
      | _ => none
    | .channelClosed => s.channelClosed
    | .dispose => s.dispose
    | .deletePeerConnection => s.deletePeerConnection
    | .connectionClosed order => s.connectionClosed order
    | .elementClosed => s.elementClosed

/-- The two halves of `UnregisterObserver`, with nothing in between, are the whole. -/
theorem unregisterEntry_eq {c : State} {l : Label} {o : DataChannelObserver} {ch : Channel}
    (ho : c.dataObservers.lookup l = some o) (hch : o.dataChannel = some ch) :
    SpitfireRtc.entryOf (c.record [.close ch.id]) l ch.id = some o ∧ unregisterEntry c l =
      .ok (SpitfireRtc.leaveClose (c.record [.close ch.id]) l o ch.id) := by
  constructor
  · simp [SpitfireRtc.entryOf, State.record, ho, hch]
  · obtain ⟨channel, registered⟩ := o
    cases hch
    simp only [unregisterEntry, ho, SpitfireRtc.leaveClose, State.record, List.append_assoc]
    rfl

/-- An entry that could be unregistered has a channel. -/
theorem channel_of_unregisterEntry {c c' : State} {l : Label} {o : DataChannelObserver}
    (ho : c.dataObservers.lookup l = some o) (h : unregisterEntry c l = .ok c') :
    ∃ ch, o.dataChannel = some ch := by
  rw [unregisterEntry, ho] at h
  obtain ⟨channel, registered⟩ := o
  cases channel with
  | none => cases h
  | some ch => exact ⟨ch, rfl⟩

section
variable {s : SpitfireRtc} (hviolation : s.violation = none) (hfault : s.fault = none)
include hviolation hfault

/-- With handlers that call nothing back, closing a channel is the operation. -/
theorem close_undisturbed (hattached : s.attached = true) (hstack : s.stack = []) {l : Label}
    (hfound : s.conductor.dataObservers.lookup l ≠ none) {c : State}
    (hclose : closeDataChannel l s.conductor = .ok c) :
    run SpitfireRtc.next s [.call (.closeDataChannel l), .channelClosed] =
      some { s with conductor := c } := by
  obtain ⟨o, ho⟩ := Option.ne_none_iff_exists'.mp hfound
  rw [closeDataChannel, ho] at hclose
  obtain ⟨c₁, hunregister, herase⟩ := bind_eq_ok.mp hclose
  cases herase
  obtain ⟨ch, hch⟩ := channel_of_unregisterEntry ho hunregister
  obtain ⟨hentry, heq⟩ := unregisterEntry_eq ho hch
  obtain rfl := Except.ok.inj (heq.symm.trans hunregister)
  simp [run, SpitfireRtc.next, SpitfireRtc.call, SpitfireRtc.closeDataChannel,
    SpitfireRtc.enterClose, SpitfireRtc.channelClosed, SpitfireRtc.iterating, Frame.isLoop,
    hviolation, hfault, hattached, hstack, ho, hch, hentry]

/-- With handlers that call nothing back, the loop is the loop of the operation. -/
theorem walk_undisturbed {labels : List Label}
    (hlabels : ∀ l ∈ labels, s.conductor.dataObservers.lookup l ≠ none) {c c₁ : State}
    (hloop : labels.foldlM unregisterEntry s.conductor = .ok c₁)
    (hend : (.clearObservers s.order :: Teardown.departures).foldlM (fun c t => t.exec c) c₁ =
      .ok c) :
    run SpitfireRtc.next (s.walk labels) (List.replicate labels.length .elementClosed) =
      some { s with conductor := c, stack := [] } := by
  induction labels generalizing s with
  | nil =>
    cases hloop
    rw [SpitfireRtc.walk, hend]
    rfl
  | cons l rest ih =>
    obtain ⟨o, ho⟩ := Option.ne_none_iff_exists'.mp (hlabels l (by simp))
    rw [List.foldlM_cons] at hloop
    obtain ⟨c₂, hunregister, hloop⟩ := bind_eq_ok.mp hloop
    obtain ⟨ch, hch⟩ := channel_of_unregisterEntry ho hunregister
    obtain ⟨hentry, heq⟩ := unregisterEntry_eq ho hch
    obtain rfl := Except.ok.inj (heq.symm.trans hunregister)
    have hkept : ∀ l' ∈ rest, (SpitfireRtc.leaveClose (s.conductor.record [.close ch.id]) l o
        ch.id).dataObservers.lookup l' ≠ none := by
      intro l' hl'
      by_cases hl : l' = l
      · rw [hl]
        exact ne_of_eq_of_ne (AList.lookup_insert _) (Option.some_ne_none _)
      · exact ne_of_eq_of_ne (AList.lookup_insert_ne hl) (hlabels l' (by simp [hl']))
    have hstep : SpitfireRtc.next (s.walk (l :: rest)) .elementClosed =
        some ({ s with
          conductor := SpitfireRtc.leaveClose (s.conductor.record [.close ch.id]) l o ch.id
          stack := [.loop l ch.id rest] }.walk rest) := by
      simp [SpitfireRtc.next, SpitfireRtc.walk, SpitfireRtc.enterClose, SpitfireRtc.elementClosed,
        hviolation, hfault, ho, hch, hentry]
    rw [List.length_cons, List.replicate_succ]
    refine run_cons_eq_some.mpr ⟨_, hstep, ?_⟩
    exact ih (s := { s with
      conductor := SpitfireRtc.leaveClose (s.conductor.record [.close ch.id]) l o ch.id
      stack := [.loop l ch.id rest] }) hviolation hfault hkept hloop hend

/-- With handlers that call nothing back, the teardown is the operation. -/
theorem teardown_undisturbed (hattached : s.attached = true) (hstack : s.stack = [])
    {order : List Label} (horder : order.Perm s.conductor.dataObservers.keys) {c : State}
    (hdelete : deletePeerConnection order s.conductor = .ok c) :
    run SpitfireRtc.next s ([.deletePeerConnection, .connectionClosed order] ++
      List.replicate order.length .elementClosed) =
        some { s with conductor := c, order := order } := by
  rw [deletePeerConnection, teardown_eq, List.foldlM_append] at hdelete
  obtain ⟨c₀, hstart, hdelete⟩ := bind_eq_ok.mp hdelete
  rw [List.foldlM_cons] at hdelete hstart
  obtain ⟨c₁, hloop, hend⟩ := bind_eq_ok.mp hdelete
  obtain ⟨c', hclosed, hreleases⟩ := bind_eq_ok.mp hstart
  have hmap : c'.dataObservers = s.conductor.dataObservers := by
    cases hclosed
    rfl
  have hmap₀ : c₀.dataObservers = c'.dataObservers := by
    cases hreleases
    rfl
  have hdown : s.next .deletePeerConnection =
      some { s with conductor := c', stack := [.closeConnection] } := by
    simp [SpitfireRtc.next, SpitfireRtc.deletePeerConnection, SpitfireRtc.enterTeardown,
      SpitfireRtc.complete, hviolation, hfault, hattached, hstack, hclosed]
  have hwalk : SpitfireRtc.next { s with conductor := c', stack := [.closeConnection] }
      (.connectionClosed order) =
        some ({ s with
          conductor := c₀, stack := [.closeConnection], order := order }.walk order) := by
    simp [SpitfireRtc.next, SpitfireRtc.connectionClosed, hviolation, hfault, hmap, horder,
      hreleases]
  have hlabels : ∀ l ∈ order, c₀.dataObservers.lookup l ≠ none := by
    intro l hl
    rw [hmap₀, hmap, Ne, AList.lookup_eq_none, not_not, AList.mem_keys]
    exact horder.subset hl
  have hrest := walk_undisturbed (s := { s with
    conductor := c₀, stack := [.closeConnection], order := order })
    hviolation hfault hlabels hloop hend
  refine run_cons_eq_some.mpr ⟨_, hdown, run_cons_eq_some.mpr ⟨_, hwalk, ?_⟩⟩
  rw [hstack]
  exact hrest

end

end Spitfire.Conductor
