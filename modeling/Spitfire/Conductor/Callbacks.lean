import Mathlib.Data.List.TakeWhile
import Spitfire.Conductor.Lifecycle

/-! The callbacks of a data channel and the label that they hand to the application. The
map is keyed by the whole label, the callbacks pass it as a C string. -/
namespace Spitfire.Conductor
open Transition

/-- What reading a label through `c_str()` finds before the first NUL. -/
def cString (bytes : List UInt8) : List UInt8 := bytes.takeWhile (· ≠ 0)

theorem zero_not_mem_cString (bytes : List UInt8) : 0 ∉ cString bytes := by
  intro hmem
  simpa using List.mem_takeWhile_imp hmem

theorem cString_eq_self_iff {bytes : List UInt8} : cString bytes = bytes ↔ 0 ∉ bytes := by
  constructor
  · intro h
    rw [← h]
    exact zero_not_mem_cString bytes
  · intro h
    apply List.takeWhile_eq_self_iff.mpr
    intro b hb
    simpa using ne_of_mem_of_not_mem hb h

/-- The strings of the managed side, in whatever code page. -/
structure Marshalling (M : Type) where
  toManaged : List UInt8 → M
  toNative : M → List UInt8

/-- Nothing is lost: without a NUL, a string survives the way there and back. -/
def Marshalling.Lossless {M : Type} (m : Marshalling M) : Prop :=
  ∀ bytes, 0 ∉ bytes → m.toNative (m.toManaged bytes) = bytes

/-- Managed strings that are the bytes themselves. -/
def Marshalling.verbatim : Marshalling (List UInt8) := ⟨id, id⟩

theorem Marshalling.verbatim_lossless : Marshalling.verbatim.Lossless := fun _ _ => rfl

/-- A C string is marshalled up to its first NUL. -/
def Marshalling.ofCString {M : Type} (m : Marshalling M) (bytes : List UInt8) : M :=
  m.toManaged (cString bytes)

theorem Marshalling.Lossless.toNative_ofCString {M : Type} {m : Marshalling M} (hm : m.Lossless)
    (bytes : List UInt8) : m.toNative (m.ofCString bytes) = cString bytes :=
  hm _ (zero_not_mem_cString bytes)

/-- What a channel tells its observer. -/
inductive Raised where
  | stateChange
  | message (data : List UInt8) (binary : Bool)
  | bufferedAmountChange (previousAmount : UInt64)
  deriving DecidableEq, Repr

/-- What the handlers of the application are called with. -/
inductive Notice (M : Type) where
  | dataChannelState (label : M) (state : DataState)
  | message (label : M) (data : List UInt8) (size : UInt32) (isBinary : Bool)
  | bufferAmount (label : M) (previousAmount currentAmount bytesSent bytesReceived : UInt64)

def Notice.label {M : Type} : Notice M → M
  | dataChannelState l _ | message l _ _ _ | bufferAmount l _ _ _ _ => l

namespace DataChannelObserver
variable {M : Type} (m : Marshalling M) (view : Channel → ChannelView)

def onStateChange (o : DataChannelObserver) : Except Fault (Notice M) :=
  match o.dataChannel with
  | none => .error .nullDataChannel
  | some ch => .ok (.dataChannelState (m.ofCString ch.label) (view ch).state)

def onMessage (data : List UInt8) (binary : Bool) (o : DataChannelObserver) :
    Except Fault (Notice M) :=
  match o.dataChannel with
  | none => .error .nullDataChannel
  | some ch => .ok (.message (m.ofCString ch.label) data (.ofNat data.length) binary)

def onBufferedAmountChange (previousAmount : UInt64) (o : DataChannelObserver) :
    Except Fault (Notice M) :=
  match o.dataChannel with
  | none => .error .nullDataChannel
  | some ch => .ok (.bufferAmount (m.ofCString ch.label) previousAmount (view ch).bufferedAmount
      (view ch).bytesSent (view ch).bytesReceived)

def notify (e : Raised) (o : DataChannelObserver) : Except Fault (Notice M) :=
  match e with
  | .stateChange => o.onStateChange m view
  | .message data binary => o.onMessage m data binary
  | .bufferedAmountChange previousAmount => o.onBufferedAmountChange m view previousAmount

/-- Whatever is raised, the handler gets the label as a C string. -/
theorem notify_label {o : DataChannelObserver} {ch : Channel} (hch : o.dataChannel = some ch)
    (e : Raised) : ∃ n, o.notify m view e = .ok n ∧ n.label = m.ofCString ch.label := by
  cases e with
  | stateChange => exact ⟨_, by simp only [notify, onStateChange, hch]; rfl, rfl⟩
  | message data binary => exact ⟨_, by simp only [notify, onMessage, hch]; rfl, rfl⟩
  | bufferedAmountChange amount =>
    exact ⟨_, by simp only [notify, onBufferedAmountChange, hch]; rfl, rfl⟩

end DataChannelObserver

/-- Sending, asking for the state and closing under this label all reach this channel. -/
structure Selects (s : State) (l : Label) (ch : Channel) : Prop where
  send : ∀ buffer, sendToDataChannel l buffer s = .ok (s.record [.send ch.id buffer])
  state : ∀ view, getDataChannelState view l s = .ok (some (view ch).state)
  close : ∃ t, closeDataChannel l s = .ok t ∧
    t.log = s.log ++ [.close ch.id, .unregisterObserver ch.id, .removed ch.id false]

variable {s : State}

theorem selects_of_holds {l : Label} {ch : Channel} (h : Holds s l ch) : Selects s l ch := by
  obtain ⟨o, ho, hch⟩ := h
  have hchannel : channelOf l s = .ok (some ch) := by
    simp only [channelOf, ho, hch]
  refine ⟨?_, ?_, closeDataChannel_of_lookup ho hch⟩
  · intro buffer
    rw [sendToDataChannel, hchannel]
    rfl
  · intro view
    rw [getDataChannelState, hchannel]
    rfl

/-- A label selects the channel that the map holds under it and no other. -/
theorem selects_iff_holds {l : Label} {ch : Channel} : Selects s l ch ↔ Holds s l ch := by
  refine ⟨?_, selects_of_holds⟩
  intro h
  -- The channel is the only one whose state is told from all others.
  have hstate := h.state fun c => .ofState (if c = ch then .opened else .closed)
  unfold getDataChannelState channelOf at hstate
  cases ho : s.dataObservers.lookup l with
  | none =>
    rw [ho] at hstate
    cases hstate
  | some o =>
    rw [ho] at hstate
    cases hch : o.dataChannel with
    | none =>
      simp only [hch] at hstate
      cases hstate
    | some ch' =>
      simp only [hch] at hstate
      refine ⟨o, ho, ?_⟩
      rw [hch]
      by_contra hne
      have hne' : ch' ≠ ch := fun h => hne (congrArg some h)
      simp [ChannelView.ofState, hne', bind, Except.bind, pure, Except.pure] at hstate

/-- In every state that the public operations reach and for everything that a channel in the
map can raise: if marshalling loses nothing, the label handed to the application selects this
channel exactly if no NUL cuts it short. -/
theorem callback_selects_iff {M : Type} {m : Marshalling M} (hm : m.Lossless)
    (view : Channel → ChannelView) {labelOf : Nat → Label} {ops : List Operation}
    (hrun : run (fun s op => op.next labelOf view s) .constructed ops = some s)
    {l : Label} {o : DataChannelObserver} {ch : Channel}
    (ho : s.dataObservers.lookup l = some o) (hch : o.dataChannel = some ch) (e : Raised) :
    (∃ n, o.notify m view e = .ok n ∧ Selects s (m.toNative n.label) ch) ↔
      0 ∉ ch.label := by
  have hs : Observing labelOf s := run_invariant (observing_next view) (observing_empty rfl) hrun
  obtain ⟨n, hnotify, hlabel⟩ := DataChannelObserver.notify_label m view hch e
  have hholds : Holds s ch.label ch := by
    rw [(hs.holds ⟨o, ho, hch⟩).1]
    exact ⟨o, ho, hch⟩
  have hnative : m.toNative n.label = cString ch.label := by
    rw [hlabel, hm.toNative_ofCString]
  rw [← cString_eq_self_iff]
  constructor
  · rintro ⟨n', hnotify', hselects⟩
    obtain rfl := Except.ok.inj (hnotify.symm.trans hnotify')
    rw [hnative, selects_iff_holds] at hselects
    exact (hs.holds hselects).1.symm
  · intro hwhole
    refine ⟨n, hnotify, ?_⟩
    rw [hnative, hwhole]
    exact selects_of_holds hholds

/-- The peer opens one channel and another whose label goes on after a NUL. -/
private def announceTwo : List Operation :=
  [.initializePeerConnection .succeeds [], .channel (.handleDataChannel ⟨0, [97]⟩),
    .channel (.handleDataChannel ⟨1, [97, 0, 98]⟩)]

private def peerLabel (c : Nat) : Label := if c = 0 then [97] else [97, 0, 98]

/-- A message on the channel whose label is whole can be replied to. -/
theorem callback_selects_whole_label : ∃ s o n,
    run (fun s op => op.next peerLabel (fun _ => .ofState .opened) s) .constructed announceTwo =
      some s ∧ s.dataObservers.lookup [97] = some o ∧
      o.notify .verbatim (fun _ => .ofState .opened) (.message [1, 2] true) = .ok n ∧
      Selects s (Marshalling.verbatim.toNative n.label) ⟨0, [97]⟩ := by
  obtain ⟨s, hrun, ho⟩ : ∃ s,
      run (fun s op => op.next peerLabel (fun _ => .ofState .opened) s) .constructed announceTwo =
        some s ∧ s.dataObservers.lookup [97] = some ⟨some ⟨0, [97]⟩, true⟩ := ⟨_, rfl, rfl⟩
  obtain ⟨n, hnotify, hselects⟩ :=
    (callback_selects_iff Marshalling.verbatim_lossless (fun _ => .ofState .opened) hrun ho rfl
      (.message [1, 2] true)).mpr (by decide)
  exact ⟨s, _, n, hrun, ho, hnotify, hselects⟩

/-- A message on the other one is handed over under the first one's label, and the reply
goes there. -/
theorem reply_reaches_other_channel : ∃ s o n,
    run (fun s op => op.next peerLabel (fun _ => .ofState .opened) s) .constructed announceTwo =
      some s ∧ s.dataObservers.lookup [97, 0, 98] = some o ∧
      o.dataChannel = some ⟨1, [97, 0, 98]⟩ ∧
      o.notify .verbatim (fun _ => .ofState .opened) (.message [1, 2] true) = .ok n ∧
      Selects s (Marshalling.verbatim.toNative n.label) ⟨0, [97]⟩ ∧
      ¬ Selects s (Marshalling.verbatim.toNative n.label) ⟨1, [97, 0, 98]⟩ := by
  obtain ⟨s, hrun, ho, hfirst⟩ : ∃ s,
      run (fun s op => op.next peerLabel (fun _ => .ofState .opened) s) .constructed announceTwo =
        some s ∧ s.dataObservers.lookup [97, 0, 98] = some ⟨some ⟨1, [97, 0, 98]⟩, true⟩ ∧
        s.dataObservers.lookup [97] = some ⟨some ⟨0, [97]⟩, true⟩ := ⟨_, rfl, rfl, rfl⟩
  refine ⟨s, _, _, hrun, ho, rfl, rfl, selects_of_holds ⟨_, hfirst, rfl⟩, ?_⟩
  intro hselects
  obtain ⟨o, ho', hch⟩ := selects_iff_holds.mp hselects
  obtain rfl := Option.some.inj (hfirst.symm.trans ho')
  cases hch

end Spitfire.Conductor
