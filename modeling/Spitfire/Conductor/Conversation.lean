import Spitfire.Conductor.Callbacks
import Spitfire.Conductor.Directory
import Spitfire.Transition.Carrier

/-! Messages from one instance to another: what an application sends under a label, and what
the handlers on the other side are called with. -/
namespace Spitfire.Conductor
open Transition

section
variable {M : Type} (m : Marshalling M)

def dataChannelSendText (label text : M) (s : State) : Except Fault State :=
  sendToDataChannel (m.toNative label) ⟨m.toNative text, false⟩ s

def dataChannelSendData (label : M) (arrayData : List UInt8) (s : State) : Except Fault State :=
  sendToDataChannel (m.toNative label) ⟨arrayData, true⟩ s

/-- The two ways to send. -/
inductive Sending (M : Type) where
  | text (label content : M)
  | data (label : M) (arrayData : List UInt8)

namespace Sending

def exec (s : State) : Sending M → Except Fault State
  | .text label content => dataChannelSendText m label content s
  | .data label arrayData => dataChannelSendData m label arrayData s

def label : Sending M → Label
  | .text label _ | .data label _ => m.toNative label

/-- What the application means to send. Text is marked as such. -/
def buffer : Sending M → DataBuffer
  | .text _ content => ⟨m.toNative content, false⟩
  | .data _ arrayData => ⟨arrayData, true⟩

theorem exec_eq (what : Sending M) (s : State) :
    what.exec m s = sendToDataChannel (what.label m) (what.buffer m) s := by
  cases what <;> rfl

end Sending

end

/-- What a channel was given to send. -/
def Event.sentOn : Event → Option (Nat × DataBuffer)
  | .send c buffer => some (c, buffer)
  | _ => none

/-- The observer that a channel calls. -/
def State.observerOf (s : State) (c : Nat) : Option DataChannelObserver :=
  (s.dataObservers.entries.map Sigma.snd).find? fun o =>
    o.registered && o.dataChannel.map Channel.id = some c

/-- A handler reads as many bytes as it is told. -/
def Notice.read {M : Type} : Notice M → Option (M × DataBuffer)
  | message label data size isBinary => some (label, ⟨data.take size.toNat, isBinary⟩)
  | _ => none

def Operation.isSend : Operation → Bool
  | channel (.sendToDataChannel _ _) => true
  | _ => false

/-- Two instances, the messages between them, what the near application meant to send under
which label where there was a channel for it, what of it was taken, and what the handlers were
called with. -/
structure Conversation (M : Type) where
  near : State := .constructed
  far : State := .constructed
  carrier : Carrier Nat DataBuffer := {}
  calls : List (Label × DataBuffer) := []
  taken : List (Label × DataBuffer) := []
  heard : List (Notice M) := []

/-- Both sides use all their operations, and the near one sends. `Send` returns whether the
library takes the message, and nobody looks. -/
inductive ConversationStep (M : Type) where
  | near (op : Operation)
  | far (op : Operation)
  | send (what : Sending M) (takes : Bool)
  | arrive (i : Nat)
  | lose (i : Nat)

section
variable {M : Type} (m : Marshalling M) (policy : Policy Nat) (labelOf : Nat → Label)
  (nearView farView : Channel → ChannelView)

/-- The two ends of a channel have one label. Lengths are numbers of 32 bits. On its way goes
what `Send` was called with. -/
def Conversation.next (v : Conversation M) : ConversationStep M → Option (Conversation M)
  | .near op =>
    if op.isSend then none
    else do
      let s ← op.next labelOf nearView v.near
      return { v with near := s }
  | .far op => do
    let s ← op.next labelOf farView v.far
    return { v with far := s }
  | .send what takes =>
    if (what.buffer m).data.length < UInt32.size then do
      let s ← (what.exec m v.near).toOption
      let sends := (s.log.drop v.near.log.length).filterMap Event.sentOn
      let through := if takes then sends else []
      let carrier ← through.foldlM (fun c x => c.next policy (.send x.1 x.2)) v.carrier
      return { v with
        near := s
        carrier := carrier
        calls := v.calls ++ sends.map fun _ => (what.label m, what.buffer m)
        taken := v.taken ++ through.map fun _ => (what.label m, what.buffer m) }
    else none
  | .arrive i => do
    let (k, b) ← v.carrier.flying[i]?
    let carrier ← v.carrier.next policy (.arrive i)
    let o ← v.far.observerOf k
    let notice ← (o.notify m farView (.message b.data b.binary)).toOption
    return { v with carrier := carrier, heard := v.heard ++ [notice] }
  | .lose i => do
    let carrier ← v.carrier.next policy (.lose i)
    return { v with carrier := carrier }

/-- The call of a handler for a message. -/
def arrival (x : Nat × DataBuffer) : Notice M :=
  .message (m.ofCString (labelOf x.1)) x.2.data (.ofNat x.2.data.length) x.2.binary

/-- The carrier has what was taken and what was heard, with labels for channels. -/
structure Corresponds (v : Conversation M) : Prop where
  near : Observing labelOf v.near
  far : Observing labelOf v.far
  calls : v.taken.Sublist v.calls
  taken : v.taken = v.carrier.sent.map fun x => (labelOf x.1, x.2)
  heard : v.heard = v.carrier.arrived.map (arrival m labelOf)
  small : ∀ x ∈ v.carrier.sent, x.2.data.length < UInt32.size
  carried : ∀ k, Transition.Carried policy v.carrier k

end

variable {M : Type} {m : Marshalling M} {policy : Policy Nat} {labelOf : Nat → Label}
  {nearView farView : Channel → ChannelView} {s t : State} {v w : Conversation M}

theorem corresponds_empty : Corresponds m policy labelOf {} :=
  ⟨observing_empty rfl, observing_empty rfl, .slnil, rfl, rfl, nofun, carried_empty policy⟩

/-- A message goes out on the channel that the label stands for. -/
theorem Observing.sendToDataChannel (h : Observing labelOf s) (l : Label) (buffer : DataBuffer) :
    sendToDataChannel l buffer s =
      .ok (s.record ((s.directory.channels l).toList.map fun ch => .send ch.id buffer)) := by
  rw [Conductor.sendToDataChannel, h.channelOf]
  cases s.directory.channels l with
  | none => exact congrArg Except.ok (by simp [State.record])
  | some ch => rfl

theorem Observing.channels_label (h : Observing labelOf s) {l : Label} {ch : Channel}
    (hch : s.directory.channels l = some ch) : labelOf ch.id = l := by
  obtain ⟨o, ho, hch⟩ := Option.bind_eq_some_iff.mp hch
  exact (h.holds ⟨o, ho, hch⟩).2

/-- An observer is called for a channel of its own. -/
theorem Observing.observerOf (h : Observing labelOf s) {c : Nat} {o : DataChannelObserver}
    (ho : s.observerOf c = some o) : ∃ ch, o.dataChannel = some ch ∧ ch.label = labelOf c := by
  have hmem := List.mem_of_find?_eq_some ho
  have hcond := List.find?_some ho
  obtain ⟨⟨l, o'⟩, hentry, rfl⟩ := List.mem_map.mp hmem
  have hlookup : s.dataObservers.lookup l = some o' := AList.mem_lookup_iff.mpr hentry
  obtain ⟨_, ch, hch, hlabel, hid⟩ := h l o' hlookup
  refine ⟨ch, hch, ?_⟩
  have hc : ch.id = c := by
    rw [hch] at hcond
    simpa using (Bool.and_eq_true_iff.mp hcond).2
  rw [hlabel, ← hid, hc]

/-- The message that a call puts on its way. -/
theorem next_send (h : Observing labelOf v.near) {what : Sending M} {takes : Bool}
    (hnext : v.next m policy labelOf nearView farView (.send what takes) = some w) :
    (what.buffer m).data.length < UInt32.size ∧ (w = v ∨
      ∃ ch, v.near.directory.channels (what.label m) = some ch ∧
        w = if takes then { v with
            near := v.near.record [.send ch.id (what.buffer m)]
            carrier := { v.carrier with
              sent := v.carrier.sent ++ [(ch.id, what.buffer m)]
              flying := v.carrier.flying ++ [(ch.id, what.buffer m)] }
            calls := v.calls ++ [(what.label m, what.buffer m)]
            taken := v.taken ++ [(what.label m, what.buffer m)] }
          else { v with
            near := v.near.record [.send ch.id (what.buffer m)]
            calls := v.calls ++ [(what.label m, what.buffer m)] }) := by
  dsimp only [Conversation.next] at hnext
  split at hnext
  · rename_i hsize
    refine ⟨hsize, ?_⟩
    rw [what.exec_eq, h.sendToDataChannel] at hnext
    cases hch : v.near.directory.channels (what.label m) with
    | none =>
      left
      rw [hch] at hnext
      simpa [State.record, Except.toOption] using hnext.symm
    | some ch =>
      right
      rw [hch] at hnext
      refine ⟨ch, rfl, ?_⟩
      cases takes with
      | false => simpa [State.record, Except.toOption, Event.sentOn] using hnext.symm
      | true => simpa [State.record, Except.toOption, Event.sentOn, Carrier.next] using hnext.symm
  · cases hnext

theorem corresponds_send (h : Corresponds m policy labelOf v) {what : Sending M} {takes : Bool}
    (hnext : v.next m policy labelOf nearView farView (.send what takes) = some w) :
    Corresponds m policy labelOf w := by
  obtain ⟨hsize, rfl | ⟨ch, hch, rfl⟩⟩ := next_send h.near hnext
  · exact h
  · have hlabel := h.near.channels_label hch
    cases takes with
    | false =>
      exact ⟨h.near.congr rfl, h.far, h.calls.trans (List.sublist_append_left _ _), h.taken,
        h.heard, h.small, h.carried⟩
    | true =>
      refine ⟨h.near.congr rfl, h.far, h.calls.append_right _, ?_, h.heard, ?_,
        fun k => carried_send (h.carried k) _⟩
      · simp [h.taken, hlabel]
      · intro x hx
        rcases List.mem_append.mp hx with hx | hx
        · exact h.small x hx
        · obtain rfl := List.mem_singleton.mp hx
          exact hsize

theorem corresponds_arrive (h : Corresponds m policy labelOf v) {i : Nat}
    (hnext : v.next m policy labelOf nearView farView (.arrive i) = some w) :
    Corresponds m policy labelOf w := by
  obtain ⟨⟨k, b⟩, hi, hnext⟩ := Option.bind_eq_some_iff.mp hnext
  obtain ⟨carrier, hcarrier, hnext⟩ := Option.bind_eq_some_iff.mp hnext
  obtain ⟨o, ho, hnext⟩ := Option.bind_eq_some_iff.mp hnext
  obtain ⟨notice, hnotice, ⟨⟩⟩ := Option.bind_eq_some_iff.mp hnext
  obtain ⟨hsent, harrived⟩ := of_arrive hi hcarrier
  obtain ⟨ch, hch, hlabel⟩ := h.far.observerOf ho
  have hnotice : notice = arrival m labelOf (k, b) := by
    simp only [DataChannelObserver.notify, DataChannelObserver.onMessage, hch, hlabel] at hnotice
    exact (Option.some.inj hnotice).symm
  refine ⟨h.near, h.far, h.calls, ?_, ?_, ?_, fun k' => carried_next k' (h.carried k') hcarrier⟩
  · rw [hsent]
    exact h.taken
  · rw [harrived, List.map_append, ← h.heard, hnotice]
    rfl
  · rw [hsent]
    exact h.small

theorem corresponds_next (v : Conversation M) (a : ConversationStep M) (w : Conversation M)
    (h : Corresponds m policy labelOf v)
    (hnext : v.next m policy labelOf nearView farView a = some w) :
    Corresponds m policy labelOf w := by
  cases a with
  | near op =>
    dsimp only [Conversation.next] at hnext
    split at hnext
    · cases hnext
    obtain ⟨s, hs, ⟨⟩⟩ := Option.bind_eq_some_iff.mp hnext
    exact { h with near := observing_next nearView _ op s h.near hs }
  | far op =>
    obtain ⟨s, hs, ⟨⟩⟩ := Option.bind_eq_some_iff.mp hnext
    exact { h with far := observing_next farView _ op s h.far hs }
  | send what takes => exact corresponds_send h hnext
  | arrive i => exact corresponds_arrive h hnext
  | lose i =>
    obtain ⟨carrier, hcarrier, ⟨⟩⟩ := Option.bind_eq_some_iff.mp hnext
    obtain ⟨hsent, harrived⟩ := of_lose hcarrier
    refine ⟨h.near, h.far, h.calls, ?_, ?_, ?_, fun k => carried_next k (h.carried k) hcarrier⟩
    · rw [hsent]
      exact h.taken
    · rw [harrived]
      exact h.heard
    · rw [hsent]
      exact h.small

/-- Nothing heard was not sent, or more often than it was sent; an ordered channel keeps the
order, and one that is reliable as well leaves no gap in what was taken. -/
structure Conveyed (policy : Policy Nat) (c : Nat) (sent taken heard : List DataBuffer) : Prop where
  accepted : taken.Sublist sent
  part : heard.Subperm taken
  ordered : policy.ordered c = true → heard.Sublist taken
  whole : policy.ordered c = true → policy.reliable c = true → heard <+: taken

theorem Corresponds.small_arrived (h : Corresponds m policy labelOf v) {x : Nat × DataBuffer}
    (hx : x ∈ v.carrier.arrived) : x.2.data.length < UInt32.size := by
  have hlane : x.2 ∈ lane x.1 v.carrier.arrived :=
    List.mem_map.mpr ⟨x, List.mem_filter.mpr ⟨hx, by simp⟩, rfl⟩
  have hsent : x.2 ∈ lane x.1 v.carrier.sent :=
    (h.carried x.1).part.subset (List.mem_append_left _ hlane)
  obtain ⟨y, hy, hyx⟩ := List.mem_map.mp hsent
  rw [← hyx]
  exact h.small y (List.mem_of_mem_filter hy)

/-- The handlers read what has arrived. -/
theorem Corresponds.read_heard (h : Corresponds m policy labelOf v) :
    v.heard.filterMap Notice.read =
      v.carrier.arrived.map fun x => (m.ofCString (labelOf x.1), x.2) := by
  rw [h.heard, List.filterMap_map, ← List.filterMap_eq_map']
  refine List.filterMap_congr fun x hx => ?_
  have hsize : (UInt32.ofNat x.2.data.length).toNat = x.2.data.length := by
    rw [UInt32.toNat_ofNat', Nat.mod_eq_of_lt (h.small_arrived hx)]
  simp [arrival, Notice.read, hsize]

theorem Corresponds.conveyed [DecidableEq M] (hm : m.Lossless)
    (h : Corresponds m policy labelOf v) {c : Nat}
    (honly : ∀ c', cString (labelOf c') = cString (labelOf c) → c' = c) :
    Conveyed policy c (lane (labelOf c) v.calls) (lane (labelOf c) v.taken)
      (lane (m.ofCString (labelOf c)) (v.heard.filterMap Notice.read)) := by
  have hcalls : (lane (labelOf c) v.taken).Sublist (lane (labelOf c) v.calls) :=
    (h.calls.filter _).map _
  have htaken : lane (labelOf c) v.taken = lane c v.carrier.sent := by
    rw [h.taken]
    exact lane_map labelOf fun c' hc' => honly c' (congrArg cString hc')
  have hheard : lane (m.ofCString (labelOf c)) (v.heard.filterMap Notice.read) =
      lane c v.carrier.arrived := by
    rw [h.read_heard]
    refine lane_map (fun c => m.ofCString (labelOf c)) fun c' hc' => honly c' ?_
    simpa only [hm.toNative_ofCString] using congrArg m.toNative hc'
  rw [htaken, hheard]
  rw [htaken] at hcalls
  have hcarried := h.carried c
  refine ⟨hcalls, ?_, fun hordered => ?_, fun hordered hreliable => ?_⟩
  · exact (List.sublist_append_left _ _).subperm.trans hcarried.part
  · exact (List.sublist_append_left _ _).trans (hcarried.ordered hordered)
  · exact ⟨_, hcarried.eq hordered hreliable⟩

theorem corresponds_run {steps : List (ConversationStep M)}
    (hrun : run (Conversation.next m policy labelOf nearView farView) {} steps = some v) :
    Corresponds m policy labelOf v :=
  run_invariant corresponds_next corresponds_empty hrun

/-- Whatever both sides do meanwhile, channels opened, closed and announced in any order: what
the far application hears under the label of a channel is what the near one has sent under
it, if marshalling loses nothing and no other channel has a label that looks the same up to a
NUL. A message that the library does not take is missing, and neither side is told. -/
theorem messages_conveyed [DecidableEq M] (hm : m.Lossless) {steps : List (ConversationStep M)}
    (hrun : run (Conversation.next m policy labelOf nearView farView) {} steps = some v) {c : Nat}
    (honly : ∀ c', cString (labelOf c') = cString (labelOf c) → c' = c) :
    Conveyed policy c (lane (labelOf c) v.calls) (lane (labelOf c) v.taken)
      (lane (m.ofCString (labelOf c)) (v.heard.filterMap Notice.read)) :=
  (corresponds_run hrun).conveyed hm honly

private def twoLabels (c : Nat) : Label := if c = 0 then [97] else [98]

/-- Two channels; the first message under `a` comes before the channel is open, the second has
arrived, the third is still on its way when what was sent later under `b` arrives. -/
private def overtaken : List (ConversationStep (List UInt8)) :=
  [.near (.initializePeerConnection .succeeds []),
    .near (.channel (.createDataChannel [97] {} (some ⟨0, [97]⟩))),
    .near (.channel (.createDataChannel [98] {} (some ⟨1, [98]⟩))),
    .send (.text [97] [7]) false, .send (.text [97] [1]) true, .send (.data [97] [2, 0]) true,
    .send (.text [98] [3]) true,
    .far (.initializePeerConnection .succeeds []),
    .far (.channel (.handleDataChannel ⟨0, [97]⟩)), .arrive 0,
    .far (.channel (.handleDataChannel ⟨1, [98]⟩)), .arrive 1]

theorem messages_conveyed_overtaken : ∃ v,
    run (Conversation.next .verbatim ⟨fun _ => true, fun _ => true⟩ twoLabels
      (fun _ => .ofState .opened) (fun _ => .ofState .opened)) {} overtaken = some v ∧
      v.heard.filterMap Notice.read = [([97], ⟨[1], false⟩), ([98], ⟨[3], false⟩)] ∧
      lane [97] v.taken = [⟨[1], false⟩, ⟨[2, 0], true⟩] ∧
      Conveyed ⟨fun _ => true, fun _ => true⟩ 0 (lane [97] v.calls) (lane [97] v.taken)
        (lane [97] (v.heard.filterMap Notice.read)) := by
  obtain ⟨v, hrun, hheard, htaken⟩ : ∃ v, run (Conversation.next .verbatim
      ⟨fun _ => true, fun _ => true⟩ twoLabels (fun _ => .ofState .opened)
      (fun _ => .ofState .opened)) {} overtaken = some v ∧
      v.heard.filterMap Notice.read = [([97], ⟨[1], false⟩), ([98], ⟨[3], false⟩)] ∧
      lane [97] v.taken = [⟨[1], false⟩, ⟨[2, 0], true⟩] :=
    ⟨_, rfl, rfl, rfl⟩
  refine ⟨v, hrun, hheard, htaken,
    messages_conveyed Marshalling.verbatim_lossless (c := 0) hrun fun c' hc' => ?_⟩
  by_contra hne
  simp [twoLabels, hne, cString] at hc'

end Spitfire.Conductor
