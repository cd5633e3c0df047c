import Spitfire.Conductor.Operations
import Spitfire.Ice.Runtime
import Spitfire.Rtc.Servers

/-! Data channels through the managed class: the options that are passed on field by field,
the connection that accepts or refuses them, and what is read back. -/
namespace Spitfire.Rtc
open Conductor
open Ice (Text isNullOrWhiteSpace)

structure DataChannelOptions where
  label : Option Text
  reliable : Bool := false
  ordered : Bool := true
  maxRetransmitTime : Option Int32 := none
  maxRetransmits : Option Int32 := none
  protocol : Option Text := none
  negotiated : Bool := false
  id : Int32 := -1
  deriving DecidableEq, Repr

/-- Both limits are set, or a limit is negative. -/
def BadLimits (config : DataChannelInit) : Prop :=
  (config.maxRetransmits.isSome = true ∧ config.maxRetransmitTime.isSome = true) ∨
    (∃ n ∈ config.maxRetransmits, n.toInt < 0) ∨ ∃ n ∈ config.maxRetransmitTime, n.toInt < 0

instance (config : DataChannelInit) : Decidable (BadLimits config) :=
  inferInstanceAs (Decidable (_ ∨ _ ∨ _))

/-- What an accessor returns for a limit that the channel has stored. -/
def accessor : Option Int32 → UInt16
  | none => 65535
  | some n => .ofNat n.toInt.toNat

/-- The connection underneath in some state of a run. Which ids it refuses, being invalid or
in use, depends on that run. -/
structure PeerConnection where
  closed : Bool
  refusesId : Int32 → Bool → Bool
  createDataChannel : Label → DataChannelInit → Option Channel
  view : Channel → ChannelView
  null_iff : ∀ label config, createDataChannel label config = none ↔
    closed = true ∨ BadLimits config ∨ refusesId config.id config.negotiated = true
  stored : ∀ label config ch, createDataChannel label config = some ch →
    (view ch).maxRetransmits = accessor config.maxRetransmits ∧
      (view ch).maxRetransmitTime = accessor config.maxRetransmitTime

/-- How a call ends that does not return. -/
inductive CallFailure where
  | argumentNull
  | fault (f : Fault)
  deriving DecidableEq, Repr

/-- The managed description of a channel. -/
structure DataChannelInfo where
  currentBuffer : UInt64
  bytesSent : UInt64
  bytesReceived : UInt64
  reliable : Bool
  ordered : Bool
  negotiated : Bool
  messagesSent : UInt32
  messagesReceived : UInt32
  maxRetransmits : Int32
  maxRetransmitTime : Int32
  protocol : Option String
  state : DataState

/-- The limits are widened. An empty protocol stays null. -/
def DataChannelInfo.ofNative (info : RtcDataChannelInfo) : DataChannelInfo where
  currentBuffer := info.currentBuffer
  bytesSent := info.bytesSent
  bytesReceived := info.bytesReceived
  reliable := info.reliable
  ordered := info.ordered
  negotiated := info.negotiated
  messagesSent := info.messagesSent
  messagesReceived := info.messagesReceived
  maxRetransmits := info.maxRetransmits.toInt32
  maxRetransmitTime := info.maxRetransmitTime.toInt32
  protocol := if info.protocol.isEmpty then none else some (cStr info.protocol)
  state := info.state

section
variable (marshalAs : Text → List UInt8)

def DataChannelOptions.toInit (o : DataChannelOptions) : DataChannelInit where
  id := o.id
  maxRetransmits := o.maxRetransmits
  maxRetransmitTime := o.maxRetransmitTime
  negotiated := o.negotiated
  ordered := o.ordered
  protocol := match o.protocol with
    | none => []
    | some protocol => if isNullOrWhiteSpace protocol then [] else marshalAs protocol
  reliable := o.reliable

def createDataChannel (p : PeerConnection) (o : DataChannelOptions) (s : State) :
    Except CallFailure State :=
  match o.label with
  | none => .error .argumentNull
  | some text =>
    let label := marshalAs text
    let config := o.toInit marshalAs
    match Conductor.createDataChannel label config (p.createDataChannel label config) s with
    | .ok (_, s) => .ok s
    | .error f => .error (.fault f)

def getDataChannelInfo (p : PeerConnection) (label : Option Text) (s : State) :
    Except CallFailure (Option DataChannelInfo) :=
  match label with
  | none => .error .argumentNull
  | some text =>
    match Conductor.getDataChannelInfo p.view (marshalAs text) s with
    | .ok info => .ok (info.map DataChannelInfo.ofNative)
    | .error f => .error (.fault f)

end

/-- One observer has joined the map, under this label: a channel was asked for, and the
observer is registered at it. -/
def Joined (s t : State) (label : Label) (config : DataChannelInit) : Prop :=
  s.dataObservers.lookup label = none ∧
    (∃ ch, t.dataObservers.lookup label = some ⟨some ch, true⟩ ∧ t.log =
      s.log ++ [.createDataChannel label config, .registerObserver ch.id, .inserted ch.id]) ∧
    ∀ label', label' ≠ label → t.dataObservers.lookup label' = s.dataObservers.lookup label'

/-- The state after a call that creates one channel or nothing at all. The exception for a
missing label is thrown before the conductor is reached. -/
def Intact (s : State) (label : Option Label) (config : DataChannelInit) :
    Except CallFailure State → Prop
  | .ok t => (∃ l ∈ label, Joined s t l config) ∨ t.dataObservers = s.dataObservers
  | .error .argumentNull => True
  | .error (.fault _) => False

/-- The connection refuses the configuration. -/
def PeerConnection.Refuses (p : PeerConnection) (config : DataChannelInit) : Prop :=
  p.closed = true ∨ BadLimits config ∨ p.refusesId config.id config.negotiated = true

instance (p : PeerConnection) (config : DataChannelInit) : Decidable (p.Refuses config) :=
  inferInstanceAs (Decidable (_ ∨ _ ∨ _))

variable {marshalAs : Text → List UInt8} {p : PeerConnection} {o : DataChannelOptions} {s : State}
  {connection : Nat} {text : Text}

/-- With a connection and under a new label, what the connection returns is observed. -/
theorem createDataChannel_new (hlive : s.peerObserver = some ⟨some connection⟩)
    (hlabel : o.label = some text) (hfree : s.dataObservers.lookup (marshalAs text) = none) :
    createDataChannel marshalAs p o s =
      match p.createDataChannel (marshalAs text) (o.toInit marshalAs) with
      | none => .error (.fault .nullDataChannel)
      | some ch =>
        .ok (((s.record [.createDataChannel (marshalAs text) (o.toInit marshalAs)]).record
          [.registerObserver ch.id]).assign (marshalAs text) ⟨some ch, true⟩) := by
  rw [createDataChannel, hlabel]
  dsimp only
  rw [Conductor.createDataChannel, withConnection, hlive]
  dsimp only
  rw [if_pos hfree]
  cases p.createDataChannel (marshalAs text) (o.toInit marshalAs) <;> rfl

theorem createDataChannel_used (hlive : s.peerObserver = some ⟨some connection⟩)
    (hlabel : o.label = some text) (hused : s.dataObservers.lookup (marshalAs text) ≠ none) :
    createDataChannel marshalAs p o s = .ok s := by
  rw [createDataChannel, hlabel]
  dsimp only
  rw [Conductor.createDataChannel, withConnection, hlive]
  dsimp only
  rw [if_neg hused]

theorem lookup_assign (s : State) (label : Label) (observer : DataChannelObserver) :
    (s.assign label observer).dataObservers.lookup label = some observer :=
  AList.lookup_insert _

theorem joined_assign {ch : Channel} {label : Label} (hfree : s.dataObservers.lookup label = none)
    (config : DataChannelInit) :
    Joined s (((s.record [.createDataChannel label config]).record
      [.registerObserver ch.id]).assign label ⟨some ch, true⟩) label config := by
  refine ⟨hfree, ⟨ch, lookup_assign .., ?_⟩, ?_⟩
  · simp [State.assign, State.record, hfree, DataChannelObserver.insertion]
  · intro label' hne
    exact AList.lookup_insert_ne hne

/-- With a live connection a call leaves one channel or nothing behind, without an access
through a null channel, exactly when the label is missing or in use or the connection does
not refuse the configuration. -/
theorem createDataChannel_intact_iff (hlive : s.peerObserver = some ⟨some connection⟩)
    (marshalAs : Text → List UInt8) (p : PeerConnection) (o : DataChannelOptions) :
    Intact s (o.label.map marshalAs) (o.toInit marshalAs) (createDataChannel marshalAs p o s) ↔
      o.label = none ∨ (∃ text ∈ o.label, s.dataObservers.lookup (marshalAs text) ≠ none) ∨
        ¬ p.Refuses (o.toInit marshalAs) := by
  cases hlabel : o.label with
  | none => simp [createDataChannel, hlabel, Intact]
  | some text =>
    have hnull := p.null_iff (marshalAs text) (o.toInit marshalAs)
    by_cases hfree : s.dataObservers.lookup (marshalAs text) = none
    · rw [createDataChannel_new hlive hlabel hfree]
      cases hch : p.createDataChannel (marshalAs text) (o.toInit marshalAs) with
      | none =>
        have hrefuses : p.Refuses (o.toInit marshalAs) := hnull.mp hch
        simp [Intact, hfree, hrefuses]
      | some ch =>
        have haccepts : ¬ p.Refuses (o.toInit marshalAs) := by
          intro hrefuses
          rw [hnull.mpr hrefuses] at hch
          cases hch
        exact iff_of_true (Or.inl ⟨_, rfl, joined_assign hfree _⟩) (Or.inr (Or.inr haccepts))
    · rw [createDataChannel_used hlive hlabel hfree]
      exact iff_of_true (Or.inr rfl) (Or.inr (Or.inl ⟨text, rfl, hfree⟩))

/-- An open connection on which ids below minus one are invalid and none is in use. The
number of a channel tells the limits of its configuration. -/
def openConnection : PeerConnection where
  closed := false
  refusesId := fun id _ => id.toInt < -1
  createDataChannel := fun label config =>
    if BadLimits config ∨ config.id.toInt < -1 then none
    else some ⟨(accessor config.maxRetransmits).toNat +
      65536 * (accessor config.maxRetransmitTime).toNat, label⟩
  view := fun ch =>
    ⟨0, 0, 0, 0, true, true, false, 0, 0, .ofNat (ch.id % 65536), .ofNat (ch.id / 65536), "",
      .connecting⟩
  null_iff := by
    intro label config
    by_cases h : BadLimits config ∨ config.id.toInt < -1
    · simp [h]
    · simp [h]
  stored := by
    intro label config ch h
    split at h
    · cases h
    · cases h
      have hlt := (accessor config.maxRetransmits).toNat_lt
      have hmod : ((accessor config.maxRetransmits).toNat +
          65536 * (accessor config.maxRetransmitTime).toNat) % 65536 =
          (accessor config.maxRetransmits).toNat := by omega
      have hdiv : ((accessor config.maxRetransmits).toNat +
          65536 * (accessor config.maxRetransmitTime).toNat) / 65536 =
          (accessor config.maxRetransmitTime).toNat := by omega
      dsimp only
      rw [hmod, hdiv, UInt16.ofNat_toNat, UInt16.ofNat_toNat]
      exact ⟨rfl, rfl⟩

/-- Labels of ASCII characters. -/
def marshalAscii (t : Text) : List UInt8 := t.map UInt16.toUInt8

theorem createDataChannel_intact_default :
    Intact .initialized (some [99]) {} (createDataChannel marshalAscii openConnection
      { label := some [99] } .initialized) :=
  (createDataChannel_intact_iff (show State.initialized.peerObserver = some ⟨some 7⟩ from rfl)
    marshalAscii openConnection { label := some [99] }).mpr (Or.inr (Or.inr (by decide)))

/-- The value that is documented for a limit that is not set is refused, and the null that
comes back is used. So it is with both limits. -/
theorem createDataChannel_refused_faults :
    createDataChannel marshalAscii openConnection
      { label := some [99], maxRetransmits := some (-1) } .initialized =
        .error (.fault .nullDataChannel) ∧
    createDataChannel marshalAscii openConnection
      { label := some [99], maxRetransmits := some 3, maxRetransmitTime := some 500 } .initialized =
        .error (.fault .nullDataChannel) :=
  ⟨rfl, rfl⟩

/-- Read back through the two narrower types, a limit is what was set exactly up to the
largest number of the narrowest one. A limit that was not set is read back as minus one. -/
theorem reported_limit_iff {limit : Option Int32} (h : ∀ n ∈ limit, 0 ≤ n.toInt) :
    (accessor limit).toInt16.toInt32 = limit.getD (-1) ↔ ∀ n ∈ limit, n.toInt ≤ 32767 := by
  cases limit with
  | none => exact iff_of_true (by decide) (by simp)
  | some n =>
    have hn := h n rfl
    have hvalue : (accessor (some n)).toInt16.toInt32.toInt = n.toInt.bmod 65536 := by
      rw [accessor, Int16.toInt_toInt32, UInt16.toInt16_ofNat', Int16.toInt_ofNat']
      rw [Int.toNat_of_nonneg hn]
    rw [← Int32.toInt_inj, hvalue]
    simp only [Option.getD_some, Option.mem_some_iff, forall_eq']
    constructor
    · intro heq
      have hlt := Int.bmod_lt (x := n.toInt) (m := 65536) (by decide)
      omega
    · intro hle
      exact Int.bmod_eq_of_le (by omega) (by omega)

/-- The description of a channel that the map holds. -/
theorem getDataChannelInfo_held {t : State} {ch : Channel}
    (h : t.dataObservers.lookup (marshalAs text) = some ⟨some ch, true⟩) :
    ∃ info, getDataChannelInfo marshalAs p (some text) t = .ok (some info) ∧
      info.maxRetransmits = (p.view ch).maxRetransmits.toInt16.toInt32 ∧
      info.maxRetransmitTime = (p.view ch).maxRetransmitTime.toInt16.toInt32 := by
  rw [getDataChannelInfo, Conductor.getDataChannelInfo, channelOf, h]
  exact ⟨_, rfl, rfl, rfl⟩

/-- Where at most one limit is set, the limits are refused for their signs only. -/
theorem not_refuses_iff
    (hone : ∀ n ∈ o.maxRetransmits, ∀ n' ∈ o.maxRetransmitTime, n = -1 ∨ n' = -1) :
    ¬ p.Refuses (o.toInit marshalAs) ↔ p.closed = false ∧ p.refusesId o.id o.negotiated = false ∧
      (∀ n ∈ o.maxRetransmits, 0 ≤ n.toInt) ∧ ∀ n ∈ o.maxRetransmitTime, 0 ≤ n.toInt := by
  have hunset : ¬ (0 : Int) ≤ Int32.toInt (-1) := by decide
  unfold PeerConnection.Refuses BadLimits
  constructor
  · intro h
    simp only [not_or, not_exists, not_and, Bool.not_eq_true, Int.not_lt] at h
    exact ⟨h.1, h.2.2, h.2.1.2.1, h.2.1.2.2⟩
  · rintro ⟨hopen, hid, hretransmits, htime⟩
    rintro (hclosed | (⟨hsome, hsome'⟩ | ⟨n, hn, hneg⟩ | ⟨n, hn, hneg⟩) | hrefused)
    · rw [hopen] at hclosed
      cases hclosed
    · obtain ⟨n, hn⟩ := Option.isSome_iff_exists.mp hsome
      obtain ⟨n', hn'⟩ := Option.isSome_iff_exists.mp hsome'
      rcases hone n hn n' hn' with rfl | rfl
      · exact hunset (hretransmits _ hn)
      · exact hunset (htime _ hn')
    · exact absurd (hretransmits n hn) (Int.not_le.mpr hneg)
    · exact absurd (htime n hn) (Int.not_le.mpr hneg)
    · rw [show p.refusesId (o.toInit marshalAs).id (o.toInit marshalAs).negotiated = false from hid]
        at hrefused
      cases hrefused

/-- A channel is created and described only with a connection that accepts it. -/
theorem described_of_created (hlabel : o.label = some text)
    (hfree : s.dataObservers.lookup (marshalAs text) = none) {t : State} {info : DataChannelInfo}
    (hcreate : createDataChannel marshalAs p o s = .ok t)
    (hinfo : getDataChannelInfo marshalAs p o.label t = .ok (some info)) :
    (∃ connection, s.peerObserver = some ⟨some connection⟩) ∧
      ∃ ch, p.createDataChannel (marshalAs text) (o.toInit marshalAs) = some ch ∧
        info.maxRetransmits = (p.view ch).maxRetransmits.toInt16.toInt32 ∧
        info.maxRetransmitTime = (p.view ch).maxRetransmitTime.toInt16.toInt32 := by
  have hnone : ∀ t : State, t.dataObservers.lookup (marshalAs text) = none →
      getDataChannelInfo marshalAs p (some text) t = .ok none := by
    intro t ht
    rw [getDataChannelInfo, Conductor.getDataChannelInfo, channelOf, ht]
    rfl
  match hobserver : s.peerObserver with
  | none =>
    rw [createDataChannel, hlabel] at hcreate
    simp only [Conductor.createDataChannel, withConnection, hobserver] at hcreate
    cases hcreate
  | some ⟨none⟩ =>
    -- Without a connection the call returns, and there is nothing to describe.
    rw [createDataChannel, hlabel] at hcreate
    simp only [Conductor.createDataChannel, withConnection, hobserver] at hcreate
    cases hcreate
    rw [hlabel, hnone _ hfree] at hinfo
    cases hinfo
  | some ⟨some connection⟩ =>
    rw [createDataChannel_new hobserver hlabel hfree] at hcreate
    cases hch : p.createDataChannel (marshalAs text) (o.toInit marshalAs) with
    | none =>
      rw [hch] at hcreate
      cases hcreate
    | some ch =>
      rw [hch] at hcreate
      cases hcreate
      obtain ⟨info', hinfo', hlimits⟩ := getDataChannelInfo_held (p := p)
        (lookup_assign _ (marshalAs text) ⟨some ch, true⟩)
      rw [hlabel, hinfo'] at hinfo
      obtain rfl := Option.some.inj (Except.ok.inj hinfo)
      exact ⟨⟨connection, rfl⟩, ch, rfl, hlimits⟩

/-- What such a connection creates is held and described. -/
theorem described_of_accepted (hlive : s.peerObserver = some ⟨some connection⟩)
    (hlabel : o.label = some text) (hfree : s.dataObservers.lookup (marshalAs text) = none)
    {ch : Channel} (hch : p.createDataChannel (marshalAs text) (o.toInit marshalAs) = some ch) :
    ∃ t info, createDataChannel marshalAs p o s = .ok t ∧
      getDataChannelInfo marshalAs p o.label t = .ok (some info) ∧
      info.maxRetransmits = (p.view ch).maxRetransmits.toInt16.toInt32 ∧
      info.maxRetransmitTime = (p.view ch).maxRetransmitTime.toInt16.toInt32 := by
  obtain ⟨info, hinfo, hlimits⟩ := getDataChannelInfo_held (p := p)
    (lookup_assign _ (marshalAs text) ⟨some ch, true⟩)
  refine ⟨_, info, ?_, hlabel ▸ hinfo, hlimits⟩
  rw [createDataChannel_new hlive hlabel hfree, hch]

/-- Where at most one limit is set, minus one being a way to leave it unset, a channel is
created and its description has the limit that was set and minus one for what was not,
exactly when there is an open connection, the id is accepted and every limit given is one
of 0 to 32767. -/
theorem retransmit_limits_iff (hlabel : o.label = some text)
    (hfree : s.dataObservers.lookup (marshalAs text) = none)
    (hone : ∀ n ∈ o.maxRetransmits, ∀ n' ∈ o.maxRetransmitTime, n = -1 ∨ n' = -1) :
    (∃ t info, createDataChannel marshalAs p o s = .ok t ∧
      getDataChannelInfo marshalAs p o.label t = .ok (some info) ∧
      info.maxRetransmits = o.maxRetransmits.getD (-1) ∧
      info.maxRetransmitTime = o.maxRetransmitTime.getD (-1)) ↔
    (∃ connection, s.peerObserver = some ⟨some connection⟩) ∧ p.closed = false ∧
      p.refusesId o.id o.negotiated = false ∧
      (∀ n ∈ o.maxRetransmits, 0 ≤ n.toInt ∧ n.toInt ≤ 32767) ∧
      ∀ n ∈ o.maxRetransmitTime, 0 ≤ n.toInt ∧ n.toInt ≤ 32767 := by
  constructor
  · rintro ⟨t, info, hcreate, hinfo, hinfoRetransmits, hinfoTime⟩
    obtain ⟨hlive, ch, hch, hviewRetransmits, hviewTime⟩ :=
      described_of_created hlabel hfree hcreate hinfo
    have haccepts : ¬ p.Refuses (o.toInit marshalAs) := by
      intro hrefuses
      rw [(p.null_iff _ _).mpr hrefuses] at hch
      cases hch
    obtain ⟨hopen, hid, hpos, hpos'⟩ := (not_refuses_iff hone).mp haccepts
    obtain ⟨hstored, hstored'⟩ := p.stored _ _ ch hch
    rw [hviewRetransmits, hstored] at hinfoRetransmits
    rw [hviewTime, hstored'] at hinfoTime
    have hle := (reported_limit_iff hpos).mp hinfoRetransmits
    have hle' := (reported_limit_iff hpos').mp hinfoTime
    exact ⟨hlive, hopen, hid, fun n hn => ⟨hpos n hn, hle n hn⟩,
      fun n hn => ⟨hpos' n hn, hle' n hn⟩⟩
  · rintro ⟨⟨connection, hlive⟩, hopen, hid, hrange, hrange'⟩
    have hpos : ∀ n ∈ o.maxRetransmits, 0 ≤ n.toInt := fun n hn => (hrange n hn).1
    have hpos' : ∀ n ∈ o.maxRetransmitTime, 0 ≤ n.toInt := fun n hn => (hrange' n hn).1
    have haccepts : ¬ p.Refuses (o.toInit marshalAs) :=
      (not_refuses_iff hone).mpr ⟨hopen, hid, hpos, hpos'⟩
    cases hch : p.createDataChannel (marshalAs text) (o.toInit marshalAs) with
    | none => exact absurd ((p.null_iff _ _).mp hch) haccepts
    | some ch =>
      obtain ⟨hstored, hstored'⟩ := p.stored _ _ ch hch
      obtain ⟨t, info, hcreate, hinfo, hviewRetransmits, hviewTime⟩ :=
        described_of_accepted hlive hlabel hfree hch
      refine ⟨t, info, hcreate, hinfo, ?_, ?_⟩
      · rw [hviewRetransmits, hstored]
        exact (reported_limit_iff hpos).mpr fun n hn => (hrange n hn).2
      · rw [hviewTime, hstored']
        exact (reported_limit_iff hpos').mpr fun n hn => (hrange' n hn).2

theorem retransmit_limits_three :
    ∃ t info, createDataChannel marshalAscii openConnection
        { label := some [99], maxRetransmits := some 3 } .initialized = .ok t ∧
      getDataChannelInfo marshalAscii openConnection (some [99]) t = .ok (some info) ∧
      info.maxRetransmits = 3 ∧ info.maxRetransmitTime = -1 :=
  (retransmit_limits_iff (o := { label := some [99], maxRetransmits := some 3 }) rfl rfl
    (by simp)).mpr ⟨⟨7, rfl⟩, rfl, rfl, by simp, by simp⟩

/-- A limit above 32767 is reported as a negative number, one above 65535 without its upper
half, and the documented minus one ends in the use of a null channel. -/
theorem retransmit_limits_lost :
    (∃ t info, createDataChannel marshalAscii openConnection
        { label := some [99], maxRetransmits := some 40000 } .initialized = .ok t ∧
      getDataChannelInfo marshalAscii openConnection (some [99]) t = .ok (some info) ∧
      info.maxRetransmits = -25536) ∧
    (∃ t info, createDataChannel marshalAscii openConnection
        { label := some [99], maxRetransmitTime := some 70000 } .initialized = .ok t ∧
      getDataChannelInfo marshalAscii openConnection (some [99]) t = .ok (some info) ∧
      info.maxRetransmitTime = 4464) ∧
    createDataChannel marshalAscii openConnection
      { label := some [99], maxRetransmits := some (-1) } .initialized =
        .error (.fault .nullDataChannel) := by
  exact ⟨⟨_, _, rfl, rfl, by decide⟩, ⟨_, _, rfl, rfl, by decide⟩, rfl⟩

end Spitfire.Rtc
