import Spitfire.Conductor.ChannelRuns
import Spitfire.Conductor.Initialization

/-! A conductor under all of its public operations, and what they do to the channel map. -/
namespace Spitfire.Conductor
open Transition

/-- An untouched channel in this state. -/
def ChannelView.ofState (state : DataState) : ChannelView :=
  ⟨0, 0, 0, 0, true, true, false, 0, 0, 0, 0, "", state⟩

/-- The public operations, with what the library underneath makes of them. -/
inductive Operation where
  | addServerConfig (server : IceServer)
  | initializePeerConnection (outcome : Outcome) (order : List Label)
  | createOffer
  | onOfferReply (parses : Bool) (type sdp : String)
  | onOfferRequest (parses : Bool) (sdp : String)
  | addIceCandidate (parses applied : Bool) (candidate : CandidateText)
  | processMessages (quitting : Bool)
  | channel (op : ChannelOperation)
  deriving DecidableEq, Repr

def Operation.exec (view : Channel → ChannelView) (op : Operation) (s : State) :
    Except Fault State :=
  match op with
  | addServerConfig server => .ok (Conductor.addServerConfig server s)
  | initializePeerConnection outcome order =>
    (Conductor.initializePeerConnection outcome order s).map Prod.snd
  | createOffer => (Conductor.createOffer s).map Prod.snd
  | onOfferReply parses type sdp => (Conductor.onOfferReply parses type sdp s).map Prod.snd
  | onOfferRequest parses sdp => (Conductor.onOfferRequest parses sdp s).map Prod.snd
  | addIceCandidate parses applied candidate =>
    (Conductor.addIceCandidate parses applied candidate s).map Prod.snd
  | processMessages quitting => .ok (Conductor.processMessages quitting s).2
  | channel op => op.exec view s

section
variable (labelOf : Nat → Label)

/-- The channel bears the label that was asked for or announced, and every channel has one
label. A channel may be refused or announced again. -/
def ChannelOperation.Supplied (s : State) : ChannelOperation → Prop
  | createDataChannel l _ channel => ∀ ch ∈ channel, ch.label = l ∧ labelOf ch.id = l
  | handleDataChannel ch => labelOf ch.id = ch.label
  | deletePeerConnection order => order.Perm s.dataObservers.keys
  | _ => True

/-- Wherever the map is walked, it is walked in some order. -/
def Operation.Supplied (s : State) : Operation → Prop
  | initializePeerConnection _ order => order.Perm s.dataObservers.keys
  | channel op => op.Supplied labelOf s
  | _ => True

instance ChannelOperation.suppliedDecidable (s : State) :
    (op : ChannelOperation) → Decidable (op.Supplied labelOf s)
  | createDataChannel _ _ channel => inferInstanceAs (Decidable (∀ ch ∈ channel, _ ∧ _))
  | handleDataChannel _ => inferInstanceAs (Decidable (_ = _))
  | deletePeerConnection _ => inferInstanceAs (Decidable (List.Perm _ _))
  | closeDataChannel _ | sendToDataChannel _ _ | getDataChannelInfo _ | getDataChannelState _ =>
    inferInstanceAs (Decidable True)

instance Operation.suppliedDecidable (s : State) :
    (op : Operation) → Decidable (op.Supplied labelOf s)
  | initializePeerConnection _ _ => inferInstanceAs (Decidable (List.Perm _ _))
  | channel op => inferInstanceAs (Decidable (op.Supplied labelOf s))
  | addServerConfig _ | createOffer | onOfferReply _ _ _ | onOfferRequest _ _
  | addIceCandidate _ _ _ | processMessages _ => inferInstanceAs (Decidable True)

/-- An operation that goes through a null pointer ends the run. -/
def Operation.next (view : Channel → ChannelView) (s : State) (op : Operation) : Option State :=
  if op.Supplied labelOf s then (op.exec view s).toOption else none

theorem Operation.next_eq_some {view : Channel → ChannelView} {s t : State} {op : Operation} :
    op.next labelOf view s = some t ↔ op.Supplied labelOf s ∧ op.exec view s = .ok t := by
  unfold Operation.next
  split
  · rename_i hop
    simp [toOption_eq_some, hop]
  · rename_i hop
    simp [hop]

/-- Every entry of the map observes a channel of its label. -/
def Observing (s : State) : Prop :=
  ∀ l o, s.dataObservers.lookup l = some o →
    o.registered = true ∧ ∃ ch, o.dataChannel = some ch ∧ ch.label = l ∧ labelOf ch.id = l

end

variable {labelOf : Nat → Label} {s t : State}

theorem Observing.congr (h : Observing labelOf s) (hmap : t.dataObservers = s.dataObservers) :
    Observing labelOf t := by
  rw [Observing, hmap]
  exact h

theorem handleDataChannel_lookup {ch : Channel} (h : handleDataChannel ch s = .ok t) (l : Label) :
    t.dataObservers.lookup l = if l = ch.label ∧ s.dataObservers.lookup l = none
      then some ⟨some ch, true⟩ else s.dataObservers.lookup l := by
  unfold handleDataChannel at h
  split at h
  · rename_i hfree
    cases h
    by_cases hl : l = ch.label
    · subst hl
      rw [if_pos ⟨rfl, hfree⟩]
      exact AList.lookup_insert _
    · rw [if_neg fun h => hl h.1]
      exact AList.lookup_insert_ne hl
  · rename_i htaken
    cases h
    rw [if_neg]
    rintro ⟨rfl, hfree⟩
    exact htaken hfree

theorem closeDataChannel_lookup {l : Label} (h : closeDataChannel l s = .ok t) (l' : Label) :
    t.dataObservers.lookup l' = if l' = l then none else s.dataObservers.lookup l' := by
  unfold closeDataChannel at h
  split at h
  · rename_i hnone
    cases h
    split
    · rename_i hl
      rw [hl, hnone]
    · rfl
  · obtain ⟨s₁, hunregister, herase⟩ := bind_eq_ok.mp h
    cases herase
    rw [erase_lookup]
    split
    · rfl
    · rename_i hl
      exact unregisterEntry_lookup hunregister hl

theorem closeDataChannel_of_lookup {l : Label} {o : DataChannelObserver} {ch : Channel}
    (ho : s.dataObservers.lookup l = some o) (hch : o.dataChannel = some ch) :
    ∃ t, closeDataChannel l s = .ok t ∧ t.log =
      s.log ++ [.close ch.id, .unregisterObserver ch.id, .removed ch.id false] := by
  have hrun : closeDataChannel l s = .ok (((s.record
      [.close ch.id, .unregisterObserver ch.id]).update l ⟨some ch, false⟩).erase l) := by
    rw [closeDataChannel, ho]
    dsimp only
    rw [unregisterEntry_of_lookup ho hch]
    rfl
  have hupdated : ((s.record [.close ch.id, .unregisterObserver ch.id]).update l
      ⟨some ch, false⟩).dataObservers.lookup l = some ⟨some ch, false⟩ := AList.lookup_insert _
  refine ⟨_, hrun, ?_⟩
  rw [State.erase, hupdated]
  simp [State.record, State.update, DataChannelObserver.removal]

theorem Observing.holds (h : Observing labelOf s) {l : Label} {ch : Channel} (hl : Holds s l ch) :
    ch.label = l ∧ labelOf ch.id = l := by
  obtain ⟨o, ho, hch⟩ := hl
  obtain ⟨_, ch', hch', hlabel⟩ := h l o ho
  obtain rfl := Option.some.inj (hch.symm.trans hch')
  exact hlabel

theorem observing_empty (h : s.dataObservers = ∅) : Observing labelOf s := by
  intro l o ho
  rw [h, AList.lookup_empty] at ho
  cases ho

/-- The channels are left alone. -/
def Quiet (s t : State) : Prop :=
  t.dataObservers = s.dataObservers ∧
    ∃ es, t.log = s.log ++ es ∧ ∀ e ∈ es, ∀ c, e.concerns c = false

theorem Quiet.refl (s : State) : Quiet s s := ⟨rfl, [], by simp⟩

theorem quiet_record {es : List Event} (hes : ∀ e ∈ es, ∀ c, e.concerns c = false) :
    Quiet s (s.record es) := ⟨rfl, es, rfl, hes⟩

/-- What holds before an operation and after what it does beyond its test for a connection
holds after it. -/
theorem withConnection_keeps {P : State → Prop} {α : Type} {early : α}
    {k : Except Fault (α × State)} (hs : P s) (hk : ∀ a u, k = .ok (a, u) → P u)
    (h : (withConnection s early k).map Prod.snd = .ok t) : P t := by
  obtain ⟨⟨a, u⟩, hguarded, rfl⟩ := map_eq_ok.mp h
  unfold withConnection at hguarded
  split at hguarded
  · cases hguarded
  · cases hguarded
    exact hs
  · exact hk a u hguarded

/-- The channel that the library supplies to an operation. -/
def Operation.supplied : Operation → Option Channel
  | channel (.createDataChannel _ _ result) => result
  | channel (.handleDataChannel ch) => some ch
  | _ => none

/-- What an operation can do to the channels. -/
inductive Change (labelOf : Nat → Label) (s : State) (op : Operation) (t : State) : Prop
  | quiet (h : Quiet s t)
  | joins {s' : State} {ch : Channel} (hquiet : Quiet s s') (hop : op.supplied = some ch)
      (hlabel : labelOf ch.id = ch.label) (hrun : handleDataChannel ch s' = .ok t)
  | leaves {l : Label} (hrun : closeDataChannel l s = .ok t)
  | torn {s' : State} {order : List Label} (hquiet : Quiet s s')
      (horder : order.Perm s'.dataObservers.keys) (hrun : deletePeerConnection order s' = .ok t)

theorem change_of_channel {view : Channel → ChannelView} {op : ChannelOperation}
    (hop : op.Supplied labelOf s) (hrun : op.exec view s = .ok t) :
    Change labelOf s (.channel op) t := by
  cases op with
  | createDataChannel l config channel =>
    rw [ChannelOperation.exec] at hrun
    by_cases hobserver : s.peerObserver.isSome = true
    · rw [createDataChannel_eq hobserver l config channel fun ch hch => (hop ch hch).1] at hrun
      split at hrun
      · cases channel with
        | none => cases hrun
        | some ch =>
          obtain ⟨rfl, hlabel⟩ := hop ch rfl
          exact .joins (quiet_record (by simp [Event.concerns])) rfl hlabel hrun
      · cases hrun
        exact .quiet (.refl s)
    · rw [Option.not_isSome_iff_eq_none] at hobserver
      rw [createDataChannel, withConnection, hobserver] at hrun
      cases hrun
  | handleDataChannel ch => exact .joins (.refl s) rfl hop hrun
  | closeDataChannel l => exact .leaves hrun
  | sendToDataChannel l buffer =>
    obtain ⟨channel, _, hsend⟩ := bind_eq_ok.mp hrun
    cases channel with
    | none =>
      cases hsend
      exact .quiet (.refl s)
    | some ch =>
      cases hsend
      exact .quiet (quiet_record (by simp [Event.concerns]))
  | getDataChannelInfo l =>
    obtain ⟨_, _, rfl⟩ := map_eq_ok.mp hrun
    exact .quiet (.refl s)
  | getDataChannelState l =>
    obtain ⟨_, _, rfl⟩ := map_eq_ok.mp hrun
    exact .quiet (.refl s)
  | deletePeerConnection order => exact .torn (.refl s) hop hrun

/-- Nothing has changed but the servers, the wrapping of the caller's thread, and the log by
calls that concern no channel. -/
structure Aside (s t : State) : Prop where
  same : t = { s with servers := t.servers, currentThread := t.currentThread, log := t.log }
  log : ∃ es, t.log = s.log ++ es ∧ ∀ e ∈ es, ∀ c, e.concerns c = false

theorem Aside.refl (s : State) : Aside s s := ⟨rfl, [], by simp⟩

theorem aside_record {es : List Event} (hes : ∀ e ∈ es, ∀ c, e.concerns c = false) :
    Aside s (s.record es) := ⟨rfl, es, rfl, hes⟩

theorem Aside.quiet (h : Aside s t) : Quiet s t := by
  refine ⟨?_, h.log⟩
  rw [h.same]

/-- The operations that neither initialize nor work on the channels. -/
def Operation.Aloof : Operation → Prop
  | initializePeerConnection _ _ | channel _ => False
  | _ => True

theorem aside_exec {view : Channel → ChannelView} {op : Operation} (hrun : op.exec view s = .ok t)
    (hop : op.Aloof) : Aside s t := by
  cases op with
  | initializePeerConnection outcome order => cases hop
  | channel op => cases hop
  | addServerConfig server =>
    cases hrun
    exact ⟨rfl, [], by simp [Conductor.addServerConfig]⟩
  | processMessages quitting =>
    cases hrun
    exact ⟨rfl, [], by simp [Conductor.processMessages]⟩
  | createOffer =>
    refine withConnection_keeps (.refl s) ?_ hrun
    intro a u hu
    cases hu
    exact aside_record (by simp [Event.concerns])
  | onOfferReply parses type sdp =>
    refine withConnection_keeps (.refl s) ?_ hrun
    intro a u hu
    split at hu
    · cases hu
      exact .refl s
    · cases hu
      exact aside_record (by simp [Event.concerns])
  | onOfferRequest parses sdp =>
    refine withConnection_keeps (.refl s) ?_ hrun
    intro a u hu
    split at hu
    · cases hu
      exact .refl s
    · cases hu
      exact aside_record (by simp [Event.concerns])
  | addIceCandidate parses applied candidate =>
    cases parses with
    | false =>
      cases hrun
      exact .refl s
    | true =>
      refine withConnection_keeps (.refl s) ?_ hrun
      intro a u hu
      cases hu
      exact aside_record (by simp [Event.concerns])

theorem initializes_concerns {e : Event} {servers : List IceServer}
    (h : e.initializes servers = true) (c : Nat) : e.concerns c = false := by
  cases e with
  | registerObserver d | close d | unregisterObserver d | inserted d =>
    simp [Event.initializes, Event.isRelease] at h
  | removed d registered => simp [Event.initializes, Event.isRelease] at h
  | _ => rfl

theorem change_of_next {view : Channel → ChannelView} {op : Operation}
    (hnext : op.next labelOf view s = some t) : Change labelOf s op t := by
  obtain ⟨hop, hrun⟩ := (Operation.next_eq_some labelOf).mp hnext
  cases op with
  | initializePeerConnection outcome order =>
    obtain ⟨⟨b, u⟩, hinit, rfl⟩ := map_eq_ok.mp hrun
    obtain ⟨s', hmap, _, hlog, hend⟩ := initializePeerConnection_ok hinit
    obtain ⟨es, hlog, hes⟩ := hlog
    have hquiet : Quiet s s' := ⟨hmap, es, hlog, fun e he => initializes_concerns (hes e he)⟩
    rcases hend with ⟨_, _, _, rfl⟩ | ⟨_, _, hteardown⟩
    · exact .quiet hquiet
    · refine .torn hquiet ?_ hteardown
      rw [hmap]
      exact hop
  | channel op => exact change_of_channel hop hrun
  | _ => exact .quiet (aside_exec hrun trivial).quiet

/-- Every operation that returns leaves each entry with a channel of its label. -/
theorem observing_next (view : Channel → ChannelView) (s : State) (op : Operation) (t : State)
    (h : Observing labelOf s) (hnext : op.next labelOf view s = some t) : Observing labelOf t := by
  cases change_of_next hnext with
  | quiet hquiet => exact h.congr hquiet.1
  | joins hquiet _ hlabel hrun =>
    intro l o ho
    rw [handleDataChannel_lookup hrun, hquiet.1] at ho
    split at ho
    · rename_i hl
      obtain rfl := Option.some.inj ho
      exact ⟨rfl, _, rfl, hl.1.symm, hlabel.trans hl.1.symm⟩
    · exact h l o ho
  | leaves hrun =>
    intro l' o ho
    rw [closeDataChannel_lookup hrun] at ho
    split at ho
    · cases ho
    · exact h l' o ho
  | torn _ _ hrun => exact observing_empty (deletePeerConnection_empty hrun)

end Spitfire.Conductor
