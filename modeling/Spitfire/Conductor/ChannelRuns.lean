import Spitfire.Conductor.Registry
import Spitfire.Transition.Run

/-! Runs of the channel operations, each taken as one step. -/
namespace Spitfire.Conductor
open Transition

/-- The channel operations with what the library underneath supplies to them: a channel, or
none where it refuses to make one, and the order in which the map is walked and cleared. -/
inductive ChannelOperation where
  | createDataChannel (label : Label) (config : DataChannelInit) (channel : Option Channel)
  | handleDataChannel (channel : Channel)
  | closeDataChannel (label : Label)
  | sendToDataChannel (label : Label) (buffer : DataBuffer)
  | getDataChannelInfo (label : Label)
  | getDataChannelState (label : Label)
  | deletePeerConnection (order : List Label)
  deriving DecidableEq, Repr

namespace ChannelOperation

/-- The label that the operation is about; the teardown is about all of them. -/
def label : ChannelOperation → Option Label
  | createDataChannel l _ _ | closeDataChannel l | sendToDataChannel l _ | getDataChannelInfo l
  | getDataChannelState l => some l
  | handleDataChannel ch => some ch.label
  | deletePeerConnection _ => none

def exec (view : Channel → ChannelView) (op : ChannelOperation) (s : State) : Except Fault State :=
  match op with
  | createDataChannel l config channel =>
    Prod.snd <$> Conductor.createDataChannel l config channel s
  | handleDataChannel ch => Conductor.handleDataChannel ch s
  | closeDataChannel l => Conductor.closeDataChannel l s
  | sendToDataChannel l buffer => Conductor.sendToDataChannel l buffer s
  | getDataChannelInfo l => (fun _ => s) <$> Conductor.getDataChannelInfo view l s
  | getDataChannelState l => (fun _ => s) <$> Conductor.getDataChannelState view l s
  | deletePeerConnection order => Conductor.deletePeerConnection order s

/-- A channel is supplied only while there is a peer observer, and none is refused; it bears
the label that was asked for or announced, and no channel is supplied again once it has been
used. -/
def Allowed (s : State) : ChannelOperation → Prop
  | createDataChannel _ _ none => False
  | createDataChannel l _ (some ch) =>
    s.peerObserver.isSome = true ∧ ch.label = l ∧ channelLog s ch.id = []
  | handleDataChannel ch => s.peerObserver.isSome = true ∧ channelLog s ch.id = []
  | deletePeerConnection order => order.Perm s.dataObservers.keys
  | _ => True

instance (s : State) : (op : ChannelOperation) → Decidable (op.Allowed s)
  | createDataChannel _ _ none => inferInstanceAs (Decidable False)
  | createDataChannel _ _ (some _) => inferInstanceAs (Decidable (_ ∧ _ ∧ _))
  | handleDataChannel _ => inferInstanceAs (Decidable (_ ∧ _))
  | deletePeerConnection _ => inferInstanceAs (Decidable (List.Perm _ _))
  | closeDataChannel _ | sendToDataChannel _ _ | getDataChannelInfo _ | getDataChannelState _ =>
    inferInstanceAs (Decidable True)

def next (view : Channel → ChannelView) (s : State) (op : ChannelOperation) : Option State :=
  if op.Allowed s then (op.exec view s).toOption else none

end ChannelOperation

/-- The channel's last registration has not been taken back. -/
def Observed (s : State) (c : Nat) : Prop :=
  (s.log.filter fun e => e = .registerObserver c ∨ e = .unregisterObserver c).getLast? =
    some (.registerObserver c)

/-- The map holds this channel under this label. -/
def Holds (s : State) (l : Label) (ch : Channel) : Prop :=
  ∃ o, s.dataObservers.lookup l = some o ∧ o.dataChannel = some ch

theorem Holds.not_free {s : State} {l : Label} {ch : Channel} (h : Holds s l ch) :
    s.dataObservers.lookup l ≠ none := by
  obtain ⟨o, ho, _⟩ := h
  simp [ho]

/-- The map, the registrations and the calls made on the channels fit together. -/
structure Consistent (s : State) : Prop where
  entry : ∀ l o, s.dataObservers.lookup l = some o →
    o.registered = true ∧ ∃ ch, o.dataChannel = some ch ∧ ch.label = l
  distinct : ∀ l l' ch ch', Holds s l ch → Holds s l' ch' → ch.id = ch'.id → l = l'
  observed : ∀ c, Observed s c ↔ ∃ l ch, Holds s l ch ∧ ch.id = c
  inside : ∀ l ch, Holds s l ch →
    channelLog s ch.id = [.registerObserver ch.id, .inserted ch.id]
  left : ∀ c, .inserted c ∈ s.log → (∀ l ch, Holds s l ch → ch.id ≠ c) →
    channelLog s c = [.registerObserver c, .inserted c, .close c, .unregisterObserver c,
      .removed c false]

/-- No channel is on its way into the map or out of it. -/
def Settled (s : State) : Prop :=
  ∃ phase, Registered s phase ∧ ∀ c, (phase c).resting = true

theorem held_of_holds {s : State} {phase : Nat → Phase} (h : Registered s phase)
    (hrest : ∀ c, (phase c).resting = true) {l : Label} {ch : Channel} (hh : Holds s l ch) :
    phase ch.id = .held l := by
  obtain ⟨o, ho, hch⟩ := hh
  obtain ⟨ch', hch', _, hphase⟩ := h.entry l o ho
  obtain rfl : ch = ch' := Option.some.inj (hch.symm.trans hch')
  split at hphase
  · exact hphase
  · have hch := hrest ch.id
    rw [hphase] at hch
    cases hch

theorem observed_iff {s : State} {phase : Nat → Phase} (h : Registered s phase)
    (hrest : ∀ c, (phase c).resting = true) (c : Nat) : Observed s c ↔ ∃ l, phase c = .held l := by
  have hfilter : (s.log.filter fun e => e = .registerObserver c ∨ e = .unregisterObserver c) =
      ((phase c).events c).filter fun e => e = .registerObserver c ∨ e = .unregisterObserver c := by
    rw [← h.history c, channelLog, List.filter_filter]
    apply List.filter_congr
    intro e _
    cases e <;> simp [Event.concerns]
  have hc := hrest c
  rw [Observed, hfilter]
  cases hp : phase c with
  | unused => simp [Phase.events]
  | observed =>
    rw [hp] at hc
    cases hc
  | held l => simp [Phase.events]
  | closing l =>
    rw [hp] at hc
    cases hc
  | released => simp [Phase.events]

theorem Settled.consistent {s : State} (h : Settled s) : Consistent s := by
  obtain ⟨phase, h, hrest⟩ := h
  have hheld {l : Label} {ch : Channel} : Holds s l ch → phase ch.id = .held l :=
    held_of_holds h hrest
  have hholds {c : Nat} {l : Label} (hc : phase c = .held l) : ∃ ch, Holds s l ch ∧ ch.id = c := by
    obtain ⟨o, ch, ho, hch, hid⟩ := h.held c l (Or.inl hc)
    exact ⟨ch, ⟨o, ho, hch⟩, hid⟩
  refine ⟨?_, ?_, ?_, ?_, ?_⟩
  · intro l o ho
    obtain ⟨ch, hch, hlabel, hphase⟩ := h.entry l o ho
    refine ⟨?_, ch, hch, hlabel⟩
    by_contra hreg
    rw [if_neg hreg, hheld ⟨o, ho, hch⟩] at hphase
    cases hphase
  · intro l l' ch ch' hl hl' hid
    have hsame := hheld hl
    rw [hid, hheld hl'] at hsame
    exact (Phase.held.inj hsame).symm
  · intro c
    rw [observed_iff h hrest]
    constructor
    · rintro ⟨l, hl⟩
      exact ⟨l, hholds hl⟩
    · rintro ⟨l, ch, hl, rfl⟩
      exact ⟨l, hheld hl⟩
  · intro l ch hl
    rw [h.history, hheld hl, Phase.events]
  · intro c hins hout
    have hmem : Event.inserted c ∈ channelLog s c :=
      List.mem_filter.mpr ⟨hins, by simp [Event.concerns]⟩
    have hc := hrest c
    rw [h.history] at hmem ⊢
    cases hp : phase c with
    | unused =>
      rw [hp] at hmem
      cases hmem
    | observed =>
      rw [hp] at hc
      cases hc
    | held l =>
      obtain ⟨ch, hl, hid⟩ := hholds hp
      exact (hout l ch hl hid).elim
    | closing l =>
      rw [hp] at hc
      cases hc
    | released => rfl

/-- Calls that concern no channel do not disturb the registry. -/
theorem Settled.record {s : State} (h : Settled s) {es : List Event}
    (hes : ∀ e ∈ es, ∀ c, e.concerns c = false) : Settled (s.record es) := by
  obtain ⟨phase, h, hrest⟩ := h
  exact ⟨phase, h.extend rfl rfl hes, hrest⟩

/-- A fresh channel is registered and inserted, or the label is taken and nothing happens. -/
theorem settled_handleDataChannel {s : State} (h : Settled s) {ch : Channel}
    (hfresh : channelLog s ch.id = []) :
    ∃ t, handleDataChannel ch s = .ok t ∧ Settled t ∧
      ∀ l' ≠ ch.label, t.dataObservers.lookup l' = s.dataObservers.lookup l' := by
  by_cases hfree : s.dataObservers.lookup ch.label = none
  · obtain ⟨phase, h, hrest⟩ := h
    have h₁ := registered_observe h (phase_unused_of_fresh h hfresh)
    have h₂ := registered_assign h₁ (Function.update_self ..) hfree
    refine ⟨(s.record [.registerObserver ch.id]).assign ch.label ⟨some ch, true⟩, ?_, ⟨_,
      h₂, ?_⟩, fun l' hl => AList.lookup_insert_ne hl⟩
    · rw [handleDataChannel, if_pos hfree]
      rfl
    · intro c
      by_cases hc : c = ch.id
      · rw [hc, Function.update_self]
        rfl
      · rw [Function.update_of_ne hc, Function.update_of_ne hc]
        exact hrest c
  · exact ⟨s, by rw [handleDataChannel, if_neg hfree], h, fun l' _ => rfl⟩

/-- `CreateDataChannel` gets as far as asking the connection for a channel. -/
def State.Asks (s : State) (l : Label) : Prop :=
  (connectionOf s.peerObserver).isSome = true ∧ s.dataObservers.lookup l = none

instance (s : State) (l : Label) : Decidable (s.Asks l) := inferInstanceAs (Decidable (_ ∧ _))

/-- A channel is asked for or nothing happens. The null of a refusal is used at once, and what
is returned under the label that was asked for is treated like an announced channel. -/
theorem createDataChannel_eq {s : State} (hobserver : s.peerObserver.isSome = true) (l : Label)
    (config : DataChannelInit) (channel : Option Channel)
    (hlabel : ∀ ch ∈ channel, ch.label = l) :
    Prod.snd <$> createDataChannel l config channel s =
      if s.Asks l then channel.elim (.error .nullDataChannel) fun ch =>
        handleDataChannel ch (s.record [.createDataChannel l config])
      else .ok s := by
  obtain ⟨⟨connection⟩, ho⟩ := Option.isSome_iff_exists.mp hobserver
  cases connection with
  | none => simp [createDataChannel, withConnection, State.Asks, connectionOf, ho]
  | some n =>
    by_cases hfree : s.dataObservers.lookup l = none
    · have hasks : s.Asks l := ⟨by simp [connectionOf, ho], hfree⟩
      rw [if_pos hasks]
      simp only [createDataChannel, withConnection, ho, if_pos hfree]
      cases channel with
      | none => rfl
      | some ch =>
        obtain rfl := hlabel ch rfl
        have hfree' : (s.record [.createDataChannel ch.label config]).dataObservers.lookup
            ch.label = none := hfree
        rw [Option.elim_some, handleDataChannel, if_pos hfree']
        rfl
    · simp [createDataChannel, withConnection, State.Asks, ho, hfree]

theorem settled_closeDataChannel {s : State} (h : Settled s) (l : Label) :
    ∃ t, closeDataChannel l s = .ok t ∧ Settled t ∧
      ∀ l' ≠ l, t.dataObservers.lookup l' = s.dataObservers.lookup l' := by
  obtain ⟨phase, h, hrest⟩ := h
  cases ho : s.dataObservers.lookup l with
  | none =>
    refine ⟨s, ?_, ⟨phase, h, hrest⟩, fun l' _ => rfl⟩
    rw [closeDataChannel, ho]
  | some o =>
    obtain ⟨ch, hch, _, _⟩ := h.entry l o ho
    have hheld := held_of_holds h hrest ⟨o, ho, hch⟩
    obtain ⟨s₁, hrun, hframe, h₁⟩ := registered_unregisterEntry h hheld
    obtain ⟨herase, h₂⟩ := registered_erase h₁ (Function.update_self ..)
    refine ⟨s₁.erase l, ?_, ⟨_, h₂, ?_⟩, ?_⟩
    · rw [closeDataChannel, ho]
      dsimp only
      rw [hrun]
      rfl
    · intro c
      by_cases hc : c = ch.id
      · rw [hc, Function.update_self]
        rfl
      · rw [Function.update_of_ne hc, Function.update_of_ne hc]
        exact hrest c
    · intro l' hl
      rw [herase, AList.lookup_erase_ne hl, hframe l' hl]

/-- An entry of the map has a channel to ask. -/
theorem Settled.channelOf {s : State} (h : Settled s) (l : Label) :
    ∃ channel, channelOf l s = .ok channel := by
  cases ho : s.dataObservers.lookup l with
  | none => exact ⟨none, by rw [Conductor.channelOf, ho]⟩
  | some o =>
    obtain ⟨_, ch, hch, _⟩ := h.consistent.entry l o ho
    exact ⟨some ch, by simp only [Conductor.channelOf, ho, hch]⟩

/-- Every allowed operation runs without a fault, keeps the registry settled and leaves
the entries of other labels as they were. -/
theorem settled_exec (view : Channel → ChannelView) {s : State} (h : Settled s)
    {op : ChannelOperation} (hop : op.Allowed s) :
    ∃ t, op.exec view s = .ok t ∧ Settled t ∧ ∀ l, op.label = some l →
      ∀ l' ≠ l, t.dataObservers.lookup l' = s.dataObservers.lookup l' := by
  have hsame (op : ChannelOperation) : ∀ l, op.label = some l →
      ∀ l' ≠ l, s.dataObservers.lookup l' = s.dataObservers.lookup l' := fun _ _ _ _ => rfl
  cases op with
  | createDataChannel l config channel =>
    cases channel with
    | none => exact hop.elim
    | some ch =>
      obtain ⟨hobserver, rfl, hfresh⟩ := hop
      rw [ChannelOperation.exec, createDataChannel_eq hobserver _ _ _ (by simp)]
      have hnone : ∀ e ∈ [Event.createDataChannel ch.label config], ∀ c, e.concerns c = false := by
        simp [Event.concerns]
      split
      · have hfresh' : channelLog (s.record [.createDataChannel ch.label config]) ch.id = [] := by
          rw [channelLog_append rfl, hfresh]
          rfl
        obtain ⟨t, hrun, ht, hframe⟩ := settled_handleDataChannel (h.record hnone) hfresh'
        exact ⟨t, hrun, ht, fun l hl => Option.some.inj hl ▸ hframe⟩
      · exact ⟨s, rfl, h, hsame _⟩
  | handleDataChannel ch =>
    obtain ⟨t, hrun, ht, hframe⟩ := settled_handleDataChannel h hop.2
    exact ⟨t, hrun, ht, fun l hl => Option.some.inj hl ▸ hframe⟩
  | closeDataChannel l =>
    obtain ⟨t, hrun, ht, hframe⟩ := settled_closeDataChannel h l
    exact ⟨t, hrun, ht, fun l hl => Option.some.inj hl ▸ hframe⟩
  | sendToDataChannel l buffer =>
    obtain ⟨channel, hchannel⟩ := h.channelOf l
    rw [ChannelOperation.exec, sendToDataChannel, hchannel]
    cases channel with
    | none => exact ⟨s, rfl, h, hsame _⟩
    | some ch => exact ⟨_, rfl, h.record (by simp [Event.concerns]), fun _ _ _ _ => rfl⟩
  | getDataChannelInfo l =>
    obtain ⟨channel, hchannel⟩ := h.channelOf l
    rw [ChannelOperation.exec, getDataChannelInfo, hchannel]
    exact ⟨s, rfl, h, hsame _⟩
  | getDataChannelState l =>
    obtain ⟨channel, hchannel⟩ := h.channelOf l
    rw [ChannelOperation.exec, getDataChannelState, hchannel]
    exact ⟨s, rfl, h, hsame _⟩
  | deletePeerConnection order =>
    obtain ⟨phase, h, hrest⟩ := h
    obtain ⟨t, phase', hrun, ht, hrest⟩ := registered_deletePeerConnection h hrest hop
    refine ⟨t, hrun, ⟨phase', ht, hrest⟩, ?_⟩
    intro l hl
    cases hl

theorem settled_next (view : Channel → ChannelView) (s : State) (op : ChannelOperation) (t : State)
    (h : Settled s) (hnext : op.next view s = some t) : Settled t := by
  by_cases hop : op.Allowed s
  · obtain ⟨t', hrun, ht, _⟩ := settled_exec view h hop
    rw [ChannelOperation.next, if_pos hop, hrun] at hnext
    exact Option.some.inj hnext ▸ ht
  · rw [ChannelOperation.next, if_neg hop] at hnext
    cases hnext

/-- In every state that channel operations reach from an empty map, the map, the
registrations and the calls made on the channels fit together, and every allowed operation
succeeds there and leaves the entries of all other labels alone. -/
theorem channel_registry_consistent (view : Channel → ChannelView) {s t : State}
    {ops : List ChannelOperation} (hmap : s.dataObservers = ∅) (hlog : ∀ c, channelLog s c = [])
    (hrun : run (fun s op => op.next view s) s ops = some t) :
    Consistent t ∧ ∀ op : ChannelOperation, op.Allowed t → ∃ u, op.exec view t = .ok u ∧
      ∀ l, op.label = some l → ∀ l' ≠ l, u.dataObservers.lookup l' = t.dataObservers.lookup l' := by
  have ht : Settled t :=
    run_invariant (settled_next view) ⟨_, registered_empty hmap hlog, fun _ => rfl⟩ hrun
  refine ⟨ht.consistent, ?_⟩
  intro op hop
  obtain ⟨u, hu, _, hframe⟩ := settled_exec view ht hop
  exact ⟨u, hu, hframe⟩

private def openTwoCloseAll : List ChannelOperation :=
  [.createDataChannel [97] {} (some ⟨0, [97]⟩), .handleDataChannel ⟨1, [98]⟩,
    .handleDataChannel ⟨2, [97]⟩, .sendToDataChannel [98] ⟨[1, 2, 3], true⟩,
    .closeDataChannel [97], .deletePeerConnection [[98]]]

/-- Two channels are opened, one from each side; one of them is closed and the teardown
takes the other. -/
theorem channel_registry_two_channels : ∃ t,
    run (fun s op => op.next (fun _ => ⟨0, 0, 0, 0, true, true, false, 0, 0, 0, 0, "", .opened⟩) s)
      State.initialized openTwoCloseAll = some t ∧ Consistent t ∧ .removed 1 false ∈ t.log := by
  have hsome : ((run (fun s op => op.next
      (fun _ => ⟨0, 0, 0, 0, true, true, false, 0, 0, 0, 0, "", .opened⟩) s)
      State.initialized openTwoCloseAll).map fun t => decide (.removed 1 false ∈ t.log)) =
        some true := by decide +kernel
  obtain ⟨t, ht, hlog⟩ := Option.map_eq_some_iff.mp hsome
  exact ⟨t, ht, (channel_registry_consistent _ rfl (fun c => rfl) ht).1, of_decide_eq_true hlog⟩

end Spitfire.Conductor
