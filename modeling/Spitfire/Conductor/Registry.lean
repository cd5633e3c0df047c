import Spitfire.Conductor.Operations
import Spitfire.Transition.Fallible

/-! The channel map and the channels that pass through it. Every channel goes once
through a life of five phases, and the map, the flags of its observers and the calls made
on a channel are all determined by the phase that the channel is in. -/
namespace Spitfire.Conductor
open Transition

/-- The life of a channel in the eyes of the conductor. -/
inductive Phase where
  | unused
  | observed
  | held (label : Label)
  | closing (label : Label)
  | released
  deriving DecidableEq, Repr

/-- What has happened to a channel by each phase. -/
def Phase.events (c : Nat) : Phase → List Event
  | .unused => []
  | .observed => [.registerObserver c]
  | .held _ => [.registerObserver c, .inserted c]
  | .closing _ => [.registerObserver c, .inserted c, .close c, .unregisterObserver c]
  | .released => [.registerObserver c, .inserted c, .close c, .unregisterObserver c,
      .removed c false]

/-- The event is part of the life of this channel. -/
def Event.concerns (c : Nat) : Event → Bool
  | .registerObserver d | .close d | .unregisterObserver d | .inserted d | .removed d _ => d = c
  | _ => false

def channelLog (s : State) (c : Nat) : List Event := s.log.filter (Event.concerns c)

/-- The state agrees with an assignment of phases. -/
structure Registered (s : State) (phase : Nat → Phase) : Prop where
  history : ∀ c, channelLog s c = (phase c).events c
  entry : ∀ l o, s.dataObservers.lookup l = some o → ∃ ch, o.dataChannel = some ch ∧
    ch.label = l ∧ phase ch.id = if o.registered then .held l else .closing l
  held : ∀ c l, phase c = .held l ∨ phase c = .closing l →
    ∃ o ch, s.dataObservers.lookup l = some o ∧ o.dataChannel = some ch ∧ ch.id = c

theorem channelLog_append {s s' : State} {es : List Event} (h : s'.log = s.log ++ es) (c : Nat) :
    channelLog s' c = channelLog s c ++ es.filter (Event.concerns c) := by
  rw [channelLog, h, List.filter_append]
  rfl

/-- Steps that leave the map and the lives of the channels alone. -/
theorem Registered.congr {s s' : State} {phase : Nat → Phase} (h : Registered s phase)
    (hmap : s'.dataObservers = s.dataObservers) (hlog : ∀ c, channelLog s' c = channelLog s c) :
    Registered s' phase := by
  refine ⟨fun c => (hlog c).trans (h.history c), ?_, ?_⟩
  · rw [hmap]
    exact h.entry
  · rw [hmap]
    exact h.held

/-- At the start the map is empty and no channel has been used. -/
theorem registered_empty {s : State} (hmap : s.dataObservers = ∅)
    (hlog : ∀ c, channelLog s c = []) : Registered s fun _ => .unused := by
  refine ⟨hlog, ?_, ?_⟩
  · intro l o ho
    rw [hmap, AList.lookup_empty] at ho
    cases ho
  · intro c l hc
    rcases hc with hc | hc <;> cases hc

/-- A phase that the one changed channel is not in was there before. -/
theorem of_update {phase : Nat → Phase} {c d : Nat} {p q : Phase} (hpq : p ≠ q)
    (h : Function.update phase c p d = q) : d ≠ c ∧ phase d = q := by
  have hne : d ≠ c := by
    rintro rfl
    rw [Function.update_self] at h
    exact hpq h
  rw [Function.update_of_ne hne] at h
  exact ⟨hne, h⟩

theorem phase_unused_of_fresh {s : State} {phase : Nat → Phase} (h : Registered s phase) {c : Nat}
    (hc : channelLog s c = []) : phase c = .unused := by
  have hevents := (h.history c).symm.trans hc
  cases hp : phase c with
  | unused => rfl
  | observed => simp [hp, Phase.events] at hevents
  | held l => simp [hp, Phase.events] at hevents
  | closing l => simp [hp, Phase.events] at hevents
  | released => simp [hp, Phase.events] at hevents

/-- A channel has one label in the map and a label one channel. -/
theorem Registered.same_label {s : State} {phase : Nat → Phase} (h : Registered s phase)
    {l : Label} {o : DataChannelObserver} (ho : s.dataObservers.lookup l = some o) {ch : Channel}
    (hch : o.dataChannel = some ch) {d : Nat} (hd : phase d = .held l ∨ phase d = .closing l) :
    d = ch.id := by
  obtain ⟨o', ch', ho', hch', rfl⟩ := h.held d l hd
  obtain rfl : o = o' := Option.some.inj (ho.symm.trans ho')
  obtain rfl : ch = ch' := Option.some.inj (hch.symm.trans hch')
  rfl

/-- One channel moves to its next phase, and only the entry of its label changes. -/
theorem Registered.step {s s' : State} {phase : Nat → Phase} (h : Registered s phase) {c : Nat}
    {l : Label} {p : Phase} (hlog : channelLog s' c = p.events c)
    (hother : ∀ d ≠ c, channelLog s' d = channelLog s d)
    (hframe : ∀ l' ≠ l, s'.dataObservers.lookup l' = s.dataObservers.lookup l')
    (hentry : ∀ o, s'.dataObservers.lookup l = some o → ∃ ch, o.dataChannel = some ch ∧
      ch.label = l ∧ ch.id = c ∧ p = if o.registered then .held l else .closing l)
    (hheld : ∀ l', p = .held l' ∨ p = .closing l' → l' = l ∧ ∃ o, s'.dataObservers.lookup l = some o)
    (honly : ∀ d, phase d = .held l ∨ phase d = .closing l → d = c)
    (hplace : ∀ l', phase c = .held l' ∨ phase c = .closing l' → l' = l) :
    Registered s' (Function.update phase c p) := by
  refine ⟨?_, ?_, ?_⟩
  · intro d
    by_cases hd : d = c
    · subst hd
      rw [Function.update_self, hlog]
    · rw [Function.update_of_ne hd, hother d hd, h.history d]
  · intro l' o ho
    by_cases hl : l' = l
    · subst hl
      obtain ⟨ch, hch, hlabel, hid, hp⟩ := hentry o ho
      exact ⟨ch, hch, hlabel, by rw [hid, Function.update_self, hp]⟩
    · rw [hframe l' hl] at ho
      obtain ⟨ch, hch, hlabel, hphase⟩ := h.entry l' o ho
      refine ⟨ch, hch, hlabel, ?_⟩
      rw [Function.update_of_ne, hphase]
      intro hid
      rw [hid] at hphase
      apply hl
      apply hplace
      split at hphase
      · exact Or.inl hphase
      · exact Or.inr hphase
  · intro d l' hd
    by_cases hc : d = c
    · subst hc
      rw [Function.update_self] at hd
      obtain ⟨rfl, o, ho⟩ := hheld l' hd
      obtain ⟨ch, hch, _, hid, _⟩ := hentry o ho
      exact ⟨o, ch, ho, hch, hid⟩
    · rw [Function.update_of_ne hc] at hd
      obtain ⟨o, ch, ho, hch, hid⟩ := h.held d l' hd
      refine ⟨o, ch, ?_, hch, hid⟩
      rw [hframe, ho]
      intro hl
      exact hc (honly d (hl ▸ hd))

/-- An observer is registered and not yet in the map. -/
theorem registered_observe {s : State} {phase : Nat → Phase} (h : Registered s phase) {c : Nat}
    (hunused : phase c = .unused) :
    Registered (s.record [.registerObserver c]) (Function.update phase c .observed) := by
  have hlog : (s.record [.registerObserver c]).log = s.log ++ [.registerObserver c] := rfl
  refine ⟨?_, ?_, ?_⟩
  · intro d
    rw [channelLog_append hlog, h.history]
    by_cases hd : d = c
    · subst hd
      simp [Event.concerns, Phase.events, hunused]
    · simp [Event.concerns, Ne.symm hd, Function.update_of_ne hd]
  · intro l o ho
    obtain ⟨ch, hch, hlabel, hphase⟩ := h.entry l o ho
    refine ⟨ch, hch, hlabel, ?_⟩
    rw [Function.update_of_ne, hphase]
    intro hid
    rw [hid, hunused] at hphase
    split at hphase <;> cases hphase
  · intro d l hd
    rcases hd with hd | hd
    · exact h.held d l (Or.inl (of_update Phase.noConfusion hd).2)
    · exact h.held d l (Or.inr (of_update Phase.noConfusion hd).2)

/-- A registered observer joins the map under a label that is free. -/
theorem registered_assign {s : State} {phase : Nat → Phase} (h : Registered s phase) {ch : Channel}
    (hobserved : phase ch.id = .observed) (hfree : s.dataObservers.lookup ch.label = none) :
    Registered (s.assign ch.label ⟨some ch, true⟩)
      (Function.update phase ch.id (.held ch.label)) := by
  have hlog : (s.assign ch.label ⟨some ch, true⟩).log = s.log ++ [.inserted ch.id] := by
    simp [State.assign, hfree, DataChannelObserver.insertion]
  have hlookup : (s.assign ch.label ⟨some ch, true⟩).dataObservers =
      s.dataObservers.insert ch.label ⟨some ch, true⟩ := rfl
  refine h.step (l := ch.label) ?_ ?_ ?_ ?_ ?_ ?_ ?_
  · rw [channelLog_append hlog, h.history, hobserved]
    simp [Event.concerns, Phase.events]
  · intro d hd
    rw [channelLog_append hlog]
    simp [Event.concerns, Ne.symm hd]
  · intro l' hl
    rw [hlookup, AList.lookup_insert_ne hl]
  · intro o ho
    rw [hlookup, AList.lookup_insert] at ho
    obtain rfl := Option.some.inj ho
    exact ⟨ch, rfl, rfl, rfl, rfl⟩
  · intro l' hl
    refine ⟨?_, _, AList.lookup_insert _⟩
    rcases hl with hl | hl
    · exact (Phase.held.inj hl).symm
    · cases hl
  · intro d hd
    obtain ⟨o, _, ho, _⟩ := h.held d _ hd
    rw [hfree] at ho
    cases ho
  · intro l' hl
    rw [hobserved] at hl
    rcases hl with hl | hl <;> cases hl

/-- The entry of a held channel is closed and unregistered, and stays in the map. -/
theorem registered_unregisterEntry {s : State} {phase : Nat → Phase} (h : Registered s phase)
    {c : Nat} {l : Label} (hc : phase c = .held l) :
    ∃ s', unregisterEntry s l = .ok s' ∧
      (∀ l' ≠ l, s'.dataObservers.lookup l' = s.dataObservers.lookup l') ∧
      Registered s' (Function.update phase c (.closing l)) := by
  obtain ⟨o, ch, ho, hch, rfl⟩ := h.held c l (Or.inl hc)
  obtain ⟨ch', hch', hlabel, _⟩ := h.entry l o ho
  obtain rfl : ch = ch' := Option.some.inj (hch.symm.trans hch')
  have hrun : unregisterEntry s l =
      .ok ((s.record [.close ch.id, .unregisterObserver ch.id]).update l ⟨some ch, false⟩) := by
    simp only [unregisterEntry, ho, DataChannelObserver.unregisterObserver, hch]
    rfl
  have hframe : ∀ l' ≠ l, (s.dataObservers.insert l ⟨some ch, false⟩).lookup l' =
      s.dataObservers.lookup l' := fun l' hl => AList.lookup_insert_ne hl
  refine ⟨_, hrun, hframe, h.step ?_ ?_ hframe ?_ ?_ (fun d => h.same_label ho hch) ?_⟩
  · rw [channelLog_append rfl, h.history, hc]
    simp [Event.concerns, Phase.events]
  · intro d hd
    rw [channelLog_append rfl]
    simp [Event.concerns, Ne.symm hd]
  · intro o' ho'
    have hset := (AList.lookup_insert s.dataObservers).symm.trans ho'
    obtain rfl := Option.some.inj hset
    exact ⟨ch, rfl, hlabel, rfl, rfl⟩
  · intro l' hl
    refine ⟨?_, _, AList.lookup_insert _⟩
    rcases hl with hl | hl
    · cases hl
    · exact (Phase.closing.inj hl).symm
  · intro l' hl
    rw [hc] at hl
    rcases hl with hl | hl
    · exact (Phase.held.inj hl).symm
    · cases hl

/-- A channel that is closed and unregistered leaves the map. -/
theorem registered_erase {s : State} {phase : Nat → Phase} (h : Registered s phase) {c : Nat}
    {l : Label} (hc : phase c = .closing l) :
    (s.erase l).dataObservers = s.dataObservers.erase l ∧
      Registered (s.erase l) (Function.update phase c .released) := by
  obtain ⟨o, ch, ho, hch, rfl⟩ := h.held c l (Or.inr hc)
  obtain ⟨ch', hch', _, hphase⟩ := h.entry l o ho
  obtain rfl : ch = ch' := Option.some.inj (hch.symm.trans hch')
  have hreg : o.registered = false := by
    rw [← Bool.not_eq_true]
    intro htrue
    rw [if_pos htrue, hc] at hphase
    cases hphase
  have hrun : s.erase l = { s with
      dataObservers := s.dataObservers.erase l, log := s.log ++ [.removed ch.id false] } := by
    simp [State.erase, ho, DataChannelObserver.removal, hch, hreg]
  rw [hrun]
  refine ⟨rfl, h.step (l := l) ?_ ?_ ?_ ?_ ?_ (fun d => h.same_label ho hch) ?_⟩
  · rw [channelLog_append rfl, h.history, hc]
    simp [Event.concerns, Phase.events]
  · intro d hd
    rw [channelLog_append rfl]
    simp [Event.concerns, Ne.symm hd]
  · exact fun l' hl => AList.lookup_erase_ne hl
  · intro o' ho'
    cases (AList.lookup_erase l s.dataObservers).symm.trans ho'
  · intro l' hl
    rcases hl with hl | hl <;> cases hl
  · intro l' hl
    rw [hc] at hl
    rcases hl with hl | hl
    · cases hl
    · exact (Phase.closing.inj hl).symm

/-- The loop of the teardown: every label it visits ends up closing. -/
theorem registered_unregisterObservers {order : List Label} {s : State} {phase : Nat → Phase}
    (h : Registered s phase) (hnodup : order.Nodup) (hall : ∀ l ∈ order, ∃ c, phase c = .held l) :
    ∃ s' phase', order.foldlM unregisterEntry s = .ok s' ∧ Registered s' phase' ∧
      (∀ c l, phase' c = .held l → phase c = .held l ∧ l ∉ order) ∧
      ∀ c, phase' c = .observed → phase c = .observed := by
  induction order generalizing s phase with
  | nil => exact ⟨s, phase, rfl, h, fun c l hc => ⟨hc, List.not_mem_nil⟩, fun _ hc => hc⟩
  | cons l order ih =>
    obtain ⟨c, hc⟩ := hall l (by simp)
    obtain ⟨s₁, hrun, _, h₁⟩ := registered_unregisterEntry h hc
    obtain ⟨hl, hnodup⟩ := List.nodup_cons.mp hnodup
    have htail : ∀ l' ∈ order, ∃ d, Function.update phase c (.closing l) d = .held l' := by
      intro l' hl'
      obtain ⟨d, hd⟩ := hall l' (by simp [hl'])
      refine ⟨d, ?_⟩
      rw [Function.update_of_ne, hd]
      intro hdc
      rw [hdc, hc] at hd
      exact hl (Phase.held.inj hd ▸ hl')
    obtain ⟨s', phase', hloop, h', hrest, hobserved⟩ := ih h₁ hnodup htail
    refine ⟨s', phase', ?_, h', ?_, fun d hd => (of_update Phase.noConfusion (hobserved d hd)).2⟩
    · rw [List.foldlM_cons, hrun]
      exact hloop
    · intro d l' hd
      obtain ⟨hd, hl'⟩ := hrest d l' hd
      obtain ⟨hne, hd⟩ := of_update Phase.noConfusion hd
      refine ⟨hd, ?_⟩
      intro hmem
      rcases List.mem_cons.mp hmem with heq | hmem
      · obtain ⟨o, ch, ho, hch, hid⟩ := h.held c l (Or.inl hc)
        exact hne ((h.same_label ho hch (Or.inl (heq ▸ hd))).trans hid)
      · exact hl' hmem

/-- Erasing entries that are all closing. -/
theorem registered_eraseAll (labels : List Label) {s : State} {phase : Nat → Phase}
    (h : Registered s phase) (hno : ∀ c l, phase c ≠ .held l) :
    ∃ phase', Registered (labels.foldl State.erase s) phase' ∧ (∀ c l, phase' c ≠ .held l) ∧
      (∀ c l, phase' c = .closing l → phase c = .closing l ∧ l ∉ labels) ∧
      ∀ c, phase' c = .observed → phase c = .observed := by
  induction labels generalizing s phase with
  | nil => exact ⟨phase, h, hno, fun c l hc => ⟨hc, List.not_mem_nil⟩, fun _ hc => hc⟩
  | cons k labels ih =>
    rw [List.foldl_cons]
    cases hk : s.dataObservers.lookup k with
    | none =>
      rw [show s.erase k = s by simp [State.erase, hk]]
      obtain ⟨phase', h', hno', hrest, hobserved⟩ := ih h hno
      refine ⟨phase', h', hno', ?_, hobserved⟩
      intro c l hc
      obtain ⟨hc, hl⟩ := hrest c l hc
      refine ⟨hc, ?_⟩
      intro hmem
      rcases List.mem_cons.mp hmem with rfl | hmem
      · obtain ⟨o, _, ho, _⟩ := h.held c l (Or.inr hc)
        rw [hk] at ho
        cases ho
      · exact hl hmem
    | some o =>
      obtain ⟨ch, hch, _, hphase⟩ := h.entry k o hk
      have hclosing : phase ch.id = .closing k := by
        split at hphase
        · exact (hno _ _ hphase).elim
        · exact hphase
      obtain ⟨_, h₁⟩ := registered_erase h hclosing
      have hno₁ : ∀ c l, Function.update phase ch.id .released c ≠ .held l :=
        fun c l hc => hno c l (of_update Phase.noConfusion hc).2
      obtain ⟨phase', h', hno', hrest, hobserved⟩ := ih h₁ hno₁
      refine ⟨phase', h', hno', ?_, fun d hd => (of_update Phase.noConfusion (hobserved d hd)).2⟩
      intro c l hc
      obtain ⟨hc, hl⟩ := hrest c l hc
      obtain ⟨hne, hc⟩ := of_update Phase.noConfusion hc
      refine ⟨hc, ?_⟩
      intro hmem
      rcases List.mem_cons.mp hmem with rfl | hmem
      · exact hne (h.same_label hk hch (Or.inr hc))
      · exact hl hmem

theorem mem_keys_of_lookup {s : State} {l : Label} {o : DataChannelObserver}
    (h : s.dataObservers.lookup l = some o) : l ∈ s.dataObservers.keys :=
  AList.mem_keys.mp (AList.lookup_isSome.mp (by rw [h]; rfl))

theorem registered_clear (order : List Label) {s : State} {phase : Nat → Phase}
    (h : Registered s phase) (hno : ∀ c l, phase c ≠ .held l) :
    ∃ phase', Registered (s.clearObservers order) phase' ∧ (∀ c l, phase' c ≠ .closing l) ∧
      ∀ c, phase' c = .observed → phase c = .observed := by
  obtain ⟨phase', h', hno', hrest, hobserved⟩ :=
    registered_eraseAll (order ++ s.dataObservers.keys) h hno
  refine ⟨phase', h', fun c l => ?_, hobserved⟩
  intro hc
  obtain ⟨hc, hl⟩ := hrest c l hc
  obtain ⟨o, _, ho, _⟩ := h.held c l (Or.inr hc)
  exact hl (List.mem_append_right _ (mem_keys_of_lookup ho))

/-- Statements of the teardown that do not touch the channel map. -/
def Teardown.sparesObservers : Teardown → Bool
  | .unregisterObservers _ | .clearObservers _ => false
  | _ => true

/-- Events that concern no channel do not disturb the registry. -/
theorem Registered.extend {s s' : State} {phase : Nat → Phase} (h : Registered s phase)
    (hmap : s'.dataObservers = s.dataObservers) {es : List Event} (hlog : s'.log = s.log ++ es)
    (hes : ∀ e ∈ es, ∀ c, e.concerns c = false) : Registered s' phase := by
  refine h.congr hmap fun c => ?_
  have hnone : es.filter (Event.concerns c) = [] := by
    rw [List.filter_eq_nil_iff]
    intro e he
    simp [hes e he c]
  rw [channelLog_append hlog, hnone, List.append_nil]

theorem exec_spares {t : Teardown} (ht : t.sparesObservers = true) {s : State}
    {phase : Nat → Phase} (h : Registered s phase) :
    ∃ s', t.exec s = .ok s' ∧ Registered s' phase := by
  have hquit (thread : Option Nat) (name : ThreadName) :
      ∀ e ∈ quitThread thread name, ∀ c, e.concerns c = false := by
    cases thread <;> simp [quitThread, Event.concerns]
  have hif {b : Bool} {e : Event} (he : ∀ c, e.concerns c = false) :
      ∀ e' ∈ (if b then [e] else []), ∀ c, e'.concerns c = false := by
    cases b <;> simp [he]
  cases t with
  | closeConnection => exact ⟨_, rfl, h.extend rfl rfl (hif fun c => rfl)⟩
  | detachPeerObserver => exact ⟨_, rfl, h.congr rfl fun c => rfl⟩
  | destroyPeerObserver => exact ⟨_, rfl, h.extend rfl rfl (hif fun c => rfl)⟩
  | releaseFactory => exact ⟨_, rfl, h.extend rfl rfl (hif fun c => rfl)⟩
  | releaseSocketFactory => exact ⟨_, rfl, h.extend rfl rfl (hif fun c => rfl)⟩
  | releaseNetworkManager => exact ⟨_, rfl, h.extend rfl rfl (hif fun c => rfl)⟩
  | unregisterObservers order => cases ht
  | clearObservers order => cases ht
  | clearServers => exact ⟨_, rfl, h.congr rfl fun c => rfl⟩
  | quitSignalingThread => exact ⟨_, rfl, h.extend rfl rfl (hquit _ _)⟩
  | quitWorkerThread => exact ⟨_, rfl, h.extend rfl rfl (hquit _ _)⟩
  | quitNetworkThread => exact ⟨_, rfl, h.extend rfl rfl (hquit _ _)⟩
  | releaseSessionObserver => exact ⟨_, rfl, h.congr rfl fun c => rfl⟩
  | releaseSetSessionObserver => exact ⟨_, rfl, h.congr rfl fun c => rfl⟩
  | quitCurrentThread => exact ⟨_, rfl, h.extend rfl rfl (hif fun c => rfl)⟩

theorem execs_spare (ts : List Teardown) (hts : ∀ t ∈ ts, t.sparesObservers = true) {s : State}
    {phase : Nat → Phase} (h : Registered s phase) :
    ∃ s', ts.foldlM (fun s t => t.exec s) s = .ok s' ∧ Registered s' phase :=
  foldlM_returns (fun t ht _ h => exec_spares (hts t ht) h) h

/-- Neither on its way into the map nor on its way out. -/
def Phase.resting : Phase → Bool
  | .unused | .held _ | .released => true
  | .observed | .closing _ => false

/-- The whole teardown succeeds and leaves no channel half closed. -/
theorem registered_deletePeerConnection {s : State} {phase : Nat → Phase} (h : Registered s phase)
    (hrest : ∀ c, (phase c).resting = true) {order : List Label}
    (horder : order.Perm s.dataObservers.keys) :
    ∃ s' phase', deletePeerConnection order s = .ok s' ∧ Registered s' phase' ∧
      ∀ c, (phase' c).resting = true := by
  have hkeys : ∀ l ∈ order, ∃ c, phase c = .held l := by
    intro l hl
    obtain ⟨o, ho⟩ := Option.isSome_iff_exists.mp
      (AList.lookup_isSome.mpr (AList.mem_keys.mpr (horder.subset hl)))
    obtain ⟨ch, _, _, hphase⟩ := h.entry l o ho
    refine ⟨ch.id, ?_⟩
    split at hphase
    · exact hphase
    · have hch := hrest ch.id
      rw [hphase] at hch
      cases hch
  obtain ⟨s₁, hrun₁, h₁⟩ := execs_spare (.closeConnection :: Teardown.releases) (by decide) h
  obtain ⟨s₂, phase₂, hrun₂, h₂, hheld, hobserved₂⟩ :=
    registered_unregisterObservers h₁ (horder.nodup_iff.mpr s.dataObservers.keys_nodup) hkeys
  have hno : ∀ c l, phase₂ c ≠ .held l := by
    intro c l hc
    obtain ⟨hc, hl⟩ := hheld c l hc
    obtain ⟨o, _, ho, _⟩ := h.held c l (Or.inl hc)
    exact hl (horder.mem_iff.mpr (mem_keys_of_lookup ho))
  obtain ⟨phase₃, h₃, hclosing, hobserved₃⟩ := registered_clear order h₂ hno
  obtain ⟨s₄, hrun₄, h₄⟩ := execs_spare Teardown.departures (by decide) h₃
  refine ⟨s₄, phase₃, ?_, h₄, ?_⟩
  · rw [deletePeerConnection, teardown_eq, List.foldlM_append, hrun₁]
    change (order.foldlM unregisterEntry s₁ >>= fun s =>
      Teardown.departures.foldlM (fun s t => t.exec s) (s.clearObservers order)) = .ok s₄
    rw [hrun₂]
    exact hrun₄
  · intro c
    cases hc : phase₃ c with
    | unused => rfl
    | observed =>
      have hbefore := hrest c
      rw [hobserved₂ c (hobserved₃ c hc)] at hbefore
      exact hbefore
    | held l => rfl
    | closing l => exact (hclosing c l hc).elim
    | released => rfl

end Spitfire.Conductor
