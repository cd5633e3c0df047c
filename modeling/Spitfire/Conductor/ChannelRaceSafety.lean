import Spitfire.Conductor.ChannelRace
import Spitfire.Conductor.ChannelRuns

/-! When the two threads keep out of each other's way in the channel map. Every channel is
in flight in one place, in the map under one label, or gone. -/
namespace Spitfire.Conductor
open Transition

/-- The channels that a thread holds and the map does not. -/
def Caller.channels : Caller → List Channel
  | created ch | observing ch => [ch]
  | _ => []

def Handler.channels : Handler → List Channel
  | idle => []
  | absent ch | observing ch => [ch]

def announced : List Task → List Channel :=
  List.filterMap fun
    | .announced ch => some ch
    | .create => none

/-- All channels that are on their way to the map. -/
def Race.flight (s : Race) : List Channel :=
  s.caller.channels ++ (s.handler.channels ++ announced s.queue)

/-- Between the lookup and the insertion of `CreateDataChannel` for the label. -/
def Caller.Creating (l : Label) : Caller → Prop
  | waiting l' => l' = l
  | created ch | observing ch => ch.label = l
  | _ => False

def Caller.Fits (c : State) (phase : Nat → Phase) : Caller → Prop
  | idle => True
  | waiting l => c.dataObservers.lookup l = none
  | created ch => c.dataObservers.lookup ch.label = none ∧ phase ch.id = .unused
  | observing ch => c.dataObservers.lookup ch.label = none ∧ phase ch.id = .observed
  | found l => ∃ d, phase d = .held l
  | unregistered l => ∃ d, phase d = .closing l

def Handler.Fits (c : State) (phase : Nat → Phase) : Handler → Prop
  | idle => True
  | absent ch => c.dataObservers.lookup ch.label = none ∧ phase ch.id = .unused
  | observing ch => c.dataObservers.lookup ch.label = none ∧ phase ch.id = .observed

theorem Caller.Fits.frame {caller : Caller} {c c' : State} {phase phase' : Nat → Phase}
    (h : caller.Fits c phase)
    (hfree : ∀ l, caller.Creating l → c.dataObservers.lookup l = none →
      c'.dataObservers.lookup l = none)
    (hphase : ∀ ch ∈ caller.channels, phase' ch.id = phase ch.id)
    (hheld : ∀ d l, phase d = .held l → phase' d = .held l)
    (hclosing : ∀ d l, phase d = .closing l → phase' d = .closing l) : caller.Fits c' phase' := by
  cases caller with
  | idle => trivial
  | waiting l => exact hfree l rfl h
  | created ch => exact ⟨hfree _ rfl h.1, (hphase ch (by simp [channels])).trans h.2⟩
  | observing ch => exact ⟨hfree _ rfl h.1, (hphase ch (by simp [channels])).trans h.2⟩
  | found l => exact h.imp fun d hd => hheld d l hd
  | unregistered l => exact h.imp fun d hd => hclosing d l hd

theorem Handler.Fits.frame {handler : Handler} {c c' : State} {phase phase' : Nat → Phase}
    (h : handler.Fits c phase)
    (hfree : ∀ ch ∈ handler.channels, c.dataObservers.lookup ch.label = none →
      c'.dataObservers.lookup ch.label = none)
    (hphase : ∀ ch ∈ handler.channels, phase' ch.id = phase ch.id) : handler.Fits c' phase' := by
  cases handler with
  | idle => trivial
  | absent ch =>
    have hmem : ch ∈ (absent ch).channels := by simp [channels]
    exact ⟨hfree ch hmem h.1, (hphase ch hmem).trans h.2⟩
  | observing ch =>
    have hmem : ch ∈ (observing ch).channels := by simp [channels]
    exact ⟨hfree ch hmem h.1, (hphase ch hmem).trans h.2⟩

/-- The two threads keep out of each other's way: what either is about to insert has a
free label and a channel of its own. -/
structure Calm (s : Race) (phase : Nat → Phase) : Prop where
  registered : Registered s.conductor phase
  distinct : (s.flight.map Channel.id).Nodup
  bound : ∀ ch ∈ s.flight, ch.id < s.issued
  late : ∀ c, s.issued ≤ c → phase c = .unused
  announced : ∀ ch ∈ announced s.queue, phase ch.id = .unused
  caller : s.caller.Fits s.conductor phase
  handler : s.handler.Fits s.conductor phase
  apart : ∀ ch ∈ s.caller.channels, ∀ ch' ∈ s.handler.channels, ch.label ≠ ch'.label
  closing : ∀ c l, phase c = .closing l → s.caller = .unregistered l

/-- `HandleDataChannel` does not access the map for a label that the application's thread
has looked up in `CreateDataChannel` and not yet inserted. -/
def Undisturbed (s : Race) : RaceStep → Prop
  | .handleDataChannel => ∀ ch queue, s.queue = .announced ch :: queue →
      ¬ s.caller.Creating ch.label
  | .insertAnnounced => ∀ ch, s.handler = .observing ch → ¬ s.caller.Creating ch.label
  | _ => True

theorem Caller.creating_of_mem {caller : Caller} {ch : Channel} (h : ch ∈ caller.channels) :
    caller.Creating ch.label := by
  cases caller with
  | created ch' =>
    obtain rfl := List.mem_singleton.mp h
    exact rfl
  | observing ch' =>
    obtain rfl := List.mem_singleton.mp h
    exact rfl
  | _ => cases h

section
variable {s : Race} {phase : Nat → Phase}

/-- A channel is in flight in one place only. -/
theorem Calm.caller_apart (h : Calm s phase) {ch : Channel} (hch : ch ∈ s.caller.channels) :
    ∀ ch' ∈ s.handler.channels ++ Conductor.announced s.queue, ch'.id ≠ ch.id := by
  intro ch' hch' hid
  have hdistinct := h.distinct
  rw [Race.flight, List.map_append, List.nodup_append] at hdistinct
  exact hdistinct.2.2 _ (List.mem_map_of_mem hch) _ (List.mem_map_of_mem hch') hid.symm

theorem Calm.handler_apart (h : Calm s phase) {ch : Channel} (hch : ch ∈ s.handler.channels) :
    (∀ ch' ∈ s.caller.channels, ch'.id ≠ ch.id) ∧
      ∀ ch' ∈ Conductor.announced s.queue, ch'.id ≠ ch.id := by
  have hdistinct := h.distinct
  rw [Race.flight, List.map_append, List.map_append, List.nodup_append, List.nodup_append]
    at hdistinct
  refine ⟨?_, ?_⟩
  · intro ch' hch'
    exact hdistinct.2.2 _ (List.mem_map_of_mem hch') _
      (List.mem_append_left _ (List.mem_map_of_mem hch))
  · intro ch' hch' hid
    exact hdistinct.2.1.2.2 _ (List.mem_map_of_mem hch) _ (List.mem_map_of_mem hch') hid.symm

theorem Calm.no_closing (h : Calm s phase) (hcaller : ∀ l, s.caller ≠ .unregistered l) (c : Nat)
    (l : Label) : phase c ≠ .closing l := fun hc => hcaller l (h.closing c l hc)

theorem calm_createDataChannel (h : Calm s phase) {l : Label} {config : DataChannelInit}
    (hcaller : s.caller = .idle) (hfree : s.conductor.dataObservers.lookup l = none) :
    Calm (s.ask l config) phase := by
  have hregistered : Registered (s.ask l config).conductor phase :=
    h.registered.extend rfl rfl (by simp [Event.concerns])
  have hannounced : Conductor.announced (s.queue ++ [.create]) = Conductor.announced s.queue := by
    simp [Conductor.announced]
  have hflight : (s.ask l config).flight = s.flight := by
    simp [Race.flight, Race.ask, hannounced, hcaller, Caller.channels]
  refine ⟨hregistered, hflight ▸ h.distinct, hflight ▸ h.bound, h.late, hannounced ▸ h.announced,
    hfree, h.handler, fun ch hch => (by cases hch), ?_⟩
  intro c l' hc
  exact (h.no_closing (by simp [hcaller]) c l' hc).elim

theorem calm_runCreate (h : Calm s phase) {l : Label} {queue : List Task}
    (hcaller : s.caller = .waiting l) (hhandler : s.handler = .idle)
    (hqueue : s.queue = .create :: queue) :
    Calm { s with caller := .created ⟨s.issued, l⟩, queue := queue, issued := s.issued + 1 }
      phase := by
  have hannounced : Conductor.announced s.queue = Conductor.announced queue := by
    simp [Conductor.announced, hqueue]
  have hflight : Race.flight { s with
      caller := .created ⟨s.issued, l⟩, queue := queue, issued := s.issued + 1 } =
      ⟨s.issued, l⟩ :: s.flight := by
    simp [Race.flight, hannounced, hcaller, Caller.channels]
  have hfree := h.caller
  rw [hcaller] at hfree
  refine ⟨h.registered, ?_, ?_, fun c hc => h.late c (Nat.le_of_succ_le hc),
    hannounced ▸ h.announced, ⟨hfree, h.late _ (Nat.le_refl _)⟩, h.handler, ?_, ?_⟩
  · rw [hflight, List.map_cons, List.nodup_cons]
    refine ⟨?_, h.distinct⟩
    intro hmem
    obtain ⟨ch, hch, hid⟩ := List.mem_map.mp hmem
    exact Nat.ne_of_lt (h.bound ch hch) hid
  · rw [hflight]
    intro ch hch
    rcases List.mem_cons.mp hch with rfl | hch
    · exact Nat.lt_succ_self _
    · exact Nat.lt_succ_of_lt (h.bound ch hch)
  · intro ch _ ch' hch'
    rw [hhandler] at hch'
    cases hch'
  · intro c l' hc
    exact (h.no_closing (by simp [hcaller]) c l' hc).elim

theorem calm_announce (h : Calm s phase) (l : Label) :
    Calm { s with queue := s.queue ++ [.announced ⟨s.issued, l⟩], issued := s.issued + 1 }
      phase := by
  have hannounced : Conductor.announced (s.queue ++ [.announced ⟨s.issued, l⟩]) =
      Conductor.announced s.queue ++ [⟨s.issued, l⟩] := by
    simp [Conductor.announced]
  have hflight : Race.flight { s with
      queue := s.queue ++ [.announced ⟨s.issued, l⟩], issued := s.issued + 1 } =
      s.flight ++ [⟨s.issued, l⟩] := by
    simp [Race.flight, hannounced]
  refine ⟨h.registered, ?_, ?_, fun c hc => h.late c (Nat.le_of_succ_le hc), ?_, h.caller,
    h.handler, h.apart, h.closing⟩
  · rw [hflight, List.map_append, List.nodup_append]
    refine ⟨h.distinct, List.nodup_singleton _, ?_⟩
    intro c hc d hd
    obtain ⟨ch, hch, rfl⟩ := List.mem_map.mp hc
    obtain rfl := List.mem_singleton.mp hd
    exact Nat.ne_of_lt (h.bound ch hch)
  · rw [hflight]
    intro ch hch
    rcases List.mem_append.mp hch with hch | hch
    · exact Nat.lt_succ_of_lt (h.bound ch hch)
    · obtain rfl := List.mem_singleton.mp hch
      exact Nat.lt_succ_self _
  · rw [hannounced]
    intro ch hch
    rcases List.mem_append.mp hch with hch | hch
    · exact h.announced ch hch
    · obtain rfl := List.mem_singleton.mp hch
      exact h.late _ (Nat.le_refl _)

theorem calm_ignore (h : Calm s phase) {ch : Channel} {queue : List Task}
    (hqueue : s.queue = .announced ch :: queue) : Calm { s with queue := queue } phase := by
  have hannounced : Conductor.announced s.queue = ch :: Conductor.announced queue := by
    simp [Conductor.announced, hqueue]
  have hflight : (Race.flight { s with queue := queue }).Sublist s.flight := by
    simp [Race.flight, hannounced]
  refine ⟨h.registered, h.distinct.sublist (hflight.map _), fun c hc => h.bound c (hflight.subset hc),
    h.late, ?_, h.caller, h.handler, h.apart, h.closing⟩
  intro c hc
  exact h.announced c (by simp [hannounced, hc])

theorem calm_handleDataChannel (h : Calm s phase) {ch : Channel} {queue : List Task}
    (hhandler : s.handler = .idle) (hqueue : s.queue = .announced ch :: queue)
    (hfree : s.conductor.dataObservers.lookup ch.label = none)
    (hundisturbed : ¬ s.caller.Creating ch.label) :
    Calm { s with handler := .absent ch, queue := queue } phase := by
  have hannounced : Conductor.announced s.queue = ch :: Conductor.announced queue := by
    simp [Conductor.announced, hqueue]
  have hflight : Race.flight { s with handler := .absent ch, queue := queue } = s.flight := by
    simp [Race.flight, hannounced, hhandler, Handler.channels]
  refine ⟨h.registered, hflight ▸ h.distinct, hflight ▸ h.bound, h.late, ?_, h.caller,
    ⟨hfree, h.announced ch (by simp [hannounced])⟩, ?_, h.closing⟩
  · intro c hc
    exact h.announced c (by simp [hannounced, hc])
  · intro c hc c' hc' hlabel
    obtain rfl := List.mem_singleton.mp hc'
    exact hundisturbed (hlabel ▸ Caller.creating_of_mem hc)

/-- Channels that have been issued may change their phase. -/
theorem Calm.late_update (h : Calm s phase) {c : Nat} (hc : c < s.issued) (p : Phase) :
    ∀ d, s.issued ≤ d → Function.update phase c p d = .unused := by
  intro d hd
  rw [Function.update_of_ne (by omega)]
  exact h.late d hd

theorem Calm.lt_issued (h : Calm s phase) {c : Nat} (hc : phase c ≠ .unused) : c < s.issued := by
  by_contra hge
  exact hc (h.late c (by omega))

/-- The phases of other channels are kept, also those of channels in the map. -/
theorem update_keeps {c d : Nat} {p q : Phase} (hc : phase c ≠ q) (hd : phase d = q) :
    Function.update phase c p d = q := by
  rw [Function.update_of_ne, hd]
  rintro rfl
  exact hc hd

theorem calm_registerCreated (h : Calm s phase) {ch : Channel} (hcaller : s.caller = .created ch) :
    Calm { s with conductor := s.observe ch, caller := .observing ch }
      (Function.update phase ch.id .observed) := by
  have hmem : ch ∈ s.caller.channels := by simp [hcaller, Caller.channels]
  have hfits := h.caller
  rw [hcaller] at hfits
  have hapart := h.caller_apart hmem
  have hlt : ch.id < s.issued := h.bound ch (List.mem_append_left _ hmem)
  have hflight : Race.flight { s with conductor := s.observe ch, caller := .observing ch } =
      s.flight := by
    simp [Race.flight, hcaller, Caller.channels]
  refine ⟨registered_observe h.registered hfits.2, hflight ▸ h.distinct, hflight ▸ h.bound,
    h.late_update hlt _, ?_, ⟨hfits.1, Function.update_self ..⟩, ?_, ?_, ?_⟩
  · intro d hd
    rw [Function.update_of_ne (hapart d (List.mem_append_right _ hd))]
    exact h.announced d hd
  · refine h.handler.frame (fun _ _ hfree => hfree) fun d hd => ?_
    rw [Function.update_of_ne (hapart d (List.mem_append_left _ hd))]
  · intro d hd d' hd'
    obtain rfl := List.mem_singleton.mp hd
    exact h.apart d hmem d' hd'
  · intro c l hc
    exact (h.no_closing (by simp [hcaller]) c l (of_update Phase.noConfusion hc).2).elim

theorem calm_insertCreated (h : Calm s phase) {ch : Channel} (hcaller : s.caller = .observing ch) :
    Calm { s with conductor := s.insert ch, caller := .idle }
      (Function.update phase ch.id (.held ch.label)) := by
  have hmem : ch ∈ s.caller.channels := by simp [hcaller, Caller.channels]
  have hfits := h.caller
  rw [hcaller] at hfits
  have hapart := h.caller_apart hmem
  have hlt : ch.id < s.issued := h.bound ch (List.mem_append_left _ hmem)
  have hflight : (Race.flight { s with conductor := s.insert ch, caller := .idle }).Sublist
      s.flight := by
    simp [Race.flight, Caller.channels]
  refine ⟨registered_assign h.registered hfits.2 hfits.1, h.distinct.sublist (hflight.map _),
    fun c hc => h.bound c (hflight.subset hc), h.late_update hlt _, ?_, trivial, ?_,
    fun _ hd => (by cases hd), ?_⟩
  · intro d hd
    rw [Function.update_of_ne (hapart d (List.mem_append_right _ hd))]
    exact h.announced d hd
  · refine h.handler.frame (fun d hd hfree => ?_) fun d hd => ?_
    · exact (AList.lookup_insert_ne (Ne.symm (h.apart ch hmem d hd))).trans hfree
    · rw [Function.update_of_ne (hapart d (List.mem_append_left _ hd))]
  · intro c l hc
    exact (h.no_closing (by simp [hcaller]) c l (of_update Phase.noConfusion hc).2).elim

theorem calm_closeDataChannel (h : Calm s phase) {l : Label} (hcaller : s.caller = .idle)
    (hfound : s.conductor.dataObservers.lookup l ≠ none) :
    Calm { s with caller := .found l } phase := by
  have hno := h.no_closing (by simp [hcaller])
  have hflight : Race.flight { s with caller := .found l } = s.flight := by
    simp [Race.flight, hcaller, Caller.channels]
  refine ⟨h.registered, hflight ▸ h.distinct, hflight ▸ h.bound, h.late, h.announced, ?_,
    h.handler, fun _ hd => (by cases hd), fun c l' hc => (hno c l' hc).elim⟩
  obtain ⟨o, ho⟩ := Option.ne_none_iff_exists'.mp hfound
  obtain ⟨ch, _, _, hphase⟩ := h.registered.entry l o ho
  refine ⟨ch.id, ?_⟩
  split at hphase
  · exact hphase
  · exact (hno _ _ hphase).elim

/-- A channel that is in the map is not in flight. -/
theorem Handler.Fits.other {handler : Handler} {c : State} (h : handler.Fits c phase) {d : Nat}
    (hd : phase d ≠ .unused ∧ phase d ≠ .observed) : ∀ ch ∈ handler.channels, ch.id ≠ d := by
  rintro ch hch rfl
  cases handler with
  | idle => cases hch
  | absent ch' =>
    obtain rfl := List.mem_singleton.mp hch
    exact hd.1 h.2
  | observing ch' =>
    obtain rfl := List.mem_singleton.mp hch
    exact hd.2 h.2

theorem calm_unregisterFound (h : Calm s phase) {l : Label} {c : State}
    (hcaller : s.caller = .found l) (hexec : unregisterEntry s.conductor l = .ok c) :
    ∃ phase', Calm { s with conductor := c, caller := .unregistered l } phase' := by
  have hfits := h.caller
  rw [hcaller] at hfits
  obtain ⟨d, hd⟩ := hfits
  obtain ⟨c', hexec', hframe, hregistered⟩ := registered_unregisterEntry h.registered hd
  obtain rfl : c = c' := Except.ok.inj (hexec.symm.trans hexec')
  have hother := h.handler.other (d := d) (by simp [hd])
  have hflight : Race.flight { s with conductor := c, caller := .unregistered l } = s.flight := by
    simp [Race.flight, hcaller, Caller.channels]
  refine ⟨Function.update phase d (.closing l), hregistered, hflight ▸ h.distinct,
    hflight ▸ h.bound, h.late_update (h.lt_issued (by simp [hd])) _, ?_,
    ⟨d, Function.update_self ..⟩, ?_, fun _ hd => (by cases hd), ?_⟩
  · intro ch hch
    exact update_keeps (by simp [hd]) (h.announced ch hch)
  · refine h.handler.frame (fun ch hch hfree => ?_) fun ch hch => ?_
    · rw [hframe ch.label, hfree]
      -- The label of the handler is free, the one being closed is not.
      rintro rfl
      obtain ⟨o, _, ho, _⟩ := h.registered.held d ch.label (Or.inl hd)
      rw [hfree] at ho
      cases ho
    · rw [Function.update_of_ne (hother ch hch)]
  · intro c l' hc
    by_cases hcd : c = d
    · rw [hcd, Function.update_self] at hc
      rw [Phase.closing.inj hc]
    · rw [Function.update_of_ne hcd] at hc
      exact (h.no_closing (by simp [hcaller]) c l' hc).elim

theorem calm_eraseFound (h : Calm s phase) {l : Label} (hcaller : s.caller = .unregistered l) :
    ∃ phase', Calm { s with conductor := s.conductor.erase l, caller := .idle } phase' := by
  have hfits := h.caller
  rw [hcaller] at hfits
  obtain ⟨d, hd⟩ := hfits
  obtain ⟨herase, hregistered⟩ := registered_erase h.registered hd
  have hother := h.handler.other (d := d) (by simp [hd])
  have hflight : Race.flight { s with conductor := s.conductor.erase l, caller := .idle } =
      s.flight := by
    simp [Race.flight, hcaller, Caller.channels]
  refine ⟨Function.update phase d .released, hregistered, hflight ▸ h.distinct, hflight ▸ h.bound,
    h.late_update (h.lt_issued (by simp [hd])) _, ?_, trivial, ?_,
    fun _ hd => (by cases hd), ?_⟩
  · intro ch hch
    exact update_keeps (by simp [hd]) (h.announced ch hch)
  · refine h.handler.frame (fun ch hch hfree => ?_) fun ch hch => ?_
    · rw [herase]
      by_cases hl : ch.label = l
      · rw [hl, AList.lookup_erase]
      · rw [AList.lookup_erase_ne hl, hfree]
    · rw [Function.update_of_ne (hother ch hch)]
  · intro c l' hc
    obtain ⟨hcd, hc⟩ := of_update Phase.noConfusion hc
    -- The one label that was closing had one channel.
    have hl := h.closing c l' hc
    rw [hcaller] at hl
    obtain rfl := Caller.unregistered.inj hl
    obtain ⟨o, ch, ho, hch, hid⟩ := h.registered.held d l (Or.inr hd)
    exact (hcd ((h.registered.same_label ho hch (Or.inr hc)).trans hid)).elim

theorem calm_registerAnnounced (h : Calm s phase) {ch : Channel}
    (hhandler : s.handler = .absent ch) :
    Calm { s with conductor := s.observe ch, handler := .observing ch }
      (Function.update phase ch.id .observed) := by
  have hmem : ch ∈ s.handler.channels := by simp [hhandler, Handler.channels]
  have hfits := h.handler
  rw [hhandler] at hfits
  obtain ⟨hcallers, hannounced⟩ := h.handler_apart hmem
  have hlt : ch.id < s.issued :=
    h.bound ch (List.mem_append_right _ (List.mem_append_left _ hmem))
  have hflight : Race.flight { s with conductor := s.observe ch, handler := .observing ch } =
      s.flight := by
    simp [Race.flight, hhandler, Handler.channels]
  refine ⟨registered_observe h.registered hfits.2, hflight ▸ h.distinct, hflight ▸ h.bound,
    h.late_update hlt _, ?_, ?_, ⟨hfits.1, Function.update_self ..⟩, ?_, ?_⟩
  · intro d hd
    rw [Function.update_of_ne (hannounced d hd)]
    exact h.announced d hd
  · refine h.caller.frame (fun _ _ hfree => hfree) (fun d hd => ?_) ?_ ?_
    · rw [Function.update_of_ne (hcallers d hd)]
    · exact fun d l hd => update_keeps (by simp [hfits.2]) hd
    · exact fun d l hd => update_keeps (by simp [hfits.2]) hd
  · intro d hd d' hd'
    obtain rfl := List.mem_singleton.mp hd'
    exact h.apart d hd d' hmem
  · intro c l hc
    exact h.closing c l (of_update Phase.noConfusion hc).2

theorem calm_insertAnnounced (h : Calm s phase) {ch : Channel}
    (hhandler : s.handler = .observing ch) (hundisturbed : ¬ s.caller.Creating ch.label) :
    Calm { s with conductor := s.insert ch, handler := .idle }
      (Function.update phase ch.id (.held ch.label)) := by
  have hmem : ch ∈ s.handler.channels := by simp [hhandler, Handler.channels]
  have hfits := h.handler
  rw [hhandler] at hfits
  obtain ⟨hcallers, hannounced⟩ := h.handler_apart hmem
  have hlt : ch.id < s.issued :=
    h.bound ch (List.mem_append_right _ (List.mem_append_left _ hmem))
  have hflight : (Race.flight { s with conductor := s.insert ch, handler := .idle }).Sublist
      s.flight := by
    simp [Race.flight, Handler.channels]
  refine ⟨registered_assign h.registered hfits.2 hfits.1, h.distinct.sublist (hflight.map _),
    fun c hc => h.bound c (hflight.subset hc), h.late_update hlt _, ?_, ?_, trivial,
    fun _ _ _ hd => (by cases hd), ?_⟩
  · intro d hd
    rw [Function.update_of_ne (hannounced d hd)]
    exact h.announced d hd
  · refine h.caller.frame (fun l hl hfree => ?_) (fun d hd => ?_) ?_ ?_
    · refine (AList.lookup_insert_ne ?_).trans hfree
      rintro rfl
      exact hundisturbed hl
    · rw [Function.update_of_ne (hcallers d hd)]
    · exact fun d l hd => update_keeps (by simp [hfits.2]) hd
    · exact fun d l hd => update_keeps (by simp [hfits.2]) hd
  · intro c l hc
    exact h.closing c l (of_update Phase.noConfusion hc).2

end

theorem calm_next (s : Race) (a : RaceStep) (t : Race) (h : ∃ phase, Calm s phase)
    (hundisturbed : Undisturbed s a) (hnext : s.next a = some t) : ∃ phase, Calm t phase := by
  obtain ⟨phase, h⟩ := h
  cases raceMove_of_next hnext with
  | returns => exact ⟨phase, h⟩
  | createDataChannel hcaller hfree => exact ⟨_, calm_createDataChannel h hcaller hfree⟩
  | registerCreated hcaller => exact ⟨_, calm_registerCreated h hcaller⟩
  | insertCreated hcaller => exact ⟨_, calm_insertCreated h hcaller⟩
  | closeDataChannel hcaller hfound => exact ⟨_, calm_closeDataChannel h hcaller hfound⟩
  | unregisterFound hcaller hexec => exact calm_unregisterFound h hcaller hexec
  | eraseFound hcaller => exact calm_eraseFound h hcaller
  | announce => exact ⟨_, calm_announce h _⟩
  | runCreate hcaller hhandler hqueue => exact ⟨_, calm_runCreate h hcaller hhandler hqueue⟩
  | ignore hqueue => exact ⟨_, calm_ignore h hqueue⟩
  | handleDataChannel hhandler hqueue hfree =>
    exact ⟨_, calm_handleDataChannel h hhandler hqueue hfree (hundisturbed _ _ hqueue)⟩
  | registerAnnounced hhandler => exact ⟨_, calm_registerAnnounced h hhandler⟩
  | insertAnnounced hhandler =>
    exact ⟨_, calm_insertAnnounced h hhandler (hundisturbed _ hhandler)⟩

/-- No observer was destroyed while it was registered, and every channel that has entered
the map is still there or was closed and unregistered before it left. -/
def Unharmed (s : State) : Prop :=
  (∀ c, .removed c true ∉ s.log) ∧ ∀ c, .inserted c ∈ s.log →
    (∃ l ch, Holds s l ch ∧ ch.id = c) ∨ channelLog s c = [.registerObserver c, .inserted c,
      .close c, .unregisterObserver c, .removed c false]

theorem Registered.unharmed {s : State} {phase : Nat → Phase} (h : Registered s phase) :
    Unharmed s := by
  have hmem {c : Nat} {e : Event} (he : e ∈ s.log) (hc : e.concerns c = true) :
      e ∈ (phase c).events c := by
    rw [← h.history]
    exact List.mem_filter.mpr ⟨he, hc⟩
  refine ⟨?_, ?_⟩
  · intro c he
    have hevents := hmem he (decide_eq_true rfl)
    cases hp : phase c <;> simp [hp, Phase.events] at hevents
  · intro c he
    have hevents := hmem he (decide_eq_true rfl)
    rw [h.history]
    cases hp : phase c with
    | unused => simp [hp, Phase.events] at hevents
    | observed => simp [hp, Phase.events] at hevents
    | held l =>
      obtain ⟨o, ch, ho, hch, hid⟩ := h.held c l (Or.inl hp)
      exact Or.inl ⟨l, ch, ⟨o, ho, hch⟩, hid⟩
    | closing l =>
      obtain ⟨o, ch, ho, hch, hid⟩ := h.held c l (Or.inr hp)
      exact Or.inl ⟨l, ch, ⟨o, ho, hch⟩, hid⟩
    | released => exact Or.inr rfl

/-- In every interleaving in which `HandleDataChannel` does not access the map for a label
between the lookup and the insertion of `CreateDataChannel` for that label, no registered
observer is destroyed and no registered channel is lost. -/
theorem race_unharmed {c : State} (hmap : c.dataObservers = ∅) (hlog : ∀ d, channelLog c d = [])
    {steps : List RaceStep} {t : Race} (hrun : run Race.next { conductor := c } steps = some t)
    (hundisturbed : Along Race.next Undisturbed { conductor := c } steps) :
    Unharmed t.conductor := by
  have hstart : ∃ phase, Calm { conductor := c } phase :=
    ⟨_, registered_empty hmap hlog, List.nodup_nil, fun _ h => (by cases h), fun _ _ => rfl,
      fun _ h => (by cases h), trivial, trivial, fun _ h => (by cases h),
      fun _ _ h => (by cases h)⟩
  obtain ⟨phase, h⟩ := run_invariant_along calm_next hstart hrun hundisturbed
  exact h.registered.unharmed

private def openBothSides : List RaceStep :=
  [.announce [98], .handleDataChannel, .registerAnnounced, .insertAnnounced,
    .createDataChannel [97] {}, .runCreate, .registerCreated, .insertCreated,
    .closeDataChannel [98], .unregisterFound, .eraseFound]

/-- Each side opens a channel, one after the other, and the first is closed. -/
theorem race_unharmed_openBothSides : ∃ t,
    run Race.next { conductor := .initialized } openBothSides = some t ∧
      t.conductor.dataObservers.keys = [[97]] ∧ Unharmed t.conductor := by
  have hkeys : (run Race.next { conductor := .initialized } openBothSides).map
      (fun t => t.conductor.dataObservers.keys) = some [[97]] := by decide +kernel
  obtain ⟨t, ht, hkeys⟩ := Option.map_eq_some_iff.mp hkeys
  refine ⟨t, ht, hkeys, race_unharmed rfl (fun d => rfl) ht ?_⟩
  have hfree : State.initialized.dataObservers.lookup [98] = none := rfl
  simp [openBothSides, Along, Undisturbed, Race.next, Caller.Creating, hfree]

/-- The announcement of a channel is queued when the application creates one with the same
label. It is handled while the application waits, and the insertion then destroys the
registered observer of a channel that was neither closed nor unregistered. -/
theorem race_overwrites : ∃ t,
    run Race.next { conductor := .initialized }
      [.announce [97], .createDataChannel [97] {}, .handleDataChannel, .registerAnnounced,
        .insertAnnounced, .runCreate, .registerCreated, .insertCreated] = some t ∧
      .removed 0 true ∈ t.conductor.log ∧ ¬ Unharmed t.conductor ∧
      channelLog t.conductor 0 = [.registerObserver 0, .inserted 0, .removed 0 true] := by
  have hlog : (run Race.next { conductor := .initialized }
      [.announce [97], .createDataChannel [97] {}, .handleDataChannel, .registerAnnounced,
        .insertAnnounced, .runCreate, .registerCreated, .insertCreated]).map
      (fun t => channelLog t.conductor 0) =
        some [.registerObserver 0, .inserted 0, .removed 0 true] := by decide +kernel
  obtain ⟨t, ht, hlog⟩ := Option.map_eq_some_iff.mp hlog
  have hremoved : .removed 0 true ∈ t.conductor.log := by
    apply List.mem_of_mem_filter (p := Event.concerns 0)
    rw [← channelLog, hlog]
    simp
  exact ⟨t, ht, hremoved, fun h => h.1 0 hremoved, hlog⟩

end Spitfire.Conductor
