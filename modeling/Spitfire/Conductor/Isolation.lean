import Spitfire.Conductor.TeardownCompleteness

/-! Several instances on one thread of the operating system. They share no field, but the
thread has one `rtc::Thread`, and every teardown tells it to quit. -/
namespace Spitfire.Conductor
open Transition

/-- `conductor_` is null before the construction and after the disposal. -/
inductive Instance where
  | absent
  | alive (conductor : State)
  | disposed

inductive InstanceCall where
  | construct
  | initializePeerConnection (outcome : Outcome) (order : List Label)
  | processMessages
  | dispose (order : List Label)
  deriving DecidableEq, Repr

/-- The instances of one thread, whether its `rtc::Thread` exists and has been told to quit,
and what the calls of each instance have returned. -/
structure Host (ι : Type) where
  instances : ι → Instance := fun _ => .absent
  wrapped : Bool := false
  quitting : Bool := false
  results : ι → List (Option Bool) := fun _ => []

/-- The conductor sees the thread as it is now. -/
def State.onThread (s : State) (wrapped : Bool) : State := { s with currentThread := wrapped }

/-- The caller's thread was told to quit between these two states. -/
def quits (s t : State) : Bool := (t.log.drop s.log.length).contains (.quit .current)

namespace Host
variable {ι : Type} [DecidableEq ι]

/-- The call of an instance returns. -/
def returns (h : Host ι) (i : ι) (x : Instance) (r : Option Bool) : Host ι :=
  { h with
    instances := Function.update h.instances i x
    results := Function.update h.results i (h.results i ++ [r]) }

/-- What the call has done to the thread. -/
def afterwards (h : Host ι) (s t : State) : Host ι :=
  { h with wrapped := t.currentThread, quitting := h.quitting || quits s t }

/-- A call on a living instance. -/
def serve (h : Host ι) (i : ι) (s : State) (c : InstanceCall) : Option (Host ι) :=
  match c with
  | .construct => none
  | .initializePeerConnection outcome order =>
    match Conductor.initializePeerConnection outcome order s with
    | .error _ => none
    | .ok (b, t) => some ((h.afterwards s t).returns i (.alive t) (some b))
  | .processMessages =>
    let (b, t) := Conductor.processMessages h.quitting s
    some ((h.afterwards s t).returns i (.alive t) (some b))
  | .dispose order =>
    match deletePeerConnection order s with
    | .error _ => none
    | .ok t => some ((h.afterwards s t).returns i .disposed none)

/-- A call through a null `conductor_` ends the run; disposing again does nothing. -/
def next (h : Host ι) (a : ι × InstanceCall) : Option (Host ι) :=
  match h.instances a.1, a.2 with
  | .absent, .construct => some (h.returns a.1 (.alive .constructed) none)
  | .alive s, c => h.serve a.1 (s.onThread h.wrapped) c
  | .disposed, .dispose _ => some (h.returns a.1 .disposed none)
  | _, _ => none

end Host

/-- As much of an instance as its calls depend on. -/
inductive Standing where
  | absent | ready | tornDown | disposed
  deriving DecidableEq, Repr

/-- An instance is torn down by its own failed initialization, and stays so until it is
disposed: only the constructor makes a peer observer. -/
def Instance.standing : Instance → Standing
  | absent => .absent
  | alive s => if s.peerObserver.isSome then .ready else .tornDown
  | disposed => .disposed

/-- None of the calls makes a channel. -/
def Instance.NoChannels : Instance → Prop
  | alive s => s.dataObservers = ∅
  | _ => True

def InstanceCall.fails : InstanceCall → Bool
  | initializePeerConnection outcome _ => decide (outcome ≠ .succeeds)
  | _ => false

def InstanceCall.answer (quitting : Bool) : InstanceCall → Option Bool
  | initializePeerConnection outcome _ => some (decide (outcome = .succeeds))
  | processMessages => some !quitting
  | _ => none

def Standing.next : Standing → InstanceCall → Option Standing
  | absent, .construct => some .ready
  | ready, .initializePeerConnection .succeeds _ => some .ready
  | ready, .initializePeerConnection _ _ => some .tornDown
  | tornDown, .initializePeerConnection .factoryFails _ => some .tornDown
  | ready, .processMessages => some .ready
  | tornDown, .processMessages => some .tornDown
  | ready, .dispose _ => some .disposed
  | tornDown, .dispose _ => some .disposed
  | disposed, .dispose _ => some .disposed
  | _, _ => none

theorem Standing.next_disposed {p q : Standing} {c : InstanceCall} (hp : p = .disposed)
    (h : p.next c = some q) : q = .disposed := by
  subst hp
  unfold Standing.next at h
  split at h <;> cases h <;> simp_all

theorem Standing.next_tornDown {p q : Standing} {c : InstanceCall} (h : p.next c = some q)
    (hq : q ≠ .disposed) : q = .tornDown ↔ p = .tornDown ∨ c.fails = true := by
  unfold Standing.next at h
  split at h <;> cases h <;> simp_all [InstanceCall.fails]

variable {s t : State}

theorem quits_of_log {es : List Event} (h : t.log = s.log ++ es) :
    quits s t = es.contains (.quit .current) := by
  rw [quits, h, List.drop_left]

/-- The teardown tells the thread to quit if there is one. -/
theorem teardown_log (s : State) : ∃ es,
    (releaseThreads (releaseConnection s)).log = s.log ++ es ∧
      es.contains (.quit .current) = s.currentThread := by
  refine ⟨released s ++ departed s, ?_, ?_⟩
  · rw [releaseThreads_log, releaseConnection_log, List.append_assoc]
    rfl
  · cases hcurrent : s.currentThread <;>
      simp [released, departed, mem_letGo, mem_quitThread, hcurrent]

/-- What an initialization without channels returns, and that it tells the thread to quit
exactly if it fails. -/
theorem initializePeerConnection_effect (hmap : s.dataObservers = ∅) {outcome : Outcome}
    {order : List Label} {b : Bool} (hrun : initializePeerConnection outcome order s = .ok (b, t)) :
    b = decide (outcome = .succeeds) ∧ t.dataObservers = ∅ ∧ t.peerObserver.isSome = b ∧
      quits s t = !b := by
  obtain ⟨s', hmap', hcurrent, ⟨es, hes, hinitializes⟩, hend⟩ := initializePeerConnection_ok hrun
  have hmap' := hmap'.trans hmap
  have hnone : es.contains (.quit .current) = false := by
    rw [List.contains_eq_mem, decide_eq_false_iff_not]
    intro hquit
    cases hinitializes _ hquit
  rcases hend with ⟨rfl, rfl, hpeer, rfl⟩ | ⟨rfl, houtcome, hteardown⟩
  · exact ⟨rfl, hmap', hpeer, (quits_of_log hes).trans hnone⟩
  · rw [deletePeerConnection_nothing hmap'] at hteardown
    cases hteardown
    obtain ⟨es', hes', hquit⟩ := teardown_log s'
    refine ⟨by simpa using houtcome, hmap', rfl, ?_⟩
    have hlog : (releaseThreads (releaseConnection s')).log = s.log ++ (es ++ es') := by
      rw [hes', hes, List.append_assoc]
    rw [quits_of_log hlog, List.contains_append, hnone, hquit, hcurrent]
    rfl

/-- An initialization without channels faults only through a null peer observer. -/
theorem initializePeerConnection_returns (hmap : s.dataObservers = ∅) {outcome : Outcome}
    {order : List Label} : (∃ r, initializePeerConnection outcome order s = .ok r) ↔
      outcome = .factoryFails ∨ s.peerObserver.isSome = true := by
  have hteardown {s' : State} (hmap' : s'.dataObservers = ∅) : ∃ r,
      (do return (false, ← deletePeerConnection order s')) =
        (.ok r : Except Fault (Bool × State)) := by
    rw [deletePeerConnection_nothing hmap']
    exact ⟨_, rfl⟩
  -- With the observer a constructor, the attempt evaluates up to its teardown.
  obtain ⟨_ | o⟩ := s
  · cases outcome with
    | factoryFails => exact iff_of_true (hteardown hmap) (Or.inl rfl)
    | connectionFails | succeeds =>
      refine iff_of_false ?_ (by simp)
      rintro ⟨r, hr⟩
      cases hr
  · refine iff_of_true ?_ (Or.inr rfl)
    cases outcome with
    | factoryFails | connectionFails => exact hteardown hmap
    | succeeds => exact ⟨_, rfl⟩

namespace Host
variable {ι : Type} {h k h' : Host ι} {a : ι × InstanceCall} {B : ι}

/-- Everything that one call does: to its own instance what its standing says, to the others
nothing, and to the thread that a failure makes it quit. -/
structure Serves (h : Host ι) (a : ι × InstanceCall) (k : Host ι) : Prop where
  standing : (h.instances a.1).standing.next a.2 = some (k.instances a.1).standing
  answer : k.results a.1 = h.results a.1 ++ [a.2.answer h.quitting]
  noChannels : (k.instances a.1).NoChannels
  quitting : (k.instances a.1).standing ≠ .disposed → k.quitting = (h.quitting || a.2.fails)
  lasting : h.quitting = true → k.quitting = true
  others : ∀ i ≠ a.1, k.instances i = h.instances i ∧ k.results i = h.results i

/-- The second host is the first one without the other instances. -/
structure Alone (B : ι) (h h' : Host ι) : Prop where
  standing : (h'.instances B).standing = (h.instances B).standing
  noChannels : ∀ i, (h.instances i).NoChannels
  noChannels' : (h'.instances B).NoChannels
  shared : (h.instances B).standing = .tornDown → h.quitting = true
  own : (h'.instances B).standing ≠ .disposed →
    (h'.quitting = true ↔ (h'.instances B).standing = .tornDown)

/-- The thread has not been told to quit by anyone but the instance itself. -/
def Undisturbed (B : ι) (h : Host ι) (a : ι × InstanceCall) : Prop :=
  a = (B, .processMessages) → h.quitting = true → (h.instances B).standing = .tornDown

theorem alone_empty (B : ι) : Alone B {} {} where
  standing := rfl
  noChannels := fun _ => trivial
  noChannels' := trivial
  shared := fun htorn => nomatch htorn
  own := fun _ => iff_of_false (fun hquits => nomatch hquits) fun htorn => nomatch htorn

instance (B : ι) [DecidableEq ι] (h : Host ι) (a : ι × InstanceCall) :
    Decidable (Undisturbed B h a) :=
  inferInstanceAs (Decidable (_ → _ → _))

/-- The only answer that depends on the thread is that of `ProcessMessages`. -/
theorem Alone.answer_iff (halone : Alone B h h') {c : InstanceCall} {p : Standing}
    (hstanding : (h'.instances B).standing.next c = some p) :
    c.answer h'.quitting = c.answer h.quitting ↔ Undisturbed B h (B, c) := by
  cases c with
  | construct | initializePeerConnection _ _ | dispose _ =>
    exact iff_of_true rfl fun hc => nomatch hc
  | processMessages =>
    have halive : (h'.instances B).standing ≠ .disposed := by
      intro hgone
      rw [hgone] at hstanding
      cases hstanding
    have hown := halone.own halive
    rw [halone.standing] at hown
    have hequal : InstanceCall.processMessages.answer h'.quitting =
        InstanceCall.processMessages.answer h.quitting ↔ h'.quitting = h.quitting := by
      simp [InstanceCall.answer]
    rw [hequal]
    constructor
    · intro hsame _ hquits
      exact hown.mp (hsame.trans hquits)
    · intro hundisturbed
      apply Bool.eq_iff_iff.mpr
      exact ⟨fun hquits => halone.shared (hown.mp hquits),
        fun hquits => hown.mpr (hundisturbed rfl hquits)⟩

variable [DecidableEq ι]

theorem serves_of_returns {g : Host ι} {i : ι} {c : InstanceCall} {x : Instance} {q : Bool}
    (hinstances : g.instances = h.instances) (hresults : g.results = h.results)
    (hquitting : g.quitting = (h.quitting || q)) (hx : x.NoChannels)
    (hstanding : (h.instances i).standing.next c = some x.standing)
    (hq : x.standing ≠ .disposed → q = c.fails) :
    Serves h (i, c) (g.returns i x (c.answer h.quitting)) where
  standing := by simpa [returns] using hstanding
  answer := by simp [returns, hresults]
  noChannels := by simpa [returns] using hx
  quitting := by
    intro hdisposed
    rw [← hq (by simpa [returns] using hdisposed)]
    exact hquitting
  lasting := by
    intro hquits
    simp [returns, hquitting, hquits]
  others := by
    intro j hj
    simp [returns, hinstances, hresults, Function.update_of_ne hj]

theorem serve_serves {i : ι} {s : State} {c : InstanceCall}
    (halive : (h.instances i).standing = (Instance.alive s).standing)
    (hmap : s.dataObservers = ∅) (hserve : h.serve i s c = some k) : Serves h (i, c) k := by
  cases c with
  | construct => cases hserve
  | initializePeerConnection outcome order =>
    dsimp only [serve] at hserve
    split at hserve
    · cases hserve
    · rename_i b t hrun
      cases hserve
      obtain ⟨rfl, hmap', hpeer, hquits⟩ := initializePeerConnection_effect hmap hrun
      have hreturns := (initializePeerConnection_returns hmap).mp ⟨_, hrun⟩
      refine serves_of_returns rfl rfl rfl hmap' ?_ fun _ => ?_
      · rw [halive]
        cases outcome <;> cases hobserver : s.peerObserver <;>
          simp_all [Instance.standing, Standing.next]
      · simp [hquits, InstanceCall.fails]
  | processMessages =>
    cases hserve
    refine serves_of_returns rfl rfl rfl hmap ?_ fun _ => ?_
    · rw [halive]
      cases hobserver : s.peerObserver <;> simp [Instance.standing, Standing.next, hobserver]
    · exact quits_of_log (List.append_nil _).symm
  | dispose order =>
    dsimp only [serve] at hserve
    rw [deletePeerConnection_nothing hmap] at hserve
    cases hserve
    refine serves_of_returns rfl rfl rfl trivial ?_ fun hdisposed => (hdisposed rfl).elim
    rw [halive]
    cases hobserver : s.peerObserver <;> simp [Instance.standing, Standing.next, hobserver]

theorem next_serves (hempty : (h.instances a.1).NoChannels) (hnext : h.next a = some k) :
    Serves h a k := by
  obtain ⟨i, c⟩ := a
  dsimp only [next] at hnext hempty
  split at hnext
  · rename_i habsent
    cases hnext
    refine serves_of_returns rfl rfl (Bool.or_false _).symm rfl ?_ fun _ => rfl
    rw [habsent]
    rfl
  · rename_i s halive
    rw [halive] at hempty
    have hseen : (h.instances i).standing = (Instance.alive (s.onThread h.wrapped)).standing := by
      rw [halive]
      rfl
    exact serve_serves hseen hempty hnext
  · rename_i order hdisposed
    cases hnext
    refine serves_of_returns rfl rfl (Bool.or_false _).symm trivial ?_ fun h => (h rfl).elim
    rw [hdisposed]
    rfl
  · cases hnext

theorem serve_returns {i : ι} {s : State} {c : InstanceCall} (hmap : s.dataObservers = ∅)
    {p : Standing} (hstanding : (Instance.alive s).standing.next c = some p) :
    ∃ k, h.serve i s c = some k := by
  cases c with
  | construct =>
    cases hobserver : s.peerObserver <;>
      simp [Instance.standing, Standing.next, hobserver] at hstanding
  | initializePeerConnection outcome order =>
    have hobserver : outcome = .factoryFails ∨ s.peerObserver.isSome = true := by
      cases outcome <;> cases hobserver : s.peerObserver <;>
        simp_all [Instance.standing, Standing.next]
    obtain ⟨⟨b, t⟩, hrun⟩ := (initializePeerConnection_returns hmap).mpr hobserver
    dsimp only [serve]
    rw [hrun]
    exact ⟨_, rfl⟩
  | processMessages => exact ⟨_, rfl⟩
  | dispose order =>
    simp only [serve, deletePeerConnection_nothing hmap]
    exact ⟨_, rfl⟩

theorem next_returns (hempty : (h.instances a.1).NoChannels) {p : Standing}
    (hstanding : (h.instances a.1).standing.next a.2 = some p) : ∃ k, h.next a = some k := by
  obtain ⟨i, c⟩ := a
  dsimp only at hempty hstanding
  cases hinstance : h.instances i with
  | absent =>
    rw [hinstance] at hstanding
    cases c with
    | construct =>
      simp only [next, hinstance]
      exact ⟨_, rfl⟩
    | initializePeerConnection _ _ | processMessages | dispose _ => cases hstanding
  | alive s =>
    rw [hinstance] at hstanding hempty
    simp only [next, hinstance]
    exact serve_returns (s := s.onThread h.wrapped) hempty hstanding
  | disposed =>
    rw [hinstance] at hstanding
    cases c with
    | dispose _ =>
      simp only [next, hinstance]
      exact ⟨_, rfl⟩
    | construct | initializePeerConnection _ _ | processMessages => cases hstanding

/-- A call of another instance does not show. -/
theorem Alone.other (halone : Alone B h h') (hother : a.1 ≠ B) (hnext : h.next a = some k) :
    Alone B k h' ∧ k.results B = h.results B := by
  have hserves := next_serves (halone.noChannels a.1) hnext
  obtain ⟨hinstance, hresults⟩ := hserves.others B (Ne.symm hother)
  refine ⟨⟨?_, fun i => ?_, halone.noChannels', fun htorn => ?_, halone.own⟩, hresults⟩
  · rw [hinstance, halone.standing]
  · by_cases hi : i = a.1
    · exact hi ▸ hserves.noChannels
    · rw [(hserves.others i hi).1]
      exact halone.noChannels i
  · rw [hinstance] at htorn
    exact hserves.lasting (halone.shared htorn)

/-- A call of the instance itself can also be made in its own run, and there it returns the
same exactly if it is undisturbed. -/
theorem Alone.own_call (halone : Alone B h h') (hown : a.1 = B) (hnext : h.next a = some k) :
    ∃ k', h'.next a = some k' ∧ Alone B k k' ∧
      (k'.results B = k.results B ↔ h'.results B = h.results B ∧ Undisturbed B h a) := by
  obtain ⟨i, c⟩ := a
  obtain rfl : i = B := hown
  have hserves := next_serves (halone.noChannels i) hnext
  have hstanding := hserves.standing
  rw [← halone.standing] at hstanding
  obtain ⟨k', hnext'⟩ := next_returns (a := (i, c)) halone.noChannels' hstanding
  have hserves' := next_serves (a := (i, c)) halone.noChannels' hnext'
  have hsame : (k'.instances i).standing = (k.instances i).standing :=
    Option.some_inj.mp (hserves'.standing.symm.trans hstanding)
  refine ⟨k', hnext', ⟨hsame, fun j => ?_, hserves'.noChannels, fun htorn => ?_,
    fun hdisposed => ?_⟩, ?_⟩
  · by_cases hj : j = i
    · exact hj ▸ hserves.noChannels
    · rw [(hserves.others j hj).1]
      exact halone.noChannels j
  · have hdisposed : (k.instances i).standing ≠ .disposed := by simp [htorn]
    rw [hserves.quitting hdisposed, Bool.or_eq_true]
    exact ((Standing.next_tornDown hserves.standing hdisposed).mp htorn).imp_left halone.shared
  · have hbefore : (h'.instances i).standing ≠ .disposed :=
      fun hgone => hdisposed (Standing.next_disposed hgone hserves'.standing)
    rw [hserves'.quitting hdisposed, Bool.or_eq_true, halone.own hbefore,
      Standing.next_tornDown hserves'.standing hdisposed]
  · rw [hserves'.answer, hserves.answer, ← List.concat_eq_append, ← List.concat_eq_append,
      List.concat_inj]
    exact and_congr_right fun _ => halone.answer_iff hstanding

theorem Alone.run (halone : Alone B h h') {steps : List (ι × InstanceCall)}
    (hrun : Transition.run next h steps = some k) :
    ∃ k', Transition.run next h' (steps.filter fun a => a.1 = B) = some k' ∧
      (k'.results B = k.results B ↔
        h'.results B = h.results B ∧ Along next (Undisturbed B) h steps) := by
  induction steps generalizing h h' with
  | nil =>
    obtain rfl : h = k := by simpa using hrun
    exact ⟨h', rfl, by simp [Along]⟩
  | cons a steps ih =>
    obtain ⟨m, hm, hrun⟩ := run_cons_eq_some.mp hrun
    have hcons : Along next (Undisturbed B) h (a :: steps) ↔
        Undisturbed B h a ∧ Along next (Undisturbed B) m steps := by
      simp [Along, hm]
    rw [hcons]
    by_cases hown : a.1 = B
    · obtain ⟨m', hm', halone', hresults⟩ := halone.own_call hown hm
      obtain ⟨k', hk', hiff⟩ := ih halone' hrun
      refine ⟨k', ?_, ?_⟩
      · rw [List.filter_cons_of_pos (by simpa using hown)]
        exact run_cons_eq_some.mpr ⟨m', hm', hk'⟩
      · rw [hiff, hresults, and_assoc]
    · obtain ⟨halone', hresults⟩ := halone.other hown hm
      obtain ⟨k', hk', hiff⟩ := ih halone' hrun
      have hundisturbed : Undisturbed B h a := by
        rintro rfl
        exact (hown rfl).elim
      refine ⟨k', ?_, ?_⟩
      · rw [List.filter_cons_of_neg (by simpa using hown)]
        exact hk'
      · rw [hiff, hresults, and_iff_right hundisturbed]

end Host

/-- For every instance of a thread and every run of the calls of all its instances: its own
calls can also be made alone, and they return the same there exactly if each of its
`ProcessMessages` found the thread told to quit by nobody but itself. -/
theorem results_alone_iff {ι : Type} [DecidableEq ι] (B : ι) (steps : List (ι × InstanceCall))
    (h : Host ι) (hrun : run Host.next {} steps = some h) :
    ∃ h', run Host.next {} (steps.filter fun a => a.1 = B) = some h' ∧
      (h'.results B = h.results B ↔ Along Host.next (Host.Undisturbed B) {} steps) := by
  obtain ⟨h', hrun', hiff⟩ := (Host.alone_empty B).run hrun
  exact ⟨h', hrun', hiff.trans (and_iff_right rfl)⟩

/-- One instance serves its connection while the other starts, and is disposed after it. -/
theorem results_alone_in_turn :
    let steps : List (Bool × InstanceCall) :=
      [(false, .construct), (true, .construct), (true, .initializePeerConnection .succeeds []),
        (false, .initializePeerConnection .succeeds []), (true, .processMessages),
        (true, .dispose []), (false, .dispose [])]
    ∃ h h', run Host.next {} steps = some h ∧
      run Host.next {} (steps.filter fun a => a.1 = true) = some h' ∧
      h'.results true = h.results true ∧
      h.results true = [none, some true, some true, none] := by
  intro steps
  obtain ⟨h, hrun, hresults⟩ : ∃ h, run Host.next {} steps = some h ∧
      h.results true = [none, some true, some true, none] := ⟨_, rfl, rfl⟩
  obtain ⟨h', hrun', hiff⟩ := results_alone_iff true steps h hrun
  refine ⟨h, h', hrun, hrun', hiff.mpr ?_, hresults⟩
  decide

/-- An instance that never had a connection is disposed, and the connection of the other one
is no longer served. -/
theorem disposal_stops_other_instance :
    let steps : List (Bool × InstanceCall) :=
      [(false, .construct), (true, .construct), (true, .initializePeerConnection .succeeds []),
        (false, .dispose []), (true, .processMessages)]
    ∃ h h', run Host.next {} steps = some h ∧
      run Host.next {} (steps.filter fun a => a.1 = true) = some h' ∧
      h.results true = [none, some true, some false] ∧
      h'.results true = [none, some true, some true] :=
  ⟨_, _, rfl, rfl, rfl, rfl⟩

end Spitfire.Conductor
