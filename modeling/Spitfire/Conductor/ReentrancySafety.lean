import Spitfire.Conductor.Reentrancy

/-! Which handlers are safe. A call in progress still has to touch the observer that it is
closing, so a handler may close any channel but those that calls below it are closing, none
while the teardown walks the map, and may call nothing once the object is being disposed. -/
namespace Spitfire.Conductor
open Transition SpitfireRtc

/-- The observer of this channel is in the map under this label. -/
def Present (c : State) (l : Label) (observer : Nat) : Prop := ∃ o, entryOf c l observer = some o

theorem present_iff {c : State} {l : Label} {observer : Nat} : Present c l observer ↔
    ∃ o ch, c.dataObservers.lookup l = some o ∧ o.dataChannel = some ch ∧ ch.id = observer := by
  simp only [Present, entryOf, Option.filter_eq_some_iff, decide_eq_true_eq,
    Option.map_eq_some_iff]
  constructor
  · rintro ⟨o, ho, ch, hch, hid⟩
    exact ⟨o, ch, ho, hch, hid⟩
  · rintro ⟨o, ch, ho, hch, hid⟩
    exact ⟨o, ho, ch, hch, hid⟩

/-- Labels that are being closed by calls in progress. -/
def closingLabels : List Frame → List Label :=
  List.filterMap fun
    | .close l _ => some l
    | _ => none

/-- Every call in progress will find what it still has to touch. -/
structure Orderly (s : SpitfireRtc) : Prop where
  closing : ∀ l observer, .close l observer ∈ s.stack → Present s.conductor l observer
  distinct : (closingLabels s.stack).Nodup
  loop : ∀ l observer rest, .loop l observer rest ∈ s.stack → closingLabels s.stack = [] ∧
    s.conductor.peerObserver = none ∧ Present s.conductor l observer ∧
    ∀ l' ∈ rest, s.conductor.dataObservers.lookup l' ≠ none
  safe : s.violation = none

/-- No method is called once the object is being disposed; no channel is closed by a
handler that runs, at any depth, inside the closing of the same channel; and none that is
in the map while the teardown walks it. -/
def Courteous (s : SpitfireRtc) : StackStep → Prop
  | .call (.closeDataChannel l) => s.attached = true ∧ l ∉ closingLabels s.stack ∧
      (s.conductor.dataObservers.lookup l ≠ none → s.iterating = false)
  | .call _ => s.attached = true
  | _ => True

instance (s : SpitfireRtc) : (a : StackStep) → Decidable (Courteous s a)
  | .call (.closeDataChannel _) => inferInstanceAs (Decidable (_ ∧ _ ∧ (_ → _)))
  | .call (.getDataChannelInfo _) | .call (.getDataChannelState _)
  | .call (.dataChannelSendText _ _) | .call (.createDataChannel _ _ _) =>
    inferInstanceAs (Decidable (_ = true))
  | .event _ | .raise _ | .handlerReturns | .channelClosed | .dispose | .deletePeerConnection
  | .connectionClosed _ | .elementClosed => inferInstanceAs (Decidable True)

theorem iterating_iff {s : SpitfireRtc} :
    s.iterating = true ↔ ∃ l observer rest, .loop l observer rest ∈ s.stack := by
  rw [iterating, List.any_eq_true]
  constructor
  · rintro ⟨f, hf, hloop⟩
    cases f with
    | loop l observer rest => exact ⟨l, observer, rest, hf⟩
    | _ => cases hloop
  · rintro ⟨l, observer, rest, hmem⟩
    exact ⟨_, hmem, rfl⟩

theorem not_mem_of_not_iterating {s : SpitfireRtc} (h : s.iterating = false) {l : Label}
    {observer : Nat} {rest : List Label} : .loop l observer rest ∉ s.stack := by
  intro hmem
  rw [iterating_iff.mpr ⟨l, observer, rest, hmem⟩] at h
  cases h

theorem Present.congr {c c' : State} {l : Label} {observer : Nat} (h : Present c l observer)
    (hlookup : c'.dataObservers.lookup l = c.dataObservers.lookup l) : Present c' l observer := by
  rwa [Present, entryOf, hlookup]

theorem Present.lookup {c : State} {l : Label} {observer : Nat} (h : Present c l observer) :
    c.dataObservers.lookup l ≠ none := by
  obtain ⟨o, ch, ho, _⟩ := present_iff.mp h
  rw [ho]
  exact Option.some_ne_none o

/-- The conductor changes, and the observers in the map stay there. -/
theorem Orderly.frame {s : SpitfireRtc} (h : Orderly s) {c : State}
    (hpresent : ∀ l observer, Present s.conductor l observer → Present c l observer)
    (hkept : ∀ l, s.conductor.dataObservers.lookup l ≠ none → c.dataObservers.lookup l ≠ none)
    (hpeer : s.conductor.peerObserver = none → c.peerObserver = none) (issued : Nat) :
    Orderly { s with conductor := c, issued := issued } := by
  refine ⟨fun l observer hmem => hpresent l observer (h.closing l observer hmem), h.distinct, ?_,
    h.safe⟩
  intro l observer rest hmem
  obtain ⟨hnone, hnull, hp, hrest⟩ := h.loop l observer rest hmem
  exact ⟨hnone, hpeer hnull, hpresent l observer hp, fun l' hl' => hkept l' (hrest l' hl')⟩

/-- The conductor changes, and the entries that are in the map stay as they are. -/
theorem Orderly.frame_of_lookup {s : SpitfireRtc} (h : Orderly s) {c : State}
    (hmap : ∀ l, s.conductor.dataObservers.lookup l ≠ none →
      c.dataObservers.lookup l = s.conductor.dataObservers.lookup l)
    (hpeer : s.conductor.peerObserver = none → c.peerObserver = none) (issued : Nat) :
    Orderly { s with conductor := c, issued := issued } := by
  refine h.frame (fun l observer hp => hp.congr (hmap l hp.lookup)) (fun l hl => ?_) hpeer issued
  rw [hmap l hl]
  exact hl

/-- Handlers come and go without touching anything. -/
theorem orderly_handler {s : SpitfireRtc} {stack : List Frame} :
    Orderly { s with stack := .handler :: stack } ↔ Orderly { s with stack := stack } := by
  have hclose (l : Label) (observer : Nat) :
      Frame.close l observer ∈ Frame.handler :: stack ↔ .close l observer ∈ stack := by simp
  have hloop (l : Label) (observer : Nat) (rest : List Label) :
      Frame.loop l observer rest ∈ Frame.handler :: stack ↔ .loop l observer rest ∈ stack := by simp
  have hlabels : closingLabels (.handler :: stack) = closingLabels stack := rfl
  constructor
  · intro h
    exact ⟨fun l k hk => h.closing l k ((hclose l k).mpr hk), h.distinct,
      fun l k r hk => h.loop l k r ((hloop l k r).mpr hk), h.safe⟩
  · intro h
    exact ⟨fun l k hk => h.closing l k ((hclose l k).mp hk), h.distinct,
      fun l k r hk => h.loop l k r ((hloop l k r).mp hk), h.safe⟩

theorem Orderly.fail {s : SpitfireRtc} (h : Orderly s) (f : Fault) :
    Orderly { s with fault := some f } := ⟨h.closing, h.distinct, h.loop, h.safe⟩

theorem orderly_closeDataChannel {s : SpitfireRtc} (h : Orderly s) {l : Label}
    (hfree : l ∉ closingLabels s.stack)
    (hstill : s.conductor.dataObservers.lookup l ≠ none → s.iterating = false) :
    Orderly (s.closeDataChannel l) := by
  unfold SpitfireRtc.closeDataChannel
  split
  · exact h
  · rename_i o ho
    unfold enterClose
    split
    · exact h.fail _
    · rename_i ch hch
      have hpresent : Present s.conductor l ch.id := present_iff.mpr ⟨o, ch, ho, hch, rfl⟩
      have hloops := hstill hpresent.lookup
      refine ⟨?_, List.nodup_cons.mpr ⟨hfree, h.distinct⟩, ?_, h.safe⟩
      · intro l' observer hmem
        rcases List.mem_cons.mp hmem with hnew | hmem
        · cases hnew
          exact hpresent
        · exact h.closing l' observer hmem
      · intro l' observer rest hmem
        rcases List.mem_cons.mp hmem with hnew | hmem
        · cases hnew
        · exact (not_mem_of_not_iterating hloops hmem).elim

/-- A created channel joins the map under a free label, and only through the peer observer. -/
theorem createDataChannel_ok {l : Label} {config : DataChannelInit} {channel : Option Channel}
    {c c' : State} {u : Unit} (h : Conductor.createDataChannel l config channel c = .ok (u, c')) :
    c.peerObserver ≠ none ∧ c'.peerObserver = c.peerObserver ∧
      ∀ l', c.dataObservers.lookup l' ≠ none →
        c'.dataObservers.lookup l' = c.dataObservers.lookup l' := by
  unfold Conductor.createDataChannel withConnection at h
  split at h
  · cases h
  · rename_i ho
    cases h
    exact ⟨by simp [ho], rfl, fun _ _ => rfl⟩
  · rename_i n ho
    refine ⟨by simp [ho], ?_⟩
    split at h
    · rename_i hfree
      cases channel with
      | none => cases h
      | some ch =>
        cases h
        refine ⟨rfl, fun l' hl' => AList.lookup_insert_ne ?_⟩
        rintro rfl
        exact hl' hfree
    · cases h
      exact ⟨rfl, fun _ _ => rfl⟩

theorem orderly_createDataChannel {s : SpitfireRtc} (h : Orderly s) (l : Label)
    (config : DataChannelInit) (made : Bool) : Orderly (s.createDataChannel l config made) := by
  unfold SpitfireRtc.createDataChannel
  dsimp only
  split
  · exact h.fail _
  · rename_i c hc
    obtain ⟨hpeer, hsame, hmap⟩ := createDataChannel_ok hc
    split
    · -- In the loop there is no peer observer left to create a channel with.
      rename_i hviolates
      obtain ⟨l', observer, rest, hmem⟩ := iterating_iff.mp hviolates.1
      exact (hpeer (h.loop l' observer rest hmem).2.1).elim
    · exact h.frame_of_lookup hmap (fun hnull => hsame.trans hnull) _

theorem orderly_call {s : SpitfireRtc} (h : Orderly s) {m : Method}
    (hcourteous : Courteous s (.call m)) : Orderly (s.call m) := by
  have hattached : s.attached = true := by
    cases m with
    | closeDataChannel l => exact hcourteous.1
    | _ => exact hcourteous
  have hread (x : Except Fault State) (hx : ∀ c, x = .ok c →
      c.dataObservers = s.conductor.dataObservers ∧ c.peerObserver = s.conductor.peerObserver) :
      Orderly (s.complete x) := by
    cases x with
    | error f => exact h.fail f
    | ok c =>
      obtain ⟨hmap, hpeer⟩ := hx c rfl
      exact h.frame_of_lookup (fun l _ => by rw [hmap]) (fun hnull => hpeer.trans hnull) _
  have hchannel (l : Label) : Orderly
      (s.complete ((channelOf l s.conductor).map fun _ => s.conductor)) := by
    refine hread _ fun c hc => ?_
    obtain ⟨_, _, rfl⟩ := map_eq_ok.mp hc
    exact ⟨rfl, rfl⟩
  unfold SpitfireRtc.call
  rw [if_pos hattached]
  cases m with
  | closeDataChannel l =>
    obtain ⟨_, hfree, hstill⟩ := hcourteous
    exact orderly_closeDataChannel h hfree hstill
  | getDataChannelInfo l => exact hchannel l
  | getDataChannelState l => exact hchannel l
  | dataChannelSendText l text =>
    refine hread _ fun c hc => ?_
    obtain ⟨channel, _, hsend⟩ := bind_eq_ok.mp hc
    cases channel with
    | none =>
      cases hsend
      exact ⟨rfl, rfl⟩
    | some ch =>
      cases hsend
      exact ⟨rfl, rfl⟩
  | createDataChannel l config made => exact orderly_createDataChannel h l config made

theorem orderly_channelClosed {s t : SpitfireRtc} (h : Orderly s) (hnext : s.channelClosed = some t) :
    Orderly t := by
  unfold SpitfireRtc.channelClosed at hnext
  split at hnext
  · rename_i l observer rest hstack
    have hmem : Frame.close l observer ∈ s.stack := by simp [hstack]
    obtain ⟨o, ho⟩ := h.closing l observer hmem
    have hlabels : closingLabels s.stack = l :: closingLabels rest := by rw [hstack]; rfl
    have hloops {l' : Label} {observer' : Nat} {rest' : List Label} :
        Frame.loop l' observer' rest' ∉ s.stack := by
      intro hloop
      obtain ⟨hnone, _⟩ := h.loop l' observer' rest' hloop
      rw [hlabels] at hnone
      cases hnone
    have hstill : s.iterating = false := by
      rw [← Bool.not_eq_true, iterating_iff]
      rintro ⟨l', observer', rest', hloop⟩
      exact hloops hloop
    rw [ho] at hnext
    simp only [hstill, Bool.false_eq_true, if_false, Option.some.injEq] at hnext
    subst hnext
    have hdistinct := h.distinct
    rw [hlabels, List.nodup_cons] at hdistinct
    obtain ⟨o', ch, hlookup, _⟩ := present_iff.mp ⟨o, ho⟩
    have hmap (l' : Label) (hl : l' ≠ l) :
        ((leaveClose s.conductor l o observer).erase l).dataObservers.lookup l' =
          s.conductor.dataObservers.lookup l' := by
      simp only [leaveClose, State.erase, State.update, State.record, AList.lookup_insert]
      rw [AList.lookup_erase_ne hl, AList.lookup_insert_ne hl]
    refine ⟨?_, hdistinct.2, ?_, h.safe⟩
    · intro l' observer' hmem'
      have hne : l' ≠ l := by
        rintro rfl
        exact hdistinct.1 (List.mem_filterMap.mpr ⟨_, hmem', rfl⟩)
      exact (h.closing l' observer' (by simp [hstack, hmem'])).congr (hmap l' hne)
    · intro l' observer' rest' hmem'
      exact (hloops (hstack ▸ List.mem_cons_of_mem _ hmem')).elim
  · cases hnext

/-- The rest of `UnregisterObserver` changes a flag and leaves the observer where it is. -/
theorem present_leaveClose {c : State} {l : Label} {observer : Nat} {o : DataChannelObserver}
    (ho : entryOf c l observer = some o) :
    (∀ l' k, Present c l' k → Present (leaveClose c l o observer) l' k) ∧
      ∀ l', c.dataObservers.lookup l' ≠ none →
        (leaveClose c l o observer).dataObservers.lookup l' ≠ none := by
  obtain ⟨hlookup, _⟩ := Option.filter_eq_some_iff.mp ho
  have hset : (leaveClose c l o observer).dataObservers.lookup l =
      some { o with registered := false } := AList.lookup_insert _
  have hother (l' : Label) (hl : l' ≠ l) : (leaveClose c l o observer).dataObservers.lookup l' =
      c.dataObservers.lookup l' := AList.lookup_insert_ne hl
  refine ⟨fun l' k hp => ?_, fun l' hl' => ?_⟩
  · by_cases hl : l' = l
    · subst hl
      obtain ⟨o', ch, ho', hch, hid⟩ := present_iff.mp hp
      obtain rfl : o = o' := Option.some.inj (hlookup.symm.trans ho')
      exact present_iff.mpr ⟨_, ch, hset, hch, hid⟩
    · exact hp.congr (hother l' hl)
  · by_cases hl : l' = l
    · rw [hl, hset]
      exact Option.some_ne_none _
    · rw [hother l' hl]
      exact hl'

/-- The loop goes on among entries that are all in the map. -/
theorem orderly_walk {s : SpitfireRtc} (h : Orderly s) (hnull : s.conductor.peerObserver = none)
    {labels : List Label} (hlabels : ∀ l ∈ labels, s.conductor.dataObservers.lookup l ≠ none) :
    Orderly (s.walk labels) := by
  cases labels with
  | nil =>
    refine ⟨fun _ _ hmem => (by cases hmem), List.nodup_nil, fun _ _ _ hmem => (by cases hmem), ?_⟩
    exact h.safe
  | cons l rest =>
    rw [walk]
    split
    · rename_i hnone
      exact (hlabels l (by simp) hnone).elim
    · rename_i o ho
      unfold enterClose
      split
      · exact h.fail _
      · rename_i ch hch
        refine ⟨?_, List.nodup_nil, ?_, h.safe⟩
        · intro l' observer hmem
          cases List.mem_singleton.mp hmem
        · intro l' observer rest' hmem
          cases List.mem_singleton.mp hmem
          refine ⟨rfl, hnull, present_iff.mpr ⟨o, ch, ho, hch, rfl⟩, ?_⟩
          exact fun l' hl' => hlabels l' (by simp [hl'])

theorem orderly_elementClosed {s t : SpitfireRtc} (h : Orderly s) (hnext : s.elementClosed = some t) :
    Orderly t := by
  unfold SpitfireRtc.elementClosed at hnext
  split at hnext
  · rename_i l observer rest hstack
    obtain ⟨_, hnull, ⟨o, ho⟩, hrest⟩ := h.loop l observer rest (by simp [hstack])
    obtain ⟨hpresent, hkept⟩ := present_leaveClose ho
    rw [ho] at hnext
    cases hnext
    have hleft := h.frame hpresent hkept (fun h => h) s.issued
    exact orderly_walk hleft hnull fun l' hl' => hkept l' (hrest l' hl')
  · cases hnext

theorem orderly_connectionClosed {s t : SpitfireRtc} (h : Orderly s) {order : List Label}
    (hnext : s.connectionClosed order = some t) : Orderly t := by
  unfold SpitfireRtc.connectionClosed at hnext
  split at hnext
  · split at hnext
    · rename_i horder
      have hreleases : ∃ c, Teardown.releases.foldlM (fun c t => t.exec c) s.conductor = .ok c ∧
          c.dataObservers = s.conductor.dataObservers ∧ c.peerObserver = none :=
        ⟨_, rfl, rfl, rfl⟩
      obtain ⟨c, hc, hmap, hnull⟩ := hreleases
      rw [hc] at hnext
      cases hnext
      have hreleased := h.frame_of_lookup (c := c) (fun l _ => by rw [hmap]) (fun _ => hnull) s.issued
      have hordered : Orderly { s with conductor := c, order := order } :=
        ⟨hreleased.closing, hreleased.distinct, hreleased.loop, hreleased.safe⟩
      refine orderly_walk hordered hnull fun l hl => ?_
      change c.dataObservers.lookup l ≠ none
      rw [hmap, Ne, AList.lookup_eq_none, not_not, AList.mem_keys]
      exact horder.subset hl
    · cases hnext
  · cases hnext

theorem orderly_enterTeardown {s t : SpitfireRtc} (hsafe : s.violation = none)
    (hnext : s.enterTeardown = some t) : Orderly t := by
  unfold enterTeardown at hnext
  split at hnext
  · cases hnext
    exact ⟨fun _ _ hmem => (by cases List.mem_singleton.mp hmem), List.nodup_nil,
      fun _ _ _ hmem => (by cases List.mem_singleton.mp hmem), hsafe⟩
  · cases hnext

theorem orderly_enterHandler {s t : SpitfireRtc} (h : Orderly s) {l : Label}
    (hnext : s.enterHandler l = some t) : Orderly t := by
  unfold enterHandler at hnext
  split at hnext
  · split at hnext
    · cases hnext
      exact orderly_handler.mpr h
    · cases hnext
  · cases hnext

theorem orderly_next (s : SpitfireRtc) (a : StackStep) (t : SpitfireRtc) (h : Orderly s)
    (hcourteous : Courteous s a) (hnext : s.next a = some t) : Orderly t := by
  unfold SpitfireRtc.next at hnext
  split at hnext
  · cases hnext
  · cases a with
    | event l =>
      dsimp only at hnext
      split at hnext
      · exact orderly_enterHandler h hnext
      · cases hnext
    | raise l =>
      dsimp only at hnext
      split at hnext
      · exact orderly_enterHandler h hnext
      · cases hnext
    | call m =>
      dsimp only at hnext
      split at hnext
      · cases hnext
        exact orderly_call h hcourteous
      · cases hnext
        exact orderly_call h hcourteous
      · cases hnext
    | handlerReturns =>
      dsimp only at hnext
      split at hnext
      · rename_i rest hstack
        cases hnext
        apply orderly_handler.mp
        rw [← hstack]
        exact h
      · cases hnext
    | channelClosed => exact orderly_channelClosed h hnext
    | dispose =>
      dsimp only [SpitfireRtc.dispose] at hnext
      split at hnext
      · exact orderly_enterTeardown (s := { s with attached := false }) h.safe hnext
      · cases hnext
    | deletePeerConnection =>
      dsimp only [SpitfireRtc.deletePeerConnection] at hnext
      split at hnext
      · exact orderly_enterTeardown h.safe hnext
      · cases hnext
    | connectionClosed order => exact orderly_connectionClosed h hnext
    | elementClosed => exact orderly_elementClosed h hnext

/-- Whatever the nesting: as long as every call made by a handler is courteous, no observer
is used after its erasure, the map does not change under the loop of the teardown, and no
method goes through a null `conductor_`. -/
theorem reentrancy_safe {c : State} {steps : List StackStep} {t : SpitfireRtc}
    (hrun : run SpitfireRtc.next { conductor := c } steps = some t)
    (hcourteous : Along SpitfireRtc.next Courteous { conductor := c } steps) :
    t.violation = none := by
  have hstart : Orderly { conductor := c } :=
    ⟨fun _ _ h => (by cases h), List.nodup_nil, fun _ _ _ h => (by cases h), rfl⟩
  exact (run_invariant_along orderly_next hstart hrun hcourteous).safe

private def openTwo : List StackStep :=
  [.call (.createDataChannel [97] {} true), .call (.createDataChannel [98] {} true)]

private def courteousRun : List StackStep :=
  openTwo ++ [.call (.closeDataChannel [97]), .raise [97], .call (.getDataChannelInfo [97]),
    .call (.closeDataChannel [98]), .raise [98], .handlerReturns, .channelClosed, .handlerReturns,
    .channelClosed, .call (.createDataChannel [99] {} true), .dispose, .raise [99], .handlerReturns,
    .connectionClosed [[99]], .raise [99], .handlerReturns, .elementClosed]

/-- Handlers that read a channel while it is being closed, close another one, and keep
quiet while the object is disposed. -/
theorem reentrancy_safe_courteousRun : ∃ t,
    run SpitfireRtc.next { conductor := .initialized } courteousRun = some t ∧
      t.stack = [] ∧ t.fault = none ∧ t.conductor.dataObservers.keys = [] ∧ t.violation = none := by
  have hrun : (run SpitfireRtc.next { conductor := .initialized } courteousRun).map
      (fun t => (t.stack, t.fault, t.conductor.dataObservers.keys)) = some ([], none, []) := by
    decide +kernel
  have hcourteous : Along SpitfireRtc.next Courteous { conductor := .initialized } courteousRun := by
    decide +kernel
  obtain ⟨t, ht, hfields⟩ := Option.map_eq_some_iff.mp hrun
  obtain ⟨hstack, hfault, hkeys⟩ : t.stack = [] ∧ t.fault = none ∧
      t.conductor.dataObservers.keys = [] := by simpa using hfields
  exact ⟨t, ht, hstack, hfault, hkeys, reentrancy_safe ht hcourteous⟩

/-- A handler that closes the channel whose closing has called it, one that asks for a
channel while the object is disposed, and one that closes a channel under the loop of the
teardown. -/
theorem reentrancy_violations :
    (run SpitfireRtc.next { conductor := .initialized } (openTwo ++
      [.call (.closeDataChannel [97]), .raise [97], .call (.closeDataChannel [97]), .channelClosed,
        .handlerReturns, .channelClosed])).map SpitfireRtc.violation =
      some (some (.usedAfterErase [97])) ∧
    (run SpitfireRtc.next { conductor := .initialized } (openTwo ++
      [.dispose, .raise [97], .call (.getDataChannelInfo [97])])).map SpitfireRtc.violation =
      some (some .nullConductor) ∧
    (run SpitfireRtc.next { conductor := .initialized } (openTwo ++
      [.deletePeerConnection, .connectionClosed [[97], [98]], .raise [97],
        .call (.closeDataChannel [97]), .channelClosed])).map SpitfireRtc.violation =
      some (some (.changedWhileIterating [97])) := by
  decide +kernel

end Spitfire.Conductor
