import Mathlib.Data.Fintype.EquivFin
import Spitfire.Conductor.Callbacks
import Spitfire.Conductor.TeardownCompleteness

/-! What becomes of channels that share a label. The map is asked only whether a label is
taken, not whether the channel that took it is still open, and a channel that comes too
late is neither kept nor closed. -/
namespace Spitfire.Conductor
open Transition

/-- Some label of the map holds this channel. -/
def InMap (s : State) (c : Nat) : Prop := ∃ l ch, Holds s l ch ∧ ch.id = c

variable {labelOf : Nat → Label} {s t : State}

theorem inMap_congr (h : t.dataObservers = s.dataObservers) (c : Nat) : InMap t c ↔ InMap s c := by
  simp only [InMap, Holds, h]

/-- A channel in the map is found under its label. -/
theorem Observing.inMap (h : Observing labelOf s) {ch : Channel} (hlabel : labelOf ch.id = ch.label)
    (hc : InMap s ch.id) : Holds s ch.label ch := by
  obtain ⟨l, ch', hholds, hid⟩ := hc
  obtain ⟨hl, hlabel'⟩ := h.holds hholds
  obtain rfl : ch' = ch := Channel.ext hid (by rw [hl, ← hlabel', hid, hlabel])
  rw [hl]
  exact hholds

/-- Channels are closed exactly when they leave the map, and join it only when they are
supplied. -/
structure Accounts (s : State) (op : Operation) (t : State) (es : List Event) : Prop where
  log : t.log = s.log ++ es
  closed : ∀ c, .close c ∈ es ↔ InMap s c ∧ ¬ InMap t c
  inserted : ∀ c, .inserted c ∈ es ↔ ¬ InMap s c ∧ InMap t c
  supplied : ∀ c, ¬ InMap s c → InMap t c → ∃ ch, op.supplied = some ch ∧ ch.id = c

theorem Quiet.accounts (h : Quiet s t) (op : Operation) : ∃ es, Accounts s op t es := by
  obtain ⟨hmap, es, hlog, hes⟩ := h
  have hnone {e : Event} {c : Nat} (he : e.concerns c = true) : e ∉ es := by
    intro hmem
    rw [hes e hmem c] at he
    cases he
  refine ⟨es, hlog, ?_, ?_, ?_⟩
  · intro c
    simp [inMap_congr hmap, hnone (e := .close c) (c := c) (by simp [Event.concerns])]
  · intro c
    simp [inMap_congr hmap, hnone (e := .inserted c) (c := c) (by simp [Event.concerns])]
  · intro c hs ht
    exact (hs ((inMap_congr hmap c).mp ht)).elim

/-- What comes after a step that leaves the channels alone accounts for both. -/
theorem Quiet.accounts_trans {s' : State} {op : Operation} (hquiet : Quiet s s')
    (h : ∃ es, Accounts s' op t es) : ∃ es, Accounts s op t es := by
  obtain ⟨es, hbefore⟩ := hquiet.accounts op
  obtain ⟨es', hafter⟩ := h
  have hmap := inMap_congr hquiet.1
  refine ⟨es ++ es', ?_, ?_, ?_, ?_⟩
  · rw [hafter.log, hbefore.log, List.append_assoc]
  · intro c
    rw [List.mem_append, hbefore.closed, hafter.closed, hmap]
    simp
  · intro c
    rw [List.mem_append, hbefore.inserted, hafter.inserted, hmap]
    simp
  · intro c hs ht
    exact hafter.supplied c ((hmap c).not.mpr hs) ht

theorem inMap_handleDataChannel {ch : Channel} (hfree : s.dataObservers.lookup ch.label = none)
    (hrun : handleDataChannel ch s = .ok t) (c : Nat) : InMap t c ↔ InMap s c ∨ c = ch.id := by
  constructor
  · rintro ⟨l, ch', ⟨o, ho, hch⟩, rfl⟩
    rw [handleDataChannel_lookup hrun] at ho
    split at ho
    · obtain rfl := Option.some.inj ho
      cases hch
      exact Or.inr rfl
    · exact Or.inl ⟨l, ch', ⟨o, ho, hch⟩, rfl⟩
  · rintro (⟨l, ch', ⟨o, ho, hch⟩, rfl⟩ | rfl)
    · refine ⟨l, ch', ⟨o, ?_, hch⟩, rfl⟩
      rw [handleDataChannel_lookup hrun, if_neg, ho]
      exact fun hnew => Holds.not_free ⟨o, ho, hch⟩ hnew.2
    · exact ⟨ch.label, ch, ⟨⟨some ch, true⟩, by
        rw [handleDataChannel_lookup hrun, if_pos ⟨rfl, hfree⟩], rfl⟩, rfl⟩

theorem accounts_joins (h : Observing labelOf s) {op : Operation} {ch : Channel}
    (hop : op.supplied = some ch) (hlabel : labelOf ch.id = ch.label)
    (hrun : handleDataChannel ch s = .ok t) : ∃ es, Accounts s op t es := by
  by_cases hfree : s.dataObservers.lookup ch.label = none
  · have hmap := inMap_handleDataChannel hfree hrun
    have hnew : ¬ InMap s ch.id := fun hc => (h.inMap hlabel hc).not_free hfree
    have hlog : t.log = s.log ++ [.registerObserver ch.id, .inserted ch.id] := by
      rw [handleDataChannel, if_pos hfree] at hrun
      cases hrun
      simp [State.assign, State.record, hfree, DataChannelObserver.insertion]
    refine ⟨_, hlog, ?_, ?_, ?_⟩
    · intro c
      simp only [List.mem_cons, reduceCtorEq, List.not_mem_nil, or_self, false_iff]
      rintro ⟨hs, ht⟩
      exact ht ((hmap c).mpr (Or.inl hs))
    · intro c
      simp only [List.mem_cons, reduceCtorEq, false_or, List.not_mem_nil, or_false,
        Event.inserted.injEq, hmap]
      constructor
      · rintro rfl
        exact ⟨hnew, Or.inr rfl⟩
      · rintro ⟨hs, ht⟩
        exact ht.resolve_left hs
    · intro c hs ht
      exact ⟨ch, hop, (((hmap c).mp ht).resolve_left hs).symm⟩
  · rw [handleDataChannel, if_neg hfree] at hrun
    cases hrun
    exact (Quiet.refl s).accounts op

theorem inMap_closeDataChannel (h : Observing labelOf s) {l : Label} {ch : Channel}
    (hl : Holds s l ch) (hrun : closeDataChannel l s = .ok t) (c : Nat) :
    InMap t c ↔ InMap s c ∧ c ≠ ch.id := by
  constructor
  · rintro ⟨l', ch', ⟨o, ho, hch⟩, rfl⟩
    rw [closeDataChannel_lookup hrun] at ho
    split at ho
    · cases ho
    · rename_i hne
      refine ⟨⟨l', ch', ⟨o, ho, hch⟩, rfl⟩, ?_⟩
      intro hid
      apply hne
      rw [← (h.holds ⟨o, ho, hch⟩).2, hid, (h.holds hl).2]
  · rintro ⟨⟨l', ch', ⟨o, ho, hch⟩, rfl⟩, hne⟩
    refine ⟨l', ch', ⟨o, ?_, hch⟩, rfl⟩
    rw [closeDataChannel_lookup hrun, if_neg, ho]
    rintro rfl
    obtain ⟨o', ho', hch'⟩ := hl
    obtain rfl := Option.some.inj (ho.symm.trans ho')
    obtain rfl := Option.some.inj (hch.symm.trans hch')
    exact hne rfl

theorem accounts_leaves (h : Observing labelOf s) (op : Operation) {l : Label}
    (hrun : closeDataChannel l s = .ok t) : ∃ es, Accounts s op t es := by
  cases ho : s.dataObservers.lookup l with
  | none =>
    rw [closeDataChannel, ho] at hrun
    cases hrun
    exact (Quiet.refl s).accounts op
  | some o =>
    obtain ⟨_, ch, hch, _⟩ := h l o ho
    have hmap := inMap_closeDataChannel h ⟨o, ho, hch⟩ hrun
    obtain ⟨t', hrun', hlog⟩ := closeDataChannel_of_lookup ho hch
    obtain rfl := Except.ok.inj (hrun.symm.trans hrun')
    have hin : InMap s ch.id := ⟨l, ch, ⟨o, ho, hch⟩, rfl⟩
    refine ⟨_, hlog, ?_, ?_, ?_⟩
    · intro c
      simp only [List.mem_cons, Event.close.injEq, reduceCtorEq, List.not_mem_nil, or_false, hmap]
      constructor
      · rintro rfl
        exact ⟨hin, fun hout => hout.2 rfl⟩
      · rintro ⟨hs, ht⟩
        by_contra hne
        exact ht ⟨hs, hne⟩
    · intro c
      simp only [List.mem_cons, reduceCtorEq, List.not_mem_nil, or_self, false_iff]
      rintro ⟨hs, ht⟩
      exact hs ((hmap c).mp ht).1
    · intro c hs ht
      exact (hs ((hmap c).mp ht).1).elim

theorem accounts_torn (h : Observing labelOf s) (op : Operation) {order : List Label}
    (horder : order.Perm s.dataObservers.keys) (hrun : deletePeerConnection order s = .ok t) :
    ∃ es, Accounts s op t es := by
  obtain ⟨t', hrun', _, es, hlog, howed, _⟩ := h.tornDown horder
  obtain rfl := Except.ok.inj (hrun.symm.trans hrun')
  have hempty (c : Nat) : ¬ InMap t c := by
    rintro ⟨l, ch, ⟨o, ho, _⟩, _⟩
    rw [deletePeerConnection_empty hrun, AList.lookup_empty] at ho
    cases ho
  refine ⟨es, hlog, ?_, ?_, ?_⟩
  · intro c
    have hclose : .close c ∈ es ↔ InMap s c := howed (.close c)
    rw [hclose]
    simp [hempty]
  · intro c
    have hinsert : .inserted c ∉ es := fun hmem => (howed (.inserted c)).mp hmem
    simp [hempty, hinsert]
  · intro c _ ht
    exact (hempty c ht).elim

theorem accounts_next {view : Channel → ChannelView} {op : Operation} (h : Observing labelOf s)
    (hnext : op.next labelOf view s = some t) : ∃ es, Accounts s op t es := by
  cases change_of_next hnext with
  | quiet hquiet => exact hquiet.accounts op
  | joins hquiet hop hlabel hrun =>
    exact hquiet.accounts_trans (accounts_joins (h.congr hquiet.1) hop hlabel hrun)
  | leaves hrun => exact accounts_leaves h op hrun
  | torn hquiet horder hrun =>
    exact hquiet.accounts_trans (accounts_torn (h.congr hquiet.1) op horder hrun)

/-- A conductor with the channels that were ever supplied to it, those among them that the
peer announced, and those that have reported that they are closed. -/
structure Traffic where
  conductor : State := .constructed
  supplied : List Nat := []
  announced : List Channel := []
  closed : List Nat := []

inductive TrafficStep where
  | operation (op : Operation)
  | stateChange (channel : Nat) (state : DataState)
  deriving DecidableEq, Repr

def TrafficStep.announces : TrafficStep → Option Channel
  | operation (.channel (.handleDataChannel ch)) => some ch
  | _ => none

section
variable (labelOf) (view : Channel → ChannelView)

/-- Every channel is supplied once. A change of state is passed on to the application and
changes nothing here. -/
def Traffic.next (t : Traffic) (a : TrafficStep) : Option Traffic :=
  match a with
  | .operation op =>
    if ∀ ch ∈ op.supplied, ch.id ∉ t.supplied then
      (op.next labelOf view t.conductor).map fun c =>
        { t with
          conductor := c
          supplied := t.supplied ++ op.supplied.toList.map Channel.id
          announced := t.announced ++ a.announces.toList }
    else none
  | .stateChange c state =>
    some { t with closed := if state = .closed then t.closed ++ [c] else t.closed }

/-- Every channel that was registered under the label has reported that it is closed. -/
def Traffic.AllClosed (t : Traffic) (l : Label) : Prop :=
  ∀ c, .inserted c ∈ t.conductor.log → labelOf c = l → c ∈ t.closed

/-- Every channel that was registered under the label has been closed from this side. -/
def Traffic.AllReleased (t : Traffic) (l : Label) : Prop :=
  ∀ c, .inserted c ∈ t.conductor.log → labelOf c = l → .close c ∈ t.conductor.log

end

/-- A new channel of this label is registered, whichever side it comes from, and the label
then selects it. -/
def Traffic.Reusable (t : Traffic) (l : Label) : Prop :=
  ∀ ch : Channel, ch.label = l → ch.id ∉ t.supplied →
    (∀ n config, t.conductor.peerObserver = some ⟨some n⟩ →
      ∃ u, createDataChannel l config (some ch) t.conductor = .ok ((), u) ∧ Selects u l ch) ∧
    ∃ u, handleDataChannel ch t.conductor = .ok u ∧ Selects u l ch

/-- The channel has a registered observer in the map or has been closed. -/
def Attended (s : State) (ch : Channel) : Prop :=
  (∃ o, s.dataObservers.lookup ch.label = some o ∧ o.dataChannel = some ch ∧
    o.registered = true) ∨ .close ch.id ∈ s.log

/-- The log tells which channels are in the map. -/
structure Chronicle (labelOf : Nat → Label) (t : Traffic) : Prop where
  observing : Observing labelOf t.conductor
  inMap : ∀ c, InMap t.conductor c ↔ .inserted c ∈ t.conductor.log ∧ .close c ∉ t.conductor.log
  closed : ∀ c, .close c ∈ t.conductor.log → .inserted c ∈ t.conductor.log
  known : ∀ c, .inserted c ∈ t.conductor.log → c ∈ t.supplied
  announced : ∀ ch ∈ t.announced, ch.id ∈ t.supplied ∧ labelOf ch.id = ch.label

theorem chronicle_empty : Chronicle labelOf {} := by
  refine ⟨observing_empty rfl, ?_, ?_, ?_, ?_⟩
  · intro c
    constructor
    · rintro ⟨l, ch, ⟨o, ho, _⟩, _⟩
      cases (AList.lookup_empty l).symm.trans ho
    · rintro ⟨hinserted, _⟩
      cases hinserted
  · intro c hc
    cases hc
  · intro c hc
    cases hc
  · intro ch hch
    cases hch

/-- The step as a rule. -/
theorem Traffic.next_operation {view : Channel → ChannelView} {t u : Traffic} {op : Operation}
    (hnext : t.next labelOf view (.operation op) = some u) :
    (∀ ch, op.supplied = some ch → ch.id ∉ t.supplied) ∧
      ∃ c, op.next labelOf view t.conductor = some c ∧ u = { t with
        conductor := c
        supplied := t.supplied ++ op.supplied.toList.map Channel.id
        announced := t.announced ++ (TrafficStep.announces (.operation op)).toList } := by
  dsimp only [Traffic.next] at hnext
  split at hnext
  · rename_i hnew
    obtain ⟨c, hc, rfl⟩ := Option.map_eq_some_iff.mp hnext
    exact ⟨fun ch hch => hnew ch hch, c, hc, rfl⟩
  · cases hnext

/-- A channel that is announced is supplied under its own label. -/
theorem announces_supplied {view : Channel → ChannelView} {op : Operation} {ch : Channel}
    (hnext : op.next labelOf view s = some t)
    (ha : TrafficStep.announces (.operation op) = some ch) :
    op = .channel (.handleDataChannel ch) ∧ labelOf ch.id = ch.label := by
  obtain ⟨hop, _⟩ := (Operation.next_eq_some labelOf).mp hnext
  unfold TrafficStep.announces at ha
  split at ha
  · rename_i ch' hstep
    cases hstep
    cases ha
    exact ⟨rfl, hop⟩
  · cases ha

theorem chronicle_next (view : Channel → ChannelView) (t : Traffic) (a : TrafficStep) (u : Traffic)
    (h : Chronicle labelOf t) (hnext : t.next labelOf view a = some u) : Chronicle labelOf u := by
  cases a with
  | stateChange c state =>
    cases hnext
    exact ⟨h.observing, h.inMap, h.closed, h.known, h.announced⟩
  | operation op =>
    obtain ⟨hnew, c, hc, rfl⟩ := Traffic.next_operation hnext
    obtain ⟨es, haccounts⟩ := accounts_next h.observing hc
    have hmem (e : Event) : e ∈ c.log ↔ e ∈ t.conductor.log ∨ e ∈ es := by
      rw [haccounts.log, List.mem_append]
    -- What joins the map is new, and so nothing is on record for it.
    have hfresh {d : Nat} (hs : ¬ InMap t.conductor d) (ht : InMap c d) :
        .inserted d ∉ t.conductor.log ∧ d ∈ op.supplied.toList.map Channel.id := by
      obtain ⟨ch, hch, rfl⟩ := haccounts.supplied d hs ht
      exact ⟨fun hinserted => hnew ch hch (h.known _ hinserted), by simp [hch]⟩
    refine ⟨observing_next view _ op _ h.observing hc, ?_, ?_, ?_, ?_⟩
    · intro d
      rw [hmem, hmem, haccounts.closed, haccounts.inserted]
      by_cases hs : InMap t.conductor d
      · have hlife := (h.inMap d).mp hs
        simp [hs, hlife]
      · by_cases ht : InMap c d
        · have hunclosed : .close d ∉ t.conductor.log :=
            fun hclose => (hfresh hs ht).1 (h.closed d hclose)
          simp [hs, ht, hunclosed]
        · have hgone : .inserted d ∈ t.conductor.log → .close d ∈ t.conductor.log := by
            intro hinserted
            by_contra hclose
            exact hs ((h.inMap d).mpr ⟨hinserted, hclose⟩)
          simpa [hs, ht] using hgone
    · intro d hclose
      rw [hmem] at hclose ⊢
      rcases hclose with hclose | hclose
      · exact Or.inl (h.closed d hclose)
      · exact Or.inl ((h.inMap d).mp ((haccounts.closed d).mp hclose).1).1
    · intro d hinserted
      rw [List.mem_append]
      rcases (hmem _).mp hinserted with hinserted | hinserted
      · exact Or.inl (h.known d hinserted)
      · obtain ⟨hs, ht⟩ := (haccounts.inserted d).mp hinserted
        exact Or.inr (hfresh hs ht).2
    · intro ch hch
      rw [List.mem_append]
      rcases List.mem_append.mp hch with hch | hch
      · obtain ⟨hsupplied, hlabel⟩ := h.announced ch hch
        exact ⟨Or.inl hsupplied, hlabel⟩
      · obtain ⟨rfl, hlabel⟩ := announces_supplied hc (Option.mem_toList.mp hch)
        exact ⟨Or.inr (by simp [Operation.supplied]), hlabel⟩

theorem Chronicle.free_iff {t : Traffic} (h : Chronicle labelOf t) (l : Label) :
    t.AllReleased labelOf l ↔ t.conductor.dataObservers.lookup l = none := by
  constructor
  · intro hreleased
    cases ho : t.conductor.dataObservers.lookup l with
    | none => rfl
    | some o =>
      obtain ⟨_, ch, hch, _, hlabel⟩ := h.observing l o ho
      obtain ⟨hinserted, hclose⟩ := (h.inMap ch.id).mp ⟨l, ch, ⟨o, ho, hch⟩, rfl⟩
      exact (hclose (hreleased ch.id hinserted hlabel)).elim
  · intro hfree c hinserted hlabel
    by_contra hclose
    obtain ⟨l', ch, hholds, rfl⟩ := (h.inMap c).mpr ⟨hinserted, hclose⟩
    obtain rfl : l' = l := (h.observing.holds hholds).2.symm.trans hlabel
    exact hholds.not_free hfree

/-- A new channel is turned away from a label that is taken. -/
theorem Chronicle.reusable_iff {t : Traffic} (h : Chronicle labelOf t) (l : Label) :
    t.Reusable l ↔ t.conductor.dataObservers.lookup l = none := by
  constructor
  · intro hreusable
    by_contra htaken
    obtain ⟨c, hc⟩ := Infinite.exists_notMem_finset t.supplied.toFinset
    obtain ⟨_, u, hrun, hselects⟩ := hreusable ⟨c, l⟩ rfl (by simpa using hc)
    rw [handleDataChannel, if_neg htaken] at hrun
    cases hrun
    obtain ⟨hinserted, _⟩ := (h.inMap c).mp ⟨l, ⟨c, l⟩, selects_iff_holds.mp hselects, rfl⟩
    exact hc (by simpa using h.known c hinserted)
  · rintro hfree ch rfl _
    have hhandle {s : State} (hfree : s.dataObservers.lookup ch.label = none) :
        ∃ u, handleDataChannel ch s = .ok u ∧ Selects u ch.label ch := by
      refine ⟨_, by rw [handleDataChannel, if_pos hfree]; rfl, ?_⟩
      exact selects_of_holds ⟨_, AList.lookup_insert _, rfl⟩
    refine ⟨?_, hhandle hfree⟩
    intro n config hn
    have hobserver : t.conductor.peerObserver.isSome = true := by
      rw [hn]
      rfl
    have hasks : t.conductor.Asks ch.label := ⟨by rw [hn]; rfl, hfree⟩
    obtain ⟨u, hrun, hselects⟩ := hhandle
      (s := t.conductor.record [.createDataChannel ch.label config]) hfree
    have hcreate :
        Prod.snd <$> createDataChannel ch.label config (some ch) t.conductor = .ok u := by
      rw [createDataChannel_eq hobserver _ _ _ (by simp), if_pos hasks]
      exact hrun
    obtain ⟨⟨_, u'⟩, hcreated, rfl⟩ := map_eq_ok.mp hcreate
    exact ⟨u', hcreated, hselects⟩

/-- A label whose channels have all closed can be used again exactly if each of them was
also closed from this side: what the channels themselves report frees no label. -/
theorem label_reusable_iff (view : Channel → ChannelView) {steps : List TrafficStep} {t : Traffic}
    (hrun : run (Traffic.next labelOf view) {} steps = some t) (l : Label) :
    (t.AllClosed labelOf l → t.Reusable l) ↔ (t.AllClosed labelOf l → t.AllReleased labelOf l) := by
  have ht : Chronicle labelOf t := run_invariant (chronicle_next view) chronicle_empty hrun
  rw [ht.reusable_iff, ht.free_iff]

private def openAndReport : List TrafficStep :=
  [.operation (.initializePeerConnection .succeeds []),
    .operation (.channel (.createDataChannel [97] {} (some ⟨0, [97]⟩))), .stateChange 0 .closed]

/-- A channel that has reported its end is also closed here, and its label is free. -/
theorem label_reusable_after_close : ∃ t,
    run (Traffic.next (fun _ => [97]) (fun _ => .ofState .opened)) {}
      (openAndReport ++ [.operation (.channel (.closeDataChannel [97]))]) = some t ∧
      t.AllClosed (fun _ => [97]) [97] ∧ t.Reusable [97] := by
  obtain ⟨t, hrun, hlog, hclosed⟩ : ∃ t,
      run (Traffic.next (fun _ => [97]) (fun _ => .ofState .opened)) {}
        (openAndReport ++ [.operation (.channel (.closeDataChannel [97]))]) = some t ∧
      t.conductor.log = [.createPeerConnection [], .createDataChannel [97] {},
        .registerObserver 0, .inserted 0, .close 0, .unregisterObserver 0, .removed 0 false] ∧
      t.closed = [0] := ⟨_, rfl, rfl, rfl⟩
  have hall : t.AllClosed (fun _ => [97]) [97] := by
    intro c hc _
    simpa [hlog, hclosed] using hc
  refine ⟨t, hrun, hall, (label_reusable_iff (fun _ => .ofState .opened) hrun [97]).mpr ?_ hall⟩
  intro _ c hc _
  simpa [hlog] using hc

/-- Without that, a new channel is turned away on both ways in, and the label still selects
the channel that has closed. -/
theorem closed_channel_keeps_label : ∃ t,
    run (Traffic.next (fun _ => [97]) (fun _ => .ofState .opened)) {} openAndReport = some t ∧
      t.AllClosed (fun _ => [97]) [97] ∧
      createDataChannel [97] {} (some ⟨1, [97]⟩) t.conductor = .ok ((), t.conductor) ∧
      handleDataChannel ⟨1, [97]⟩ t.conductor = .ok t.conductor ∧
      Selects t.conductor [97] ⟨0, [97]⟩ ∧ ¬ Selects t.conductor [97] ⟨1, [97]⟩ := by
  obtain ⟨t, hrun, hlog, hclosed, hcreate, hhandle, ho⟩ : ∃ t,
      run (Traffic.next (fun _ => [97]) (fun _ => .ofState .opened)) {} openAndReport = some t ∧
      t.conductor.log = [.createPeerConnection [], .createDataChannel [97] {},
        .registerObserver 0, .inserted 0] ∧ t.closed = [0] ∧
      createDataChannel [97] {} (some ⟨1, [97]⟩) t.conductor = .ok ((), t.conductor) ∧
      handleDataChannel ⟨1, [97]⟩ t.conductor = .ok t.conductor ∧
      t.conductor.dataObservers.lookup [97] = some ⟨some ⟨0, [97]⟩, true⟩ :=
    ⟨_, rfl, rfl, rfl, rfl, rfl, rfl⟩
  refine ⟨t, hrun, ?_, hcreate, hhandle, selects_of_holds ⟨_, ho, rfl⟩, ?_⟩
  · intro c hc _
    simpa [hlog, hclosed] using hc
  · intro hselects
    obtain ⟨o, ho', hch⟩ := selects_iff_holds.mp hselects
    obtain rfl := Option.some.inj (ho.symm.trans ho')
    cases hch

/-- An announced channel is attended exactly if it has ever joined the map. -/
theorem Chronicle.attended_iff {t : Traffic} (h : Chronicle labelOf t) {ch : Channel}
    (hch : ch ∈ t.announced) : Attended t.conductor ch ↔ .inserted ch.id ∈ t.conductor.log := by
  constructor
  · rintro (⟨o, ho, hch, _⟩ | hclose)
    · exact ((h.inMap ch.id).mp ⟨ch.label, ch, ⟨o, ho, hch⟩, rfl⟩).1
    · exact h.closed ch.id hclose
  · intro hinserted
    by_cases hclose : .close ch.id ∈ t.conductor.log
    · exact Or.inr hclose
    · left
      have hin := (h.inMap ch.id).mpr ⟨hinserted, hclose⟩
      obtain ⟨o, ho, hchannel⟩ := h.observing.inMap (h.announced ch hch).2 hin
      exact ⟨o, ho, hchannel, (h.observing _ o ho).1⟩

/-- Nobody has the label of the channel that is announced. -/
def LabelFree (t : Traffic) (a : TrafficStep) : Prop :=
  ∀ ch ∈ a.announces, t.conductor.dataObservers.lookup ch.label = none

instance (t : Traffic) (a : TrafficStep) : Decidable (LabelFree t a) :=
  inferInstanceAs (Decidable (∀ ch ∈ a.announces, _))

/-- Some announced channel never joined the map. -/
def Ignored (labelOf : Nat → Label) (t : Traffic) : Prop :=
  Chronicle labelOf t ∧ ∃ ch ∈ t.announced, .inserted ch.id ∉ t.conductor.log

section
variable {view : Channel → ChannelView} {t u : Traffic} {a : TrafficStep}

/-- What has joined the map stays on record. -/
theorem inserted_mono (h : Chronicle labelOf t) (hnext : t.next labelOf view a = some u) {c : Nat}
    (hc : .inserted c ∈ t.conductor.log) : .inserted c ∈ u.conductor.log := by
  cases a with
  | stateChange c state =>
    cases hnext
    exact hc
  | operation op =>
    obtain ⟨_, c, hrun, rfl⟩ := Traffic.next_operation hnext
    obtain ⟨es, haccounts⟩ := accounts_next h.observing hrun
    rw [haccounts.log]
    exact List.mem_append_left es hc

/-- The announced channels after a step, and how the conductor handles a new one. -/
theorem announced_next (hnext : t.next labelOf view a = some u) :
    u.announced = t.announced ++ a.announces.toList ∧
      ∀ ch, a.announces = some ch → ch.id ∉ t.supplied ∧
        handleDataChannel ch t.conductor = .ok u.conductor := by
  cases a with
  | stateChange c state =>
    cases hnext
    exact ⟨by simp [TrafficStep.announces], by simp [TrafficStep.announces]⟩
  | operation op =>
    obtain ⟨hnew, c, hrun, rfl⟩ := Traffic.next_operation hnext
    refine ⟨rfl, ?_⟩
    intro ch hch
    obtain ⟨rfl, _⟩ := announces_supplied hrun hch
    exact ⟨hnew ch rfl, ((Operation.next_eq_some labelOf).mp hrun).2⟩

theorem registered_of_labelFree (h : Chronicle labelOf t)
    (hall : ∀ ch ∈ t.announced, .inserted ch.id ∈ t.conductor.log) (hfree : LabelFree t a)
    (hnext : t.next labelOf view a = some u) :
    ∀ ch ∈ u.announced, .inserted ch.id ∈ u.conductor.log := by
  obtain ⟨hannounced, hhandle⟩ := announced_next hnext
  intro ch hch
  rw [hannounced, List.mem_append] at hch
  rcases hch with hch | hch
  · exact inserted_mono h hnext (hall ch hch)
  · have ha := Option.mem_toList.mp hch
    have hin := inMap_handleDataChannel (hfree ch ha) (hhandle ch ha).2 ch.id
    exact (((chronicle_next view t a u h hnext).inMap ch.id).mp (hin.mpr (Or.inr rfl))).1

theorem ignored_of_taken (h : Chronicle labelOf t) (htaken : ¬ LabelFree t a)
    (hnext : t.next labelOf view a = some u) : Ignored labelOf u := by
  obtain ⟨hannounced, hhandle⟩ := announced_next hnext
  obtain ⟨ch, ha, htaken⟩ : ∃ ch, a.announces = some ch ∧
      t.conductor.dataObservers.lookup ch.label ≠ none := by
    simpa [LabelFree] using htaken
  obtain ⟨hnew, hrun⟩ := hhandle ch ha
  rw [handleDataChannel, if_neg htaken] at hrun
  refine ⟨chronicle_next view t a u h hnext, ch, by simp [hannounced, ha], ?_⟩
  intro hinserted
  rw [← Except.ok.inj hrun] at hinserted
  exact hnew (h.known ch.id hinserted)

theorem ignored_next (h : Ignored labelOf t) (hnext : t.next labelOf view a = some u) :
    Ignored labelOf u := by
  obtain ⟨hchronicle, ch, hch, hout⟩ := h
  refine ⟨chronicle_next view t a u hchronicle hnext, ch, ?_, ?_⟩
  · rw [(announced_next hnext).1]
    exact List.mem_append_left _ hch
  · cases a with
    | stateChange c state =>
      cases hnext
      exact hout
    | operation op =>
      obtain ⟨hnew, c, hrun, rfl⟩ := Traffic.next_operation hnext
      obtain ⟨es, haccounts⟩ := accounts_next hchronicle.observing hrun
      rw [haccounts.log, List.mem_append, not_or]
      refine ⟨hout, ?_⟩
      intro hinserted
      -- Only a channel that has not been supplied before can join the map.
      obtain ⟨hs, ht⟩ := (haccounts.inserted ch.id).mp hinserted
      obtain ⟨ch', hch', hid⟩ := haccounts.supplied ch.id hs ht
      exact hnew ch' hch' (hid ▸ (hchronicle.announced ch hch).1)

end

/-- Every announced channel is in the map or closed, after its announcement and ever after,
exactly if no channel was announced under a label that was taken. -/
theorem announced_attended_iff (view : Channel → ChannelView) {steps : List TrafficStep}
    {t : Traffic} (hrun : run (Traffic.next labelOf view) {} steps = some t) :
    (∀ ch ∈ t.announced, Attended t.conductor ch) ↔
      Along (Traffic.next labelOf view) LabelFree {} steps := by
  have ht : Chronicle labelOf t := run_invariant (chronicle_next view) chronicle_empty hrun
  have hruined : ¬ Ignored labelOf t ↔ Along (Traffic.next labelOf view) LabelFree {} steps :=
    along_iff_not_ruined
      (I := fun t => Chronicle labelOf t ∧ ∀ ch ∈ t.announced, .inserted ch.id ∈ t.conductor.log)
      (fun t a u h hfree hnext => ⟨chronicle_next view t a u h.1 hnext,
        registered_of_labelFree h.1 h.2 hfree hnext⟩)
      (fun t a u h htaken hnext => ignored_of_taken h.1 htaken hnext)
      (fun t a u h hnext => ignored_next h hnext)
      (fun t h hignored => hignored.2.elim fun ch hch => hch.2 (h.2 ch hch.1))
      ⟨chronicle_empty, by simp⟩ hrun
  rw [← hruined]
  constructor
  · rintro hall ⟨_, ch, hch, hout⟩
    exact hout ((ht.attended_iff hch).mp (hall ch hch))
  · intro hnone ch hch
    rw [ht.attended_iff hch]
    by_contra hout
    exact hnone ⟨ht, ch, hch, hout⟩

/-- The peer opens two channels of one label. -/
private def announceTwice (between : List TrafficStep) : List TrafficStep :=
  .operation (.initializePeerConnection .succeeds []) ::
    .operation (.channel (.handleDataChannel ⟨0, [97]⟩)) ::
    (between ++ [.operation (.channel (.handleDataChannel ⟨1, [97]⟩))])

/-- The first is closed before the second comes. -/
theorem announced_attended_in_turn : ∃ t,
    run (Traffic.next (fun _ => [97]) (fun _ => .ofState .opened)) {}
      (announceTwice [.operation (.channel (.closeDataChannel [97]))]) = some t ∧
      t.announced = [⟨0, [97]⟩, ⟨1, [97]⟩] ∧ ∀ ch ∈ t.announced, Attended t.conductor ch := by
  obtain ⟨t, hrun, hannounced⟩ : ∃ t,
      run (Traffic.next (fun _ => [97]) (fun _ => .ofState .opened)) {}
        (announceTwice [.operation (.channel (.closeDataChannel [97]))]) = some t ∧
      t.announced = [⟨0, [97]⟩, ⟨1, [97]⟩] := ⟨_, rfl, rfl⟩
  exact ⟨t, hrun, hannounced,
    (announced_attended_iff (fun _ => .ofState .opened) hrun).mpr (by decide)⟩

/-- The first is still open, and the second is neither kept nor closed. -/
theorem second_announcement_ignored : ∃ t,
    run (Traffic.next (fun _ => [97]) (fun _ => .ofState .opened)) {} (announceTwice []) = some t ∧
      ⟨1, [97]⟩ ∈ t.announced ∧ ¬ Attended t.conductor ⟨1, [97]⟩ := by
  obtain ⟨t, hrun, hannounced, hlog, ho⟩ : ∃ t,
      run (Traffic.next (fun _ => [97]) (fun _ => .ofState .opened)) {}
        (announceTwice []) = some t ∧
      t.announced = [⟨0, [97]⟩, ⟨1, [97]⟩] ∧
      t.conductor.log = [.createPeerConnection [], .registerObserver 0, .inserted 0] ∧
      t.conductor.dataObservers.lookup [97] = some ⟨some ⟨0, [97]⟩, true⟩ :=
    ⟨_, rfl, rfl, rfl, rfl⟩
  refine ⟨t, hrun, by simp [hannounced], ?_⟩
  rintro (⟨o, ho', hch, _⟩ | hclose)
  · obtain rfl := Option.some.inj (ho.symm.trans ho')
    cases hch
  · simp [hlog] at hclose

end Spitfire.Conductor
