import Spitfire.Conductor.Dependencies
import Spitfire.Conductor.TeardownCompleteness

/-! When a connection keeps what it depends on: exactly as long as no initialization
starts while there is a connection. -/
namespace Spitfire.Conductor
open Transition

variable {view : Channel → ChannelView} {w v : World}

/-- What the connection was created with is what the conductor owns. -/
def Supported (w : World) (c : Connection) : Prop :=
  ∀ r, c.uses r = w.conductor.owned r ∧ (c.uses r).isSome = true

/-- There is no connection, or one that the conductor holds and supports. -/
def Carried (w : World) : Prop :=
  w.live = [] ∨ ∃ c, w.live = [c] ∧ connectionOf w.conductor.peerObserver = some c.id ∧ Supported w c

theorem dependable_of_none (h : w.live = []) : Dependable w := by
  simp [Dependable, h]

theorem dependable_of_supported {c : Connection} (h : w.live = [c]) (hc : Supported w c) :
    Dependable w := by
  refine ⟨by simp [h], ?_⟩
  intro c' hc' r
  obtain rfl : c' = c := by simpa [h] using hc'
  obtain ⟨howned, hsome⟩ := hc r
  obtain ⟨n, hn⟩ := Option.isSome_iff_exists.mp hsome
  refine ⟨n, hn, ?_⟩
  rw [hn] at howned
  cases r with
  | factory => exact Or.inl howned.symm
  | _ => exact howned.symm

theorem Carried.dependable (h : Carried w) : Dependable w := by
  rcases h with h | ⟨c, hc, _, hsupported⟩
  · exact dependable_of_none h
  · exact dependable_of_supported hc hsupported

/-- What every statement keeps holds in all states passed through and at the end. -/
theorem passed_keeps {J : World → Prop} {is : List Instruction}
    (hstep : ∀ i ∈ is, ∀ w v, J w → i.exec view w = .ok v → J v) (hw : J w) :
    (∀ v ∈ passed view is w, J v) ∧ ∀ v, execBody view is w = .ok v → J v := by
  induction is generalizing w with
  | nil =>
    refine ⟨by simp [passed], ?_⟩
    intro v hv
    cases hv
    exact hw
  | cons i is ih =>
    cases hexec : i.exec view w with
    | error f =>
      refine ⟨by simp [passed, hexec], ?_⟩
      intro v hv
      rw [execBody, List.foldlM_cons, hexec] at hv
      cases hv
    | ok u =>
      have hu : J u := hstep i (by simp) w u hw hexec
      obtain ⟨hall, hend⟩ := ih (fun j hj => hstep j (by simp [hj])) hu
      constructor
      · intro v hv
        rw [passed, hexec] at hv
        rcases List.mem_cons.mp hv with rfl | hv
        · exact hu
        · exact hall v hv
      · intro v hv
        rw [execBody, List.foldlM_cons, hexec] at hv
        exact hend v hv

theorem mem_passed_append {is js : List Instruction} : v ∈ passed view (is ++ js) w ↔
    v ∈ passed view is w ∨ ∃ u, execBody view is w = .ok u ∧ v ∈ passed view js u := by
  induction is generalizing w with
  | nil => simp [passed, execBody, pure, Except.pure]
  | cons i is ih =>
    cases hexec : i.exec view w with
    | error f => simp [passed, execBody, hexec, bind, Except.bind]
    | ok u =>
      have hbody : execBody view (i :: is) w = execBody view is u := by
        rw [execBody, List.foldlM_cons, hexec]
        rfl
      simp only [List.cons_append, passed, hexec, List.mem_cons, ih, hbody, or_assoc]

theorem mem_passed_single {i : Instruction} :
    v ∈ passed view [i] w ↔ i.exec view w = .ok v := by
  cases hexec : i.exec view w <;> simp [passed, hexec, eq_comm]

theorem execBody_single (i : Instruction) (w : World) :
    execBody view [i] w = i.exec view w := by
  change i.exec view w >>= pure = _
  cases i.exec view w <;> rfl

/-- The statement makes a connection. -/
def Instruction.connects : Instruction → Bool
  | .createConnection made => made
  | _ => false

/-- Without a connection, only one statement makes one. -/
theorem no_connection_exec {i : Instruction} (hi : i.connects = false) (w v : World)
    (hw : w.live = []) (hexec : i.exec view w = .ok v) : v.live = [] := by
  cases i with
  | createConnection made =>
    cases hi
    cases hexec
    simp [hw]
  | assignConnection =>
    dsimp only [Instruction.exec] at hexec
    split at hexec
    · cases hexec
    · cases hexec
      simp [hw]
  | teardown t =>
    obtain ⟨s, _, rfl⟩ := map_eq_ok.mp hexec
    simp [hw]
  | operation op =>
    obtain ⟨s, _, rfl⟩ := map_eq_ok.mp hexec
    exact hw
  | _ =>
    cases hexec
    exact hw

theorem no_connection_passed {is : List Instruction} (his : ∀ i ∈ is, i.connects = false)
    (hw : w.live = []) : (∀ v ∈ passed view is w, Dependable v) ∧
      ∀ v, execBody view is w = .ok v → v.live = [] := by
  obtain ⟨hall, hend⟩ := passed_keeps (J := fun w => w.live = [])
    (fun i hi w v => no_connection_exec (his i hi) w v) hw
  exact ⟨fun v hv => dependable_of_none (hall v hv), hend⟩

theorem teardown_connects (ts : List Teardown) : ∀ i ∈ ts.map Instruction.teardown,
    i.connects = false := by
  simp [Instruction.connects]

/-- The statements of the teardown up to the end of the connection. -/
private def closing : List Instruction :=
  [.teardown .closeConnection, .teardown .detachPeerObserver, .teardown .destroyPeerObserver]

private theorem teardown_split (order : List Label) : ∃ ts : List Teardown,
    (teardown order).map .teardown = closing ++ ts.map .teardown := by
  refine ⟨(teardown order).drop 3, ?_⟩
  rfl

private theorem closing_passed {c : Connection} (hlive : w.live = [c])
    (hholds : connectionOf w.conductor.peerObserver = some c.id) (hc : Supported w c) :
    (∀ v ∈ passed view closing w, Dependable v) ∧
      ∀ v, execBody view closing w = .ok v → v.live = [] := by
  have hgone : w.live.filter (fun c => connectionOf w.conductor.peerObserver ≠ some c.id) = [] := by
    simp [hlive, hholds]
  constructor
  · intro v hv
    simp only [closing, passed, Instruction.exec, Teardown.exec, Except.map, List.mem_cons,
      List.not_mem_nil, or_false] at hv
    rcases hv with rfl | rfl | rfl
    · exact dependable_of_supported hlive hc
    · exact dependable_of_supported hlive hc
    · exact dependable_of_none hgone
  · intro v hv
    cases hv
    exact hgone

/-- A connection is gone before anything that it depends on. -/
theorem teardown_passed (h : Carried w) (order : List Label) :
    (∀ v ∈ passed view ((teardown order).map .teardown) w, Dependable v) ∧
      ∀ v, execBody view ((teardown order).map .teardown) w = .ok v → v.live = [] := by
  rcases h with hnone | ⟨c, hlive, hholds, hc⟩
  · exact no_connection_passed (teardown_connects _) hnone
  · obtain ⟨ts, hts⟩ := teardown_split order
    obtain ⟨hall, hend⟩ := closing_passed hlive hholds hc
    rw [hts]
    constructor
    · intro v hv
      rcases mem_passed_append.mp hv with hv | ⟨u, hu, hv⟩
      · exact hall v hv
      · exact (no_connection_passed (teardown_connects ts) (hend u hu)).1 v hv
    · intro v hv
      rw [execBody_append, bind_eq_ok] at hv
      obtain ⟨u, hu, hv⟩ := hv
      exact (no_connection_passed (teardown_connects ts) (hend u hu)).2 v hv

/-- The connection and the resources are the same. -/
def SameHoldings (s t : State) : Prop :=
  t.peerObserver = s.peerObserver ∧ t.detached = s.detached ∧ t.fresh = s.fresh ∧ t.owned = s.owned

theorem SameHoldings.refl (s : State) : SameHoldings s s := ⟨rfl, rfl, rfl, rfl⟩

theorem sameHoldings_of_outside {s t : State} (h : SameOutsideChannels s t) : SameHoldings s t := by
  rw [SameOutsideChannels] at h
  rw [h]
  exact ⟨rfl, rfl, rfl, rfl⟩

theorem sameHoldings_of_aside {s t : State} (h : Aside s t) : SameHoldings s t := by
  rw [h.same]
  exact ⟨rfl, rfl, rfl, rfl⟩

theorem channel_sameHoldings {op : ChannelOperation} (hop : ∀ order, op ≠ .deletePeerConnection order)
    {s t : State} (hrun : op.exec view s = .ok t) : SameHoldings s t := by
  cases op with
  | createDataChannel l config channel =>
    refine withConnection_keeps (.refl s) ?_ hrun
    intro a u hu
    split at hu
    · cases channel with
      | none => cases hu
      | some ch =>
        cases hu
        exact ⟨rfl, rfl, rfl, rfl⟩
    · cases hu
      exact .refl s
  | handleDataChannel ch =>
    change handleDataChannel ch s = .ok t at hrun
    unfold handleDataChannel at hrun
    split at hrun
    · cases hrun
      exact ⟨rfl, rfl, rfl, rfl⟩
    · cases hrun
      exact .refl s
  | closeDataChannel l =>
    change closeDataChannel l s = .ok t at hrun
    unfold closeDataChannel at hrun
    split at hrun
    · cases hrun
      exact .refl s
    · obtain ⟨s₁, hunregister, herase⟩ := bind_eq_ok.mp hrun
      cases herase
      exact sameHoldings_of_outside ((unregisterEntry_outside hunregister).trans (erase_outside s₁ l))
  | sendToDataChannel l buffer =>
    obtain ⟨channel, _, hsend⟩ := bind_eq_ok.mp hrun
    cases channel with
    | none =>
      cases hsend
      exact .refl s
    | some ch =>
      cases hsend
      exact ⟨rfl, rfl, rfl, rfl⟩
  | getDataChannelInfo l =>
    obtain ⟨_, _, rfl⟩ := map_eq_ok.mp hrun
    exact .refl s
  | getDataChannelState l =>
    obtain ⟨_, _, rfl⟩ := map_eq_ok.mp hrun
    exact .refl s
  | deletePeerConnection order => exact (hop order rfl).elim

/-- An operation initializes, tears down, or is one statement that touches no resource. -/
theorem operation_cases (view : Channel → ChannelView) (op : Operation) :
    (∃ outcome order, op = .initializePeerConnection outcome order) ∨
    (∃ order, op = .channel (.deletePeerConnection order)) ∨
    (op.body = [.operation op] ∧ ∀ s t, op.exec view s = .ok t → SameHoldings s t) := by
  cases op with
  | initializePeerConnection outcome order => exact Or.inl ⟨outcome, order, rfl⟩
  | channel op =>
    right
    by_cases hop : ∃ order, op = .deletePeerConnection order
    · obtain ⟨order, rfl⟩ := hop
      exact Or.inl ⟨order, rfl⟩
    · have hop : ∀ order, op ≠ .deletePeerConnection order := by simpa using hop
      refine Or.inr ⟨?_, fun s t hrun => channel_sameHoldings hop hrun⟩
      cases op with
      | deletePeerConnection order => exact (hop order rfl).elim
      | _ => rfl
  | _ =>
    refine Or.inr (Or.inr ⟨rfl, fun s t hrun => ?_⟩)
    exact sameHoldings_of_aside (aside_exec hrun trivial)

/-- The state of an instance between two calls. -/
structure Grounded (w : World) : Prop where
  carried : Carried w
  unconnected : w.live = [] → connectionOf w.conductor.peerObserver = none
  detached : w.conductor.detached = none
  fresh : ∀ n, w.conductor.networkThread = some n → n < w.conductor.fresh
  disposed : w.attached = false → w.live = []

theorem grounded_constructed : Grounded {} := by
  refine ⟨Or.inl rfl, fun _ => rfl, rfl, ?_, fun _ => rfl⟩
  intro n hn
  cases hn

theorem grounded_of_cleared (hcleared : Cleared w.conductor) (hlive : w.live = []) : Grounded w := by
  refine ⟨Or.inl hlive, ?_, hcleared.detached, ?_, fun _ => hlive⟩
  · intro _
    rw [hcleared.peerObserver]
    rfl
  · intro n hn
    rw [hcleared.networkThread] at hn
    cases hn

theorem Grounded.sameHoldings (h : Grounded w) {t : State} (ht : SameHoldings w.conductor t) :
    Grounded { w with conductor := t } := by
  obtain ⟨hpeer, hdetached, hfresh, howned⟩ := ht
  refine ⟨?_, ?_, hdetached.trans h.detached, ?_, h.disposed⟩
  · rcases h.carried with hnone | ⟨c, hlive, hholds, hc⟩
    · exact Or.inl hnone
    · refine Or.inr ⟨c, hlive, ?_, ?_⟩
      · rw [← hholds, ← hpeer]
      · intro r
        exact ⟨(hc r).1.trans (congrFun howned r).symm, (hc r).2⟩
  · intro hlive
    rw [← h.unconnected hlive, ← hpeer]
  · intro n hn
    have hthread : t.networkThread = w.conductor.networkThread := congrFun howned .networkThread
    change n < t.fresh
    rw [hfresh]
    exact h.fresh n (hthread.symm.trans hn)

/-- Everything that a connection needs has been made. -/
def World.prepared (w : World) : World := (w.withFactory .succeeds).withManagers

theorem execBody_prepared (w : World) :
    execBody view (threadsAndFactory true ++ managers) w = .ok w.prepared :=
  execBody_made (by decide) w

/-- The connection that is then created. -/
def World.offspring (w : World) : Connection :=
  ⟨w.prepared.conductor.fresh, w.prepared.conductor.owned⟩

theorem supported_offspring (hv : v.conductor.owned = w.prepared.conductor.owned) :
    Supported v w.offspring := by
  intro r
  rw [hv]
  cases r <;> exact ⟨rfl, rfl⟩

/-- The new connection is supported, before the conductor holds it and after. -/
theorem connection_passed (hlive : w.live = []) :
    ∀ v ∈ passed view [.createConnection true, .assignConnection] w.prepared, Dependable v := by
  have hcreated : w.prepared.live ++ [w.offspring] = [w.offspring] := by
    rw [show w.prepared.live = w.live from rfl, hlive, List.nil_append]
  intro v hv
  rcases List.mem_cons.mp hv with rfl | hv
  · exact dependable_of_supported hcreated (supported_offspring rfl)
  · have hassign := mem_passed_single.mp hv
    have hbody : execBody view [.createConnection true, .assignConnection] w.prepared = .ok v :=
      bind_eq_ok.mpr ⟨_, rfl, bind_eq_ok.mpr ⟨v, hassign, rfl⟩⟩
    rw [execBody_connection] at hbody
    split at hbody
    · cases hbody
    · rename_i o _
      cases hbody
      have hlive : (w.prepared.connected true o).live =
          [w.offspring].filter fun c => o.peerConnection ≠ some c.id := by
        rw [← hcreated]
        rfl
      by_cases hkept : o.peerConnection ≠ some w.offspring.id
      · exact dependable_of_supported (hlive.trans (by simp [hkept])) (supported_offspring rfl)
      · exact dependable_of_none (hlive.trans (by simpa using hkept))

theorem initialization_passed (hlive : w.live = [])
    (outcome : Outcome) (order : List Label) :
    ∀ v ∈ passed view (initialization outcome order) w, Dependable v := by
  have hquiet (outcome : Outcome) (houtcome : outcome ≠ .succeeds) :
      ∀ i ∈ initialization outcome order, i.connects = false := by
    intro i hi
    cases outcome with
    | succeeds => exact (houtcome rfl).elim
    | factoryFails =>
      have hfirst : ∀ i ∈ threadsAndFactory false, i.connects = false := by decide
      exact (List.mem_append.mp hi).elim (hfirst i) (teardown_connects _ i)
    | connectionFails =>
      have hfirst : ∀ i ∈ threadsAndFactory true ++ managers ++
          [.createConnection false, .assignConnection], i.connects = false := by decide
      exact (List.mem_append.mp hi).elim (hfirst i) (teardown_connects _ i)
  cases outcome with
  | factoryFails => exact (no_connection_passed (hquiet _ (by decide)) hlive).1
  | connectionFails => exact (no_connection_passed (hquiet _ (by decide)) hlive).1
  | succeeds =>
    intro v hv
    rcases mem_passed_append.mp hv with hv | ⟨u, hu, hv⟩
    · exact (no_connection_passed (by decide) hlive).1 v hv
    · rw [execBody_prepared] at hu
      cases hu
      exact connection_passed hlive v hv

/-- The new network thread takes the place of the one that the connection uses. -/
theorem initialization_breaks (h : Grounded w) (hlive : w.live ≠ []) (outcome : Outcome)
    (order : List Label) : ∃ v ∈ passed view (initialization outcome order) w, ¬ Dependable v := by
  obtain ⟨c, hc, _, hsupported⟩ := h.carried.resolve_left hlive
  obtain ⟨v, hv, hsame, hthread⟩ : ∃ v ∈ passed view (initialization outcome order) w,
      v.live = w.live ∧ v.conductor.networkThread = some w.conductor.fresh := by
    cases outcome <;> exact ⟨_, List.mem_cons_of_mem _ List.mem_cons_self, rfl, rfl⟩
  refine ⟨v, hv, ?_⟩
  rintro ⟨_, hall⟩
  obtain ⟨n, hn, halive⟩ := hall c (by simp [hsame, hc]) .networkThread
  have howned : w.conductor.networkThread = some n := (hsupported .networkThread).1.symm.trans hn
  have hnew : some w.conductor.fresh = some n := hthread.symm.trans halive
  have hlt := h.fresh n howned
  rw [Option.some.inj hnew] at hlt
  exact Nat.lt_irrefl n hlt

theorem cleared_of_teardown {order : List Label}
    (h : execBody view ((teardown order).map .teardown) w = .ok v) : Cleared v.conductor := by
  have hconductor : (execBody view ((teardown order).map .teardown) w).map World.conductor =
      deletePeerConnection order w.conductor := execBody_teardown _ w
  rw [h] at hconductor
  exact deletePeerConnection_cleared hconductor.symm

theorem grounded_teardown (h : Carried w) {order : List Label}
    (hrun : execBody view ((teardown order).map .teardown) w = .ok v) : Grounded v :=
  grounded_of_cleared (cleared_of_teardown hrun) ((teardown_passed h order).2 v hrun)

theorem grounded_initialization (h : Grounded w) (hattached : w.attached = true)
    (hlive : w.live = []) {outcome : Outcome} {order : List Label}
    (hrun : execBody view (initialization outcome order) w = .ok v) : Grounded v := by
  have hfails {first : List Instruction} (hfirst : ∀ i ∈ first, i.connects = false)
      (hrun : execBody view (first ++ (teardown order).map .teardown) w = .ok v) : Grounded v := by
    rw [execBody_append, bind_eq_ok] at hrun
    obtain ⟨u, hu, hrun⟩ := hrun
    exact grounded_teardown (Or.inl ((no_connection_passed hfirst hlive).2 u hu)) hrun
  cases outcome with
  | factoryFails => exact hfails (by decide) hrun
  | connectionFails => exact hfails (by decide) hrun
  | succeeds =>
    rw [initialization, execBody_append, execBody_prepared, ok_bind, execBody_connection] at hrun
    split at hrun
    · cases hrun
    · rename_i o ho
      cases hrun
      -- Without a connection the observer holds none, and so the new one stays.
      have hnone : o.peerConnection = none := by
        have hconnection := h.unconnected hlive
        rw [show w.conductor.peerObserver = some o from ho] at hconnection
        exact hconnection
      have hlive' : (w.prepared.connected true o).live = [w.offspring] := by
        change (w.live ++ [w.offspring]).filter (fun c => o.peerConnection ≠ some c.id) = _
        simp [hlive, hnone]
      refine ⟨Or.inr ⟨w.offspring, hlive', rfl, supported_offspring rfl⟩, ?_, h.detached, ?_, ?_⟩
      · intro hempty
        rw [hlive'] at hempty
        cases hempty
      · intro n hn
        cases hn
        change w.conductor.fresh < w.conductor.fresh + 3 + 1 + 3 + 1
        omega
      · intro hdisposed
        cases hattached.symm.trans hdisposed

/-- An instance is disposed of without its conductor being reachable any more. -/
theorem dispose_cases {order : List Label} :
    (PublicCall.dispose order).body = [.detachConductor] ++ (teardown order).map .teardown ++
      [.releaseRelayPortFactory] := rfl

theorem Carried.detached (h : Carried w) : Carried { w with attached := false } := h

theorem dispose_passed (h : Carried w) (order : List Label) :
    ∀ v ∈ passed view (PublicCall.dispose order).body w, Dependable v := by
  intro v hv
  rw [dispose_cases, mem_passed_append, mem_passed_append] at hv
  rcases hv with (hv | ⟨u, hu, hv⟩) | ⟨u, hu, hv⟩
  · rw [mem_passed_single] at hv
    cases hv
    exact h.detached.dependable
  · rw [execBody_single] at hu
    cases hu
    exact (teardown_passed h.detached order).1 v hv
  · rw [execBody_append, execBody_single, Instruction.exec, ok_bind] at hu
    rw [mem_passed_single] at hv
    cases hv
    exact dependable_of_none ((teardown_passed h.detached order).2 u hu)

theorem grounded_dispose (h : Carried w) {order : List Label}
    (hrun : execBody view (PublicCall.dispose order).body w = .ok v) : Grounded v := by
  rw [dispose_cases, execBody_append, execBody_append, execBody_single, Instruction.exec, ok_bind,
    bind_eq_ok] at hrun
  obtain ⟨u, hu, hrun⟩ := hrun
  cases hrun
  have hgrounded := grounded_teardown h.detached hu
  have hlive := (teardown_passed h.detached order).2 u hu
  exact ⟨Or.inl hlive, hgrounded.unconnected, hgrounded.detached, hgrounded.fresh, fun _ => hlive⟩

theorem grounded_next (view : Channel → ChannelView) (w : World) (c : PublicCall) (v : World)
    (h : Grounded w) (hc : Unconnected w c) (hnext : w.next view c = some v) : Grounded v := by
  unfold World.next at hnext
  split at hnext
  · rename_i hattached
    have hrun := toOption_eq_some.mp hnext
    cases c with
    | dispose order => exact grounded_dispose h.carried hrun
    | operation op =>
      rcases operation_cases view op with ⟨outcome, order, rfl⟩ | ⟨order, rfl⟩ | ⟨hbody, hsame⟩
      · exact grounded_initialization h hattached (hc outcome order rfl) hrun
      · exact grounded_teardown h.carried hrun
      · rw [PublicCall.body, hbody, execBody_single] at hrun
        obtain ⟨t, ht, rfl⟩ := map_eq_ok.mp hrun
        exact h.sameHoldings (hsame _ _ ht)
  · split at hnext
    · cases hnext
      exact h
    · cases hnext

/-- A call passes only through good states exactly if it does not initialize over a
connection. -/
theorem passes_iff_unconnected (view : Channel → ChannelView) (w : World) (c : PublicCall)
    (h : Grounded w) : (∀ v ∈ w.passes view c, Dependable v) ↔ Unconnected w c := by
  unfold World.passes
  split
  · cases c with
    | dispose order =>
      refine iff_of_true (dispose_passed h.carried order) ?_
      intro outcome order' hc
      cases hc
    | operation op =>
      rcases operation_cases view op with ⟨outcome, order, rfl⟩ | ⟨order, rfl⟩ | ⟨hbody, hsame⟩
      · constructor
        · intro hall outcome' order' _
          by_contra hlive
          obtain ⟨v, hv, hbroken⟩ := initialization_breaks h hlive outcome order
          exact hbroken (hall v hv)
        · intro hlive
          exact initialization_passed (hlive outcome order rfl) outcome order
      · refine iff_of_true (teardown_passed h.carried order).1 ?_
        intro outcome order' hc
        cases hc
      · refine iff_of_true ?_ ?_
        · intro v hv
          rw [PublicCall.body, hbody, mem_passed_single] at hv
          obtain ⟨t, ht, rfl⟩ := map_eq_ok.mp hv
          exact (h.sameHoldings (hsame _ _ ht)).carried.dependable
        · intro outcome order hc
          cases hc
          cases outcome <;> cases hbody
  · rename_i hdisposed
    refine iff_of_true (by simp) ?_
    intro _ _ _
    exact h.disposed (by simpa using hdisposed)

/-- In every run of public calls, through every statement of every call: at most one
connection is there and all that it was created with, exactly if each initialization
starts without a connection. -/
theorem dependencies_alive_iff (view : Channel → ChannelView) (calls : List PublicCall) :
    Along (World.next view) (fun w c => ∀ v ∈ w.passes view c, Dependable v) {} calls ↔
      Along (World.next view) Unconnected {} calls :=
  along_congr (grounded_next view) (passes_iff_unconnected view) grounded_constructed calls

private def connect : PublicCall := .operation (.initializePeerConnection .succeeds [])

/-- The second initialization quits the network thread of the first one's connection, and
then there are two connections. -/
theorem initialized_twice : ∃ w v u c,
    World.next (fun _ => .ofState .opened) {} connect = some w ∧
      v ∈ w.passes (fun _ => .ofState .opened) connect ∧ v.live = [c] ∧
      c.uses .networkThread = some 0 ∧ v.conductor.networkThread = some 8 ∧ ¬ Dependable v ∧
      u ∈ w.passes (fun _ => .ofState .opened) connect ∧ u.live.length = 2 := by
  obtain ⟨w, v, u, c, hrun, hv, hlive, huses, hthread, hu, htwo⟩ : ∃ w v u c,
      World.next (fun _ => .ofState .opened) {} connect = some w ∧
      (w.passes (fun _ => .ofState .opened) connect)[1]? = some v ∧ v.live = [c] ∧
      c.uses .networkThread = some 0 ∧ v.conductor.networkThread = some 8 ∧
      (w.passes (fun _ => .ofState .opened) connect)[8]? = some u ∧ u.live.length = 2 :=
    ⟨_, _, _, _, rfl, rfl, rfl, rfl, rfl, rfl, rfl⟩
  refine ⟨w, v, u, c, hrun, List.mem_of_getElem? hv, hlive, huses, hthread, ?_,
    List.mem_of_getElem? hu, htwo⟩
  rintro ⟨_, hall⟩
  obtain ⟨n, hn, halive⟩ := hall c (by simp [hlive]) .networkThread
  obtain rfl : 0 = n := Option.some.inj (huses.symm.trans hn)
  cases hthread.symm.trans halive

end Spitfire.Conductor
