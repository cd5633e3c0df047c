import Spitfire.Conductor.Session
import Spitfire.Conductor.Teardown

/-! Descriptions delivered while the connection is torn down. The pointer to the peer
observer is null before the connection is gone, and in between `OnSuccess` can still run;
everywhere else a delivery finds what it needs. -/
namespace Spitfire.Conductor
open Transition

/-- The connection object exists, if only for the destructor. -/
def Alive (c : State) : Prop :=
  (connectionOf c.peerObserver).isSome = true ∨ (connectionOf c.detached).isSome = true

/-- Neither half of `peer_observer_.reset()`. -/
def Teardown.sparesPeer : Teardown → Bool
  | .detachPeerObserver | .destroyPeerObserver => false
  | _ => true

/-- Where the application's thread stands, and what is then known of the peer observer. -/
inductive Position (c : State) : List Statement → Prop
  | outside {todo : List Statement} (hplain : ∀ t, .teardown t ∉ todo) (hwhole : c.detached = none) :
      Position c todo
  | opening {ts : List Teardown} (hts : ∀ t ∈ ts, t.sparesPeer = true) (hwhole : c.detached = none) :
      Position c (.teardown .closeConnection :: .teardown .detachPeerObserver ::
        .teardown .destroyPeerObserver :: ts.map .teardown)
  | closed {ts : List Teardown} (hts : ∀ t ∈ ts, t.sparesPeer = true) (hwhole : c.detached = none) :
      Position c (.teardown .detachPeerObserver :: .teardown .destroyPeerObserver ::
        ts.map .teardown)
  | resetting {ts : List Teardown} (hts : ∀ t ∈ ts, t.sparesPeer = true)
      (hnull : c.peerObserver = none) :
      Position c (.teardown .destroyPeerObserver :: ts.map .teardown)
  | reset {todo : List Statement} (htodo : ∀ st ∈ todo, ∃ t, st = .teardown t ∧ t.sparesPeer = true)
      (hnull : c.peerObserver = none) (hgone : c.detached = none) : Position c todo

theorem plain_exec {st : Statement} (hplain : ∀ t, st ≠ .teardown t) {c c' : State} {goesOn : Bool}
    (h : st.exec c = .ok (goesOn, c')) : c'.peerObserver = c.peerObserver ∧
      c'.detached = c.detached ∧ c'.setSessionObserver = c.setSessionObserver := by
  cases st with
  | testConnection =>
    rw [Statement.exec, withConnection] at h
    split at h
    · cases h
    · cases h
      exact ⟨rfl, rfl, rfl⟩
    · cases h
      exact ⟨rfl, rfl, rfl⟩
  | teardown t => exact (hplain t rfl).elim
  | _ =>
    obtain ⟨n, _, h⟩ := map_eq_ok.mp h
    cases h
    exact ⟨rfl, rfl, rfl⟩

theorem sparesPeer_exec {t : Teardown} (ht : t.sparesPeer = true) {c c' : State}
    (h : t.exec c = .ok c') : c'.peerObserver = c.peerObserver ∧ c'.detached = c.detached := by
  cases t with
  | detachPeerObserver => cases ht
  | destroyPeerObserver => cases ht
  | unregisterObservers order => exact (unregisterObservers_outside h).observers
  | clearObservers order =>
    cases h
    exact (clearObservers_outside order c).observers
  | _ =>
    cases h
    exact ⟨rfl, rfl⟩

theorem Position.whole_of_idle {c : State} (h : Position c []) : c.detached = none := by
  cases h with
  | outside _ hwhole => exact hwhole
  | reset _ _ hgone => exact hgone

/-- A call begins outside the teardown or at its start. -/
theorem position_body {c : State} (hwhole : c.detached = none) (call : Call) :
    Position c call.body := by
  cases call with
  | createOffer => exact .outside (by simp [Call.body]) hwhole
  | onOfferReply parses type sdp =>
    refine .outside (fun t => ?_) hwhole
    rw [Call.body]
    split <;> simp
  | onOfferRequest parses sdp =>
    refine .outside (fun t => ?_) hwhole
    rw [Call.body]
    split <;> simp
  | deletePeerConnection order =>
    have hts : ∀ t ∈ (teardown order).drop 3, t.sparesPeer = true := by
      simp [teardown, Teardown.sparesPeer]
    exact .opening hts hwhole

/-- A statement moves the thread on. The connection stays as long as it is not destroyed,
and as long as it stays nobody lets go of the other observer. -/
theorem Position.exec {c c' : State} {st : Statement} {rest : List Statement} {goesOn : Bool}
    (h : Position c (st :: rest)) (hexec : st.exec c = .ok (goesOn, c')) :
    Position c' (if goesOn then rest else []) ∧
      (st ≠ .teardown .destroyPeerObserver → Alive c → Alive c') ∧
      (Alive c' → c'.setSessionObserver = c.setSessionObserver ∧ Alive c) := by
  cases h with
  | outside hplain hwhole =>
    have hst : ∀ t, st ≠ .teardown t := by
      intro t ht
      exact hplain t (by simp [ht])
    obtain ⟨hpeer, hdetached, hset⟩ := plain_exec hst hexec
    have halive : Alive c' ↔ Alive c := by rw [Alive, Alive, hpeer, hdetached]
    refine ⟨.outside ?_ (hdetached.trans hwhole), fun _ => halive.mpr,
      fun h => ⟨hset, halive.mp h⟩⟩
    intro t ht
    split at ht
    · exact hplain t (by simp [ht])
    · cases ht
  | opening hts hwhole =>
    cases hexec
    exact ⟨.closed hts hwhole, fun _ h => h, fun h => ⟨rfl, h⟩⟩
  | closed hts hwhole =>
    cases hexec
    refine ⟨.resetting hts rfl, fun _ h => ?_, fun h => ⟨rfl, ?_⟩⟩
    · rcases h with h | h
      · exact Or.inr h
      · rw [hwhole] at h
        cases h
    · rcases h with h | h
      · cases h
      · exact Or.inl h
  | resetting hts hnull =>
    cases hexec
    refine ⟨.reset ?_ hnull rfl, fun h => (h rfl).elim, fun h => ?_⟩
    · intro st hst
      obtain ⟨t, ht, rfl⟩ := List.mem_map.mp hst
      exact ⟨t, rfl, hts t ht⟩
    · rcases h with h | h
      · exact ⟨rfl, Or.inl h⟩
      · cases h
  | reset htodo hnull hgone =>
    obtain ⟨t, rfl, ht⟩ := htodo st (by simp)
    obtain ⟨c₁, hrun, hpair⟩ := map_eq_ok.mp hexec
    cases hpair
    obtain ⟨hpeer, hdetached⟩ := sparesPeer_exec ht hrun
    have hdead : ¬ Alive c := by simp [Alive, connectionOf, hnull, hgone]
    have hdead' : ¬ Alive c' := by rwa [Alive, hpeer, hdetached]
    exact ⟨.reset (fun st hst => htodo st (List.mem_cons_of_mem _ hst)) (hpeer.trans hnull)
      (hdetached.trans hgone), fun _ h => (hdead h).elim, fun h => (hdead' h).elim⟩

/-- While the connection exists and the thread is not inside `reset()`, the pointer to the
peer observer leads to the connection. -/
theorem Position.connected {c : State} {todo : List Statement} (h : Position c todo)
    (halive : Alive c) (houtside : todo.head? ≠ some (.teardown .destroyPeerObserver)) :
    ∃ n, c.peerObserver = some ⟨some n⟩ := by
  have hpeer (hwhole : c.detached = none) : ∃ n, c.peerObserver = some ⟨some n⟩ := by
    rcases halive with h | h
    · obtain ⟨n, hn⟩ := Option.isSome_iff_exists.mp h
      obtain ⟨o, ho, hn⟩ := Option.bind_eq_some_iff.mp hn
      exact ⟨n, by rw [ho, ← hn]⟩
    · rw [hwhole] at h
      cases h
  cases h with
  | outside _ hwhole => exact hpeer hwhole
  | opening _ hwhole => exact hpeer hwhole
  | closed _ hwhole => exact hpeer hwhole
  | resetting _ _ => exact (houtside rfl).elim
  | reset _ _ hgone => exact hpeer hgone

theorem Position.null {c : State} {todo : List Statement} (h : Position c todo)
    (hinside : todo.head? = some (.teardown .destroyPeerObserver)) : c.peerObserver = none := by
  cases h with
  | outside hplain _ => exact (hplain _ (List.mem_of_mem_head? hinside)).elim
  | opening _ _ => cases hinside
  | closed _ _ => cases hinside
  | resetting _ hnull => exact hnull
  | reset _ hnull _ => exact hnull

/-- The library's side of a step leaves both threads where they are. -/
theorem perform_frame (s : Session) (accepts : Bool) (st : Statement) :
    (s.perform accepts st).conductor = s.conductor ∧ (s.perform accepts st).todo = s.todo ∧
      (s.perform accepts st).delivery = s.delivery ∧ (s.perform accepts st).fault = s.fault := by
  cases st with
  | setRemoteDescription type sdp =>
    rw [Session.perform]
    split
    · cases type <;> exact ⟨rfl, rfl, rfl, rfl⟩
    · exact ⟨rfl, rfl, rfl, rfl⟩
  | _ => exact ⟨rfl, rfl, rfl, rfl⟩

/-- A request is issued only through the connection. -/
theorem perform_pending (s : Session) (accepts : Bool) {st : Statement} {c c' : State}
    {goesOn : Bool} (hexec : st.exec c = .ok (goesOn, c')) :
    (s.perform accepts st).pending = s.pending ∨ Alive c := by
  have hconnection {n : Nat} (h : c.connection = .ok n) : Alive c := by
    left
    unfold State.connection at h
    split at h
    · cases h
    · cases h
    · rename_i m hm
      rw [hm]
      rfl
  cases st with
  | createOffer =>
    obtain ⟨n, hn, _⟩ := map_eq_ok.mp hexec
    exact Or.inr (hconnection hn)
  | createAnswer offer =>
    obtain ⟨n, hn, _⟩ := map_eq_ok.mp hexec
    exact Or.inr (hconnection hn)
  | setRemoteDescription type sdp =>
    left
    rw [Session.perform]
    split
    · cases type <;> rfl
    · rfl
  | testConnection => exact Or.inl rfl
  | teardown t => exact Or.inl rfl

/-- Requests are open only while the connection exists, and then the observer that
`SetLocalDescription` is given exists too. -/
structure Guarded (s : Session) : Prop where
  position : Position s.conductor s.todo
  observer : Alive s.conductor → s.conductor.setSessionObserver = true
  open_alive : s.pending ≠ [] ∨ s.delivery ≠ none → Alive s.conductor
  safe : ∀ f, s.fault ≠ some (.signaling, f)

/-- The step reads `peer_observer_` from the signaling thread. -/
def Step.readsPeerObserver : Step → Bool
  | .onSuccess _ _ | .setLocalDescription _ => true
  | _ => false

/-- `OnSuccess` does not touch the peer observer while the application's thread is inside
`peer_observer_.reset()`. -/
def OutsideReset (s : Session) (a : Step) : Prop :=
  a.readsPeerObserver = true → s.todo.head? ≠ some (.teardown .destroyPeerObserver)

theorem pending_ne_nil {s : Session} {i : Nat} {r : Request} (h : s.pending[i]? = some r) :
    s.pending ≠ [] := by
  intro hnil
  rw [hnil] at h
  cases h

theorem guarded_execute {s : Session} (h : Guarded s) (hfault : s.fault = none) {st : Statement}
    {rest : List Statement} {goesOn accepts : Bool} {c : State} (htodo : s.todo = st :: rest)
    (hwaits : s.waits st = false) (hexec : st.exec s.conductor = .ok (goesOn, c)) :
    Guarded
      ({ s with conductor := c, todo := if goesOn then rest else [] }.perform accepts st) := by
  obtain ⟨hposition, hkept, hback⟩ := (htodo ▸ h.position).exec hexec
  obtain ⟨hc, ht, hd, hf⟩ :=
    perform_frame { s with conductor := c, todo := if goesOn then rest else [] } accepts st
  refine ⟨?_, ?_, ?_, ?_⟩
  · rw [hc, ht]
    exact hposition
  · rw [hc]
    intro halive
    obtain ⟨hset, halive⟩ := hback halive
    exact hset.trans (h.observer halive)
  · rw [hc, hd]
    intro hopen
    have halive : Alive s.conductor := by
      rcases perform_pending { s with conductor := c, todo := if goesOn then rest else [] } accepts
        hexec with hp | halive
      · exact h.open_alive (hopen.imp_left fun hne => hp ▸ hne)
      · exact halive
    refine hkept ?_ halive
    -- The destructor has waited until nothing is open.
    rintro rfl
    simp only [Session.waits, decide_true, Bool.true_and, Bool.or_eq_false_iff,
      Bool.not_eq_false', List.isEmpty_iff] at hwaits
    rcases hopen with hopen | hopen
    · exact hopen hwaits.1
    · exact hopen (Option.isSome_eq_false_iff.mp hwaits.2 |> Option.isNone_iff_eq_none.mp)
  · intro f
    rw [hf]
    simp [hfault]

theorem guarded_next (s : Session) (a : Step) (t : Session) (h : Guarded s)
    (houtside : OutsideReset s a) (hnext : s.next a = some t) : Guarded t := by
  obtain ⟨hfault, hmove⟩ := move_of_next hnext
  cases hmove with
  | call hidle =>
    have hwhole := (hidle ▸ h.position).whole_of_idle
    exact ⟨position_body hwhole _, h.observer, h.open_alive, h.safe⟩
  | executeFaults htodo hexec =>
    refine ⟨h.position, h.observer, h.open_alive, fun f => ?_⟩
    simp [Session.crash]
  | execute htodo hwaits hexec => exact guarded_execute h hfault htodo hwaits hexec
  | onFailure hidle hr =>
    refine ⟨h.position, h.observer, fun _ => ?_, h.safe⟩
    exact h.open_alive (Or.inl (pending_ne_nil hr))
  | onSuccessFaults hidle hr hnull =>
    have halive := h.open_alive (Or.inl (pending_ne_nil hr))
    obtain ⟨n, hn⟩ := h.position.connected halive (houtside rfl)
    rw [hnull] at hn
    cases hn
  | onSuccessReturns hidle hr hnone =>
    refine ⟨h.position, h.observer, fun _ => ?_, h.safe⟩
    exact h.open_alive (Or.inl (pending_ne_nil hr))
  | onSuccess hidle hr hpossible hsome =>
    refine ⟨h.position, h.observer, fun _ => ?_, h.safe⟩
    exact h.open_alive (Or.inl (pending_ne_nil hr))
  | setLocalFaults hd hnull =>
    have halive := h.open_alive (Or.inr (by simp [hd]))
    obtain ⟨n, hn⟩ := h.position.connected halive (houtside rfl)
    simp [State.connection, hn] at hnull
  | setLocalNull hd hnull =>
    have halive := h.open_alive (Or.inr (by simp [hd]))
    rw [h.observer halive] at hnull
    cases hnull
  | setLocal hd hsome =>
    have halive := h.open_alive (Or.inr (by simp [hd]))
    rw [Session.apply]
    split
    · exact ⟨h.position, h.observer, fun _ => halive, h.safe⟩
    · exact ⟨h.position, h.observer, fun _ => halive, h.safe⟩
  | report hd =>
    refine ⟨h.position, h.observer, fun _ => ?_, h.safe⟩
    exact h.open_alive (Or.inr (by simp [hd]))

/-- Inside `reset()` either read of `OnSuccess` goes through the null pointer. -/
theorem faults_inside_reset (s : Session) (a : Step) (t : Session) (h : Guarded s)
    (hinside : ¬ OutsideReset s a) (hnext : s.next a = some t) :
    ∃ f, t.fault = some (.signaling, f) := by
  obtain ⟨hfault, hmove⟩ := move_of_next hnext
  rw [OutsideReset, Classical.not_imp, not_not] at hinside
  obtain ⟨hreads, hinside⟩ := hinside
  have hnull := h.position.null hinside
  cases hmove with
  | onSuccessFaults _ _ _ => exact ⟨_, rfl⟩
  | onSuccessReturns _ _ hnone =>
    rw [hnull] at hnone
    cases hnone
  | onSuccess _ _ _ hsome =>
    rw [hnull] at hsome
    cases hsome
  | setLocalFaults _ _ => exact ⟨_, rfl⟩
  | setLocalNull _ _ => exact ⟨_, rfl⟩
  | setLocal _ hsome => simp [State.connection, hnull] at hsome
  | call _ => cases hreads
  | executeFaults _ _ => cases hreads
  | execute _ _ _ => cases hreads
  | onFailure _ _ => cases hreads
  | report _ => cases hreads

/-- In every interleaving, `OnSuccess` goes through no null pointer and passes none on
exactly if it never reads the peer observer while the application's thread is inside
`peer_observer_.reset()`. -/
theorem onSuccess_safe_iff {c : State} (hwhole : c.detached = none)
    (hset : c.setSessionObserver = true) {steps : List Step} {t : Session}
    (hrun : run Session.next { conductor := c } steps = some t) :
    (∀ f, t.fault ≠ some (.signaling, f)) ↔
      Along Session.next OutsideReset { conductor := c } steps := by
  have hstart : Guarded { conductor := c } := by
    refine ⟨.outside (fun t ht => by cases ht) hwhole, fun _ => hset, ?_, fun f => by simp⟩
    rintro (h | h) <;> exact (h rfl).elim
  have hiff := along_iff_not_ruined (B := fun t : Session => ∃ f, t.fault = some (.signaling, f))
    guarded_next faults_inside_reset ?_ ?_ hstart hrun
  · rw [← hiff]
    exact not_exists.symm
  · rintro s a t ⟨f, hf⟩ hnext
    simp [Session.next, hf] at hnext
  · rintro s hs ⟨f, hf⟩
    exact hs.safe f hf

private def offerThenTeardown : List Step :=
  [.call .createOffer, .execute true, .execute true, .onSuccess 0 "v=0",
    .setLocalDescription true, .report, .call (.deletePeerConnection [])] ++
    List.replicate 15 (.execute true)

/-- An offer that is created, applied and reported before a complete teardown. -/
theorem onSuccess_safe_offerThenTeardown : ∃ t,
    run Session.next { conductor := .initialized } offerThenTeardown = some t ∧
      t.fault = none ∧ t.todo = [] ∧ t.conductor.peerObserver = none ∧ t.reports.length = 1 ∧
      Along Session.next OutsideReset { conductor := .initialized } offerThenTeardown := by
  have hrun : (run Session.next { conductor := .initialized } offerThenTeardown).map
      (fun t => (t.fault, t.todo, t.conductor.peerObserver, t.reports.length)) =
        some (none, [], none, 1) := by decide +kernel
  obtain ⟨t, ht, hfields⟩ := Option.map_eq_some_iff.mp hrun
  obtain ⟨hfault, htodo, hpeer, hreports⟩ : t.fault = none ∧ t.todo = [] ∧
      t.conductor.peerObserver = none ∧ t.reports.length = 1 := by simpa using hfields
  refine ⟨t, ht, hfault, htodo, hpeer, hreports, (onSuccess_safe_iff rfl rfl ht).mp fun f => ?_⟩
  rw [hfault]
  exact fun h => nomatch h

/-- An offer is asked for and the teardown begins. Delivered when the pointer is null and
the connection not yet destroyed, the offer faults at the test; tested just before the
pointer becomes null, it faults at the call. -/
theorem onSuccess_inside_reset :
    (run Session.next { conductor := .initialized }
      [.call .createOffer, .execute true, .execute true, .call (.deletePeerConnection []),
        .execute true, .execute true, .onSuccess 0 "v=0"]).map Session.fault =
      some (some (.signaling, .nullPeerObserver)) ∧
    (run Session.next { conductor := .initialized }
      [.call .createOffer, .execute true, .execute true, .call (.deletePeerConnection []),
        .execute true, .onSuccess 0 "v=0", .execute true, .setLocalDescription true]).map
          Session.fault = some (some (.signaling, .nullPeerObserver)) := by
  decide +kernel

end Spitfire.Conductor
