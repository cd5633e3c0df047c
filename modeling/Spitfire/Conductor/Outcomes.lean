import Mathlib.Data.List.Perm.Subperm
import Spitfire.Conductor.Session

/-! Whether every request for a description has an outcome. A library that answers each
request once is not enough: an offer that does not parse is dropped before one is made. -/
namespace Spitfire.Conductor
open Transition

/-- The call asks for a description. -/
def Call.negotiates : Call → Bool
  | .createOffer | .onOfferRequest _ _ => true
  | .onOfferReply _ _ _ | .deletePeerConnection _ => false

/-- The statement passes a request on to the library. -/
def Statement.issues : Statement → Bool
  | .createOffer | .createAnswer _ => true
  | _ => false

/-- A session with its negotiating calls numbered. `origins` says for every request which
call it came from. -/
structure Ledger where
  session : Session
  calls : Nat := 0
  origins : List Nat := []

namespace Ledger

/-- Runs in which the connection is not torn down. A request comes from the latest call. -/
def next (l : Ledger) (a : Step) : Option Ledger :=
  match a with
  | .call (.deletePeerConnection _) => none
  | .call c => (l.session.next (.call c)).map fun s =>
      { l with session := s, calls := if c.negotiates then l.calls + 1 else l.calls }
  | a => (l.session.next a).map fun s =>
      { l with
        session := s
        origins := l.origins ++ List.replicate (s.issued - l.session.issued) (l.calls - 1) }

end Ledger

/-- The requests that `on_success_` or `on_failure_` was raised for. -/
def Session.outcomes (s : Session) : List Nat := s.reports.map (·.request.id) ++ s.failures

/-- No call is in progress and no request is pending. -/
def Session.Quiescent (s : Session) : Prop :=
  s.todo = [] ∧ s.pending = [] ∧ s.delivery = none

/-- The outcomes come from the calls, one from each. -/
def Ledger.Accounted (l : Ledger) : Prop :=
  (l.session.outcomes.map fun r => l.origins[r]?).Perm ((List.range l.calls).map some)

/-- The text of an `OnOfferRequest` parses. -/
def Step.understood : Step → Bool
  | .call (.onOfferRequest parses _) => parses
  | _ => true

/-- The connection and the observer that `OnSuccess` needs are there. -/
def Connected (s : State) : Prop :=
  (∃ n, s.peerObserver = some ⟨some n⟩) ∧ s.setSessionObserver = true

theorem Connected.exec {s : State} (h : Connected s) {st : Statement}
    (hst : ∀ t, st ≠ .teardown t) : ∃ c, st.exec s = .ok (true, c) ∧ Connected c := by
  obtain ⟨⟨n, hn⟩, hset⟩ := h
  have hconnection : s.connection = .ok n := by
    rw [State.connection, hn]
  have hcall (es : List Event) :
      ∃ c, (s.connection.map fun _ => (true, s.record es)) = .ok (true, c) ∧ Connected c := by
    refine ⟨s.record es, ?_, ⟨n, hn⟩, hset⟩
    rw [hconnection]
    rfl
  cases st with
  | testConnection =>
    refine ⟨s, ?_, ⟨n, hn⟩, hset⟩
    rw [Statement.exec, withConnection, hn]
  | createOffer => exact hcall _
  | setRemoteDescription type sdp => exact hcall _
  | createAnswer offer => exact hcall _
  | teardown t => exact (hst t rfl).elim

/-- Every request that was issued, wherever it is now. -/
def Session.requests (s : Session) : List Nat :=
  s.pending.map Request.id ++ (s.delivery.toList.map (·.request.id) ++ s.outcomes)

namespace Ledger

/-- The calls whose requests have been issued or are still to be. -/
def assigned (l : Ledger) : List Nat :=
  l.origins ++ (l.session.todo.filter Statement.issues).map fun _ => l.calls - 1

/-- The library answers every request, and no two requests come from one call. -/
structure Steady (l : Ledger) : Prop where
  connected : Connected l.session.conductor
  plain : ∀ st ∈ l.session.todo, ∀ t, st ≠ .teardown t
  issued : l.session.issued = l.origins.length
  requests : l.session.requests.Perm (List.range l.session.issued)
  nodup : l.assigned.Nodup
  below : ∀ k ∈ l.assigned, k < l.calls

/-- Some call has no request. -/
def Missing (l : Ledger) : Prop := l.assigned.length < l.calls

/-- A step is a new call or a step of the session within the latest one. -/
theorem next_cases {l l' : Ledger} {a : Step} (h : l.next a = some l') :
    (∃ c, a = .call c ∧ (∀ order, c ≠ .deletePeerConnection order) ∧ l.session.todo = [] ∧
      l' = { l with
        session := { l.session with todo := c.body }
        calls := if c.negotiates then l.calls + 1 else l.calls }) ∨
    (∃ s, (∀ c, a ≠ .call c) ∧ l.session.next a = some s ∧
      l' = { l with
        session := s
        origins := l.origins ++ List.replicate (s.issued - l.session.issued) (l.calls - 1) }) := by
  cases a with
  | call c =>
    left
    have hc : ∀ order, c ≠ .deletePeerConnection order := by
      rintro order rfl
      cases h
    have hnext : (l.session.next (.call c)).map (fun s =>
        { l with session := s, calls := if c.negotiates then l.calls + 1 else l.calls }) =
          some l' := by
      cases c <;> first | exact h | cases h
    obtain ⟨s, hs, rfl⟩ := Option.map_eq_some_iff.mp hnext
    obtain ⟨_, hmove⟩ := move_of_next hs
    cases hmove with
    | call hidle => exact ⟨c, rfl, hc, hidle, rfl⟩
  | execute accepts =>
    obtain ⟨s, hs, rfl⟩ := Option.map_eq_some_iff.mp h
    exact Or.inr ⟨s, by simp, hs, rfl⟩
  | onFailure i =>
    obtain ⟨s, hs, rfl⟩ := Option.map_eq_some_iff.mp h
    exact Or.inr ⟨s, by simp, hs, rfl⟩
  | onSuccess i sdp =>
    obtain ⟨s, hs, rfl⟩ := Option.map_eq_some_iff.mp h
    exact Or.inr ⟨s, by simp, hs, rfl⟩
  | setLocalDescription accepts =>
    obtain ⟨s, hs, rfl⟩ := Option.map_eq_some_iff.mp h
    exact Or.inr ⟨s, by simp, hs, rfl⟩
  | report =>
    obtain ⟨s, hs, rfl⟩ := Option.map_eq_some_iff.mp h
    exact Or.inr ⟨s, by simp, hs, rfl⟩

/-- A call that negotiates makes one request, unless its text does not parse. -/
theorem body_issues {c : Call} (hc : ∀ order, c ≠ .deletePeerConnection order) :
    (∀ st ∈ c.body, ∀ t, st ≠ .teardown t) ∧ (c.body.filter Statement.issues).length =
      if c.negotiates && (Step.call c).understood then 1 else 0 := by
  cases c with
  | createOffer => simp [Call.body, Statement.issues, Call.negotiates, Step.understood, List.filter]
  | onOfferReply parses type sdp =>
    rw [Call.body]
    split <;> simp [Statement.issues, Call.negotiates, List.filter]
  | onOfferRequest parses sdp =>
    cases parses <;> simp [Call.body, createSessionDescription, sdpTypeFromString, Statement.issues,
      Call.negotiates, Step.understood, List.filter]
  | deletePeerConnection order => exact (hc order rfl).elim

/-- A new call adds its number to those that have a request, if it makes one. -/
theorem assigned_call {l : Ledger} {c : Call} (hc : ∀ order, c ≠ .deletePeerConnection order)
    (hidle : l.session.todo = []) :
    assigned { l with
      session := { l.session with todo := c.body }
      calls := if c.negotiates then l.calls + 1 else l.calls } =
      l.assigned ++ if c.negotiates && (Step.call c).understood then [l.calls] else [] := by
  obtain ⟨_, hlength⟩ := body_issues hc
  have hbefore : l.assigned = l.origins := by simp [assigned, hidle]
  rw [hbefore, assigned, List.map_const', hlength]
  cases hn : c.negotiates <;> cases hu : (Step.call c).understood <;> simp

theorem steady_call {l : Ledger} (h : Steady l) {c : Call}
    (hc : ∀ order, c ≠ .deletePeerConnection order) (hidle : l.session.todo = []) :
    Steady { l with
      session := { l.session with todo := c.body }
      calls := if c.negotiates then l.calls + 1 else l.calls } := by
  have hassigned := assigned_call hc hidle
  refine ⟨h.connected, (body_issues hc).1, h.issued, h.requests, ?_, ?_⟩
  · rw [hassigned]
    refine h.nodup.append ?_ ?_
    · split <;> simp
    · intro k hk hnew
      have hlt := h.below k hk
      split at hnew
      · simp only [List.mem_singleton] at hnew
        omega
      · cases hnew
  · intro k hk
    rw [hassigned] at hk
    dsimp only
    rcases List.mem_append.mp hk with hk | hk
    · have hlt := h.below k hk
      split <;> omega
    · split at hk
      · rename_i hboth
        simp only [Bool.and_eq_true] at hboth
        simp only [List.mem_singleton] at hk
        rw [if_pos hboth.1]
        omega
      · cases hk

/-- A step that issues nothing and keeps the requests together. -/
theorem steady_settle {l : Ledger} (h : Steady l) {s : Session} (hconnected : Connected s.conductor)
    (hplain : ∀ st ∈ s.todo, ∀ t, st ≠ .teardown t)
    (htodo : s.todo.filter Statement.issues = l.session.todo.filter Statement.issues)
    (hissued : s.issued = l.session.issued) (hrequests : s.requests.Perm l.session.requests) :
    Steady { l with session := s } ∧ assigned { l with session := s } = l.assigned := by
  have hassigned : assigned { l with session := s } = l.assigned := by
    simp [assigned, htodo]
  refine ⟨⟨hconnected, hplain, hissued.trans h.issued, ?_, ?_, ?_⟩, hassigned⟩
  · dsimp only
    rw [hissued]
    exact hrequests.trans h.requests
  · rw [hassigned]
    exact h.nodup
  · rw [hassigned]
    exact h.below

/-- What the library does with a statement: nothing that concerns the requests, or it has
one more. -/
theorem perform_cases (s : Session) (accepts : Bool) (st : Statement) :
    (st.issues = false ∧ ∃ remote, s.perform accepts st = { s with remoteOffer := remote }) ∨
      (st.issues = true ∧ ∃ creation, s.perform accepts st = s.issue creation) := by
  cases st with
  | testConnection => exact Or.inl ⟨rfl, s.remoteOffer, rfl⟩
  | createOffer => exact Or.inr ⟨rfl, _, rfl⟩
  | setRemoteDescription type sdp =>
    left
    refine ⟨rfl, ?_⟩
    rw [Session.perform]
    split
    · cases type with
      | offer => exact ⟨_, rfl⟩
      | pranswer => exact ⟨s.remoteOffer, rfl⟩
      | answer | rollback => exact ⟨_, rfl⟩
    · exact ⟨s.remoteOffer, rfl⟩
  | createAnswer offer => exact Or.inr ⟨rfl, _, rfl⟩
  | teardown t => exact Or.inl ⟨rfl, s.remoteOffer, rfl⟩

/-- The latest call issues its request. -/
theorem steady_issue {l : Ledger} (h : Steady l) {c : State} (hc : Connected c) {st : Statement}
    {rest : List Statement} (htodo : l.session.todo = st :: rest) (hst : st.issues = true)
    (creation : Creation) :
    let l' : Ledger := { l with
      session := { l.session with conductor := c, todo := rest }.issue creation
      origins := l.origins ++ [l.calls - 1] }
    Steady l' ∧ l'.assigned = l.assigned := by
  intro l'
  have hassigned : l'.assigned = l.assigned := by
    simp [l', assigned, Session.issue, htodo, hst]
  refine ⟨⟨hc, ?_, ?_, ?_, ?_, ?_⟩, hassigned⟩
  · intro st' hst'
    exact h.plain st' (by rw [htodo]; exact List.mem_cons_of_mem _ hst')
  · simp [l', Session.issue, h.issued]
  · have hperm : l'.session.requests.Perm (l.session.requests ++ [l.session.issued]) := by
      simp only [l', Session.requests, Session.issue, Session.outcomes, List.map_append,
        List.map_cons, List.map_nil, List.append_assoc]
      refine List.Perm.append_left _ ?_
      rw [← List.append_assoc _ _ [l.session.issued], ← List.append_assoc _ _ [l.session.issued]]
      exact List.perm_append_comm
    refine hperm.trans ?_
    change (l.session.requests ++ [l.session.issued]).Perm (List.range (l.session.issued + 1))
    rw [List.range_succ]
    exact h.requests.append_right _
  · rw [hassigned]
    exact h.nodup
  · rw [hassigned]
    exact h.below

/-- A pending request is taken out of the queue and turns up behind it. -/
theorem take_perm {s : Session} {i : Nat} {r : Request} (hr : s.pending[i]? = some r)
    {before after : List Nat} (hafter : after.Perm (r.id :: before)) :
    ((s.pending.eraseIdx i).map Request.id ++ after).Perm
      (s.pending.map Request.id ++ before) := by
  obtain ⟨hi, rfl⟩ := List.getElem?_eq_some_iff.mp hr
  have htaken := (List.getElem_cons_eraseIdx_perm hi).map Request.id
  refine (hafter.append_left _).trans (List.perm_middle.trans ?_)
  exact htaken.append_right before

/-- Within a call nothing is lost: requests move from the queue to the delivery and on to
the outcomes. -/
theorem steady_within {l : Ledger} (h : Steady l) {a : Step} {s : Session}
    (ha : ∀ c, a ≠ .call c) (hs : l.session.next a = some s) :
    let l' : Ledger := { l with
      session := s
      origins := l.origins ++ List.replicate (s.issued - l.session.issued) (l.calls - 1) }
    Steady l' ∧ l'.assigned = l.assigned := by
  -- Only the execution of a statement can issue a request.
  have hsettle {s : Session} (hconnected : Connected s.conductor) (htodo : s.todo = l.session.todo)
      (hissued : s.issued = l.session.issued) (hrequests : s.requests.Perm l.session.requests) :
      let l' : Ledger := { l with
        session := s
        origins := l.origins ++ List.replicate (s.issued - l.session.issued) (l.calls - 1) }
      Steady l' ∧ l'.assigned = l.assigned := by
    rw [hissued, Nat.sub_self, List.replicate_zero, List.append_nil]
    exact steady_settle h hconnected (htodo ▸ h.plain) (by rw [htodo]) hissued hrequests
  obtain ⟨⟨n, hn⟩, hset⟩ := h.connected
  obtain ⟨_, hmove⟩ := move_of_next hs
  cases hmove with
  | call _ => exact (ha _ rfl).elim
  | executeFaults htodo hexec =>
    obtain ⟨c, hc, _⟩ := h.connected.exec (h.plain _ (by rw [htodo]; exact List.mem_cons_self))
    rw [hexec] at hc
    cases hc
  | @execute st rest goesOn c accepts htodo hwaits hexec =>
    obtain ⟨c', hc, hconnected⟩ :=
      h.connected.exec (h.plain _ (by rw [htodo]; exact List.mem_cons_self))
    obtain ⟨rfl, rfl⟩ : goesOn = true ∧ c = c' := by simpa [hexec] using hc
    rcases perform_cases { l.session with conductor := c, todo := rest } accepts st with
      ⟨hst, remote, hperform⟩ | ⟨hst, creation, hperform⟩
    · simp only [if_true, hperform, Nat.sub_self, List.replicate_zero, List.append_nil]
      refine steady_settle h hconnected ?_ ?_ rfl (List.Perm.refl _)
      · intro st' hst'
        exact h.plain st' (by rw [htodo]; exact List.mem_cons_of_mem _ hst')
      · rw [htodo, List.filter_cons_of_neg (by simp [hst])]
    · simp only [if_true, hperform]
      have hone : ({ l.session with conductor := c, todo := rest }.issue creation).issued -
          l.session.issued = 1 := Nat.add_sub_cancel_left _ _
      rw [hone]
      exact steady_issue h hconnected htodo hst creation
  | @onFailure i r hidle hr =>
    refine hsettle h.connected rfl rfl ?_
    simp only [Session.requests, Session.take, Session.outcomes, hidle]
    refine take_perm hr ?_
    rw [← List.append_assoc, ← List.append_assoc]
    exact List.perm_append_singleton _ _
  | onSuccessFaults hidle hr hnull =>
    rw [hn] at hnull
    cases hnull
  | onSuccessReturns hidle hr hnone =>
    rw [hn] at hnone
    cases hnone
  | onSuccess hidle hr hpossible hsome =>
    refine hsettle h.connected rfl rfl ?_
    simp only [Session.requests, Session.take, Session.outcomes, hidle]
    exact take_perm hr (List.Perm.refl _)
  | setLocalFaults hd hnull =>
    rw [State.connection, hn] at hnull
    cases hnull
  | setLocalNull hd hnull =>
    rw [hset] at hnull
    cases hnull
  | @setLocal r sdp m accepts hd hsome =>
    cases accepts
    · refine hsettle h.connected rfl rfl ?_
      simp [Session.requests, Session.apply, Session.outcomes, hd]
    · refine hsettle h.connected rfl rfl ?_
      simp [Session.requests, Session.apply, Session.outcomes, hd]
  | report hd =>
    refine hsettle h.connected rfl rfl ?_
    simp only [Session.requests, Session.outcomes, hd, List.map_append, List.append_assoc]
    exact List.perm_middle.append_left _

theorem steady_next {l l' : Ledger} {a : Step} (h : Steady l) (hnext : l.next a = some l') :
    Steady l' := by
  obtain ⟨c, rfl, hc, hidle, rfl⟩ | ⟨s, ha, hs, rfl⟩ := next_cases hnext
  · exact steady_call h hc hidle
  · exact (steady_within h ha hs).1

theorem Steady.subperm {l : Ledger} (h : Steady l) : l.assigned.Subperm (List.range l.calls) :=
  List.subperm_of_subset h.nodup fun k hk => List.mem_range.mpr (h.below k hk)

/-- The number of calls without a request grows with each call that is not understood. -/
theorem length_assigned_next {l l' : Ledger} {a : Step} (h : Steady l)
    (hnext : l.next a = some l') :
    l'.calls - l'.assigned.length = l.calls - l.assigned.length + if a.understood then 0 else 1 := by
  have hle := h.subperm.length_le
  rw [List.length_range] at hle
  obtain ⟨c, rfl, hc, hidle, rfl⟩ | ⟨s, ha, hs, rfl⟩ := next_cases hnext
  · rw [assigned_call hc hidle, List.length_append]
    cases c with
    | createOffer =>
      simp [Call.negotiates, Step.understood]
    | onOfferReply parses type sdp =>
      simp [Call.negotiates, Step.understood]
    | onOfferRequest parses sdp =>
      cases parses <;> simp [Call.negotiates, Step.understood]
      omega
    | deletePeerConnection order => exact (hc order rfl).elim
  · rw [(steady_within h ha hs).2]
    cases a with
    | call c => exact (ha c rfl).elim
    | _ => simp [Step.understood]

/-- A call is left without a request when it is not understood, and stays so. -/
theorem missing_next {l l' : Ledger} {a : Step} (h : Steady l) (hnext : l.next a = some l') :
    l'.Missing ↔ l.Missing ∨ a.understood = false := by
  have hlength := length_assigned_next h hnext
  rw [Missing, Missing]
  cases ha : a.understood with
  | false =>
    rw [ha, if_neg (by decide)] at hlength
    simp only [or_true, iff_true]
    omega
  | true =>
    rw [ha, if_pos rfl] at hlength
    simp only [Bool.true_eq_false, or_false]
    omega

/-- When nothing is pending, the calls are accounted for if each has its request. -/
theorem Steady.accounted_iff {l : Ledger} (h : Steady l) (hquiet : l.session.Quiescent) :
    l.Accounted ↔ ¬ l.Missing := by
  obtain ⟨htodo, hpending, hdelivery⟩ := hquiet
  have hassigned : l.assigned = l.origins := by simp [assigned, htodo]
  have hrequests : l.session.requests = l.session.outcomes := by
    simp [Session.requests, hpending, hdelivery]
  have horigins : (l.session.outcomes.map fun r => l.origins[r]?).Perm (l.origins.map some) := by
    have hperm := h.requests
    rw [hrequests, h.issued] at hperm
    refine (hperm.map fun r => l.origins[r]?).trans (List.Perm.of_eq ?_)
    apply List.ext_getElem
    · simp
    · intro i hi hi'
      have hlt : i < l.origins.length := by simpa using hi
      simp [hlt]
  have hsub := h.subperm
  rw [Missing]
  rw [hassigned] at hsub ⊢
  constructor
  · intro haccounted
    have hlength := (horigins.symm.trans haccounted).length_eq
    simp only [List.length_map, List.length_range] at hlength
    omega
  · intro hall
    refine horigins.trans ((hsub.perm_of_length_le ?_).map some)
    rw [List.length_range]
    omega

end Ledger

/-- Once nothing is pending, every `CreateOffer` and `OnOfferRequest` has had exactly one
outcome if and only if the text of every `OnOfferRequest` could be parsed. -/
theorem outcomes_accounted_iff {c : State} (hconnected : Connected c) {steps : List Step} {t : Ledger}
    (hrun : run Ledger.next { session := { conductor := c } } steps = some t)
    (hquiet : t.session.Quiescent) : t.Accounted ↔ ∀ a ∈ steps, a.understood = true := by
  have hstart : Ledger.Steady { session := { conductor := c } } :=
    ⟨hconnected, fun _ h => (by cases h), rfl, List.Perm.refl _, List.nodup_nil,
      fun _ h => (by cases h)⟩
  have hsteady : Ledger.Steady t := run_invariant (fun l a l' h => Ledger.steady_next h) hstart hrun
  have hiff := along_iff_not_ruined (P := fun _ a => a.understood = true)
    (I := fun l => l.Steady ∧ ¬ l.Missing) (B := fun l => l.Steady ∧ l.Missing)
    ?_ ?_ ?_ ?_ ⟨hstart, by simp [Ledger.Missing]⟩ hrun
  · rw [hsteady.accounted_iff hquiet, ← along_labels_iff hrun, ← hiff]
    simp [hsteady]
  · rintro l a l' ⟨h, hall⟩ ha hnext
    refine ⟨Ledger.steady_next h hnext, ?_⟩
    rw [Ledger.missing_next h hnext, ha]
    simpa using hall
  · rintro l a l' ⟨h, _⟩ ha hnext
    exact ⟨Ledger.steady_next h hnext,
      (Ledger.missing_next h hnext).mpr (Or.inr (by simpa using ha))⟩
  · rintro l a l' ⟨h, hmissing⟩ hnext
    exact ⟨Ledger.steady_next h hnext, (Ledger.missing_next h hnext).mpr (Or.inl hmissing)⟩
  · rintro l ⟨_, hall⟩ ⟨_, hmissing⟩
    exact hall hmissing

private def offerAndFailedAnswer : List Step :=
  [.call .createOffer, .execute true, .execute true, .call (.onOfferRequest true "offer 1"),
    .execute true, .execute false, .execute true, .onFailure 1, .onSuccess 0 "offer 0",
    .setLocalDescription true, .report]

/-- Two calls overlap. The second, whose offer is rejected, fails before the first succeeds. -/
theorem outcomes_accounted_two_calls : ∃ t,
    run Ledger.next { session := { conductor := .initialized } } offerAndFailedAnswer = some t ∧
      t.calls = 2 ∧ t.session.outcomes = [0, 1] ∧ t.Accounted := by
  obtain ⟨t, ht, hcalls, houtcomes, hquiet⟩ : ∃ t,
      run Ledger.next { session := { conductor := .initialized } } offerAndFailedAnswer = some t ∧
        t.calls = 2 ∧ t.session.outcomes = [0, 1] ∧ t.session.Quiescent :=
    ⟨_, rfl, rfl, rfl, rfl, rfl, rfl⟩
  refine ⟨t, ht, hcalls, houtcomes, (outcomes_accounted_iff ⟨⟨_, rfl⟩, rfl⟩ ht hquiet).mpr ?_⟩
  simp [offerAndFailedAnswer, Step.understood]

/-- An offer that does not parse: nothing is pending afterwards and nothing was raised. -/
theorem unparsable_offer_unanswered : ∃ t,
    run Ledger.next { session := { conductor := .initialized } }
      [.call (.onOfferRequest false "not sdp"), .execute true] = some t ∧
      t.session.Quiescent ∧ t.calls = 1 ∧ t.session.outcomes = [] ∧ ¬ t.Accounted := by
  refine ⟨_, rfl, ⟨rfl, rfl, rfl⟩, rfl, rfl, ?_⟩
  intro haccounted
  cases haccounted.length_eq

end Spitfire.Conductor
