import Spitfire.Conductor.Session

/-! Whether what is reported is what was applied. An answer is requested whether or not
the offer it is for was accepted, and a description is reported whether or not it was. -/
namespace Spitfire.Conductor
open Transition

/-- The answer, if it is one, is for the offer that its call was given. -/
def Creation.Answers : Creation → Prop
  | .offer => True
  | .answer requested inForce => inForce = some requested

/-- The reported description was accepted, and answers the offer of its own call. -/
def Report.Faithful (s : Session) (r : Report) : Prop :=
  r.request.id ∈ s.accepted ∧ r.request.creation.Answers

/-- Every answer is requested right after its offer has been passed on. -/
def Paired : List Statement → Prop
  | [] => True
  | st :: rest => Paired rest ∧
      ∀ offer, rest.head? = some (.createAnswer offer) → st = .setRemoteDescription .offer offer

theorem createSessionDescription_offer {parses : Bool} {t : SdpType}
    (h : createSessionDescription parses "offer" = some t) : t = .offer := by
  unfold createSessionDescription at h
  split at h
  · exact (Option.some.inj h).symm
  · cases h

theorem paired_teardown (ts : List Teardown) : Paired (ts.map .teardown) := by
  induction ts with
  | nil => trivial
  | cons t ts ih =>
    refine ⟨ih, fun offer h => ?_⟩
    cases ts <;> cases h

theorem paired_body (c : Call) :
    Paired c.body ∧ ∀ offer, c.body.head? ≠ some (.createAnswer offer) := by
  cases c with
  | createOffer => simp [Call.body, Paired]
  | onOfferReply parses type sdp =>
    rw [Call.body]
    split <;> simp [Paired]
  | onOfferRequest parses sdp =>
    rw [Call.body]
    split
    · simp [Paired]
    · rename_i t ht
      obtain rfl := createSessionDescription_offer ht
      simp [Paired]
  | deletePeerConnection order => exact ⟨paired_teardown _, fun offer h => by cases h⟩

/-- No answer is for another offer than that of its call, and what has been applied or
reported was accepted. -/
structure Honest (s : Session) : Prop where
  paired : Paired s.todo
  inForce : ∀ offer, s.todo.head? = some (.createAnswer offer) →
    s.remoteOffer = none ∨ s.remoteOffer = some offer
  pending : ∀ r ∈ s.pending, r.creation.possible = true → r.creation.Answers
  delivery : ∀ d, s.delivery = some d → d.request.creation.Answers ∧
    (d.stage = .applied → d.request.id ∈ s.accepted)
  reports : ∀ r ∈ s.reports, r.Faithful s

/-- `SetLocalDescription` accepts what `OnSuccess` gives it, and `SetRemoteDescription` does
not reject the offer of an `OnOfferRequest` while a different offer is in force. -/
def Agreeable (s : Session) : Step → Prop
  | .setLocalDescription accepts => accepts = true
  | .execute accepts => ∀ offer rest,
      s.todo = .setRemoteDescription .offer offer :: .createAnswer offer :: rest →
      accepts = true ∨ s.remoteOffer = none ∨ s.remoteOffer = some offer
  | _ => True

section
variable {s : Session} {st : Statement} {rest todo : List Statement}

/-- After a statement its call goes on or is over. If an answer is requested next, the
statement has just passed on the offer. -/
theorem Honest.successor (h : Honest s) (htodo : s.todo = st :: rest)
    (hrest : todo = rest ∨ todo = []) : Paired todo ∧ ∀ offer,
      todo.head? = some (.createAnswer offer) →
        todo = rest ∧ st = .setRemoteDescription .offer offer := by
  have hpaired := h.paired
  rw [htodo] at hpaired
  rcases hrest with rfl | rfl
  · exact ⟨hpaired.1, fun offer hoffer => ⟨rfl, hpaired.2 offer hoffer⟩⟩
  · refine ⟨trivial, fun offer hoffer => ?_⟩
    cases hoffer

theorem Honest.advance (h : Honest s) (c : State) (hpaired : Paired todo) {remote : Option String}
    (hforce : ∀ offer, todo.head? = some (.createAnswer offer) →
      remote = none ∨ remote = some offer) :
    Honest { s with conductor := c, todo := todo, remoteOffer := remote } :=
  ⟨hpaired, hforce, h.pending, h.delivery, h.reports⟩

theorem Honest.issue (h : Honest s) {creation : Creation}
    (hcreation : creation.possible = true → creation.Answers) : Honest (s.issue creation) := by
  refine ⟨h.paired, h.inForce, ?_, h.delivery, h.reports⟩
  intro r hr hpossible
  rcases List.mem_append.mp hr with hr | hr
  · exact h.pending r hr hpossible
  · obtain rfl := List.mem_singleton.mp hr
    exact hcreation hpossible

/-- An accepted offer is in force when its answer is requested; where it is rejected, no
other one is. -/
theorem honest_setRemote (h : Honest s) {accepts : Bool} (hagree : Agreeable s (.execute accepts))
    {c : State} {type : SdpType} {sdp : String}
    (htodo : s.todo = .setRemoteDescription type sdp :: rest) (hrest : todo = rest ∨ todo = []) :
    Honest ({ s with conductor := c, todo := todo }.perform accepts
      (.setRemoteDescription type sdp)) := by
  obtain ⟨hpaired, hnext⟩ := h.successor htodo hrest
  rw [Session.perform]
  split
  · cases type with
    | offer =>
      refine h.advance c hpaired fun offer hoffer => ?_
      obtain ⟨-, hst⟩ := hnext offer hoffer
      cases hst
      exact Or.inr rfl
    | pranswer =>
      refine h.advance c hpaired fun offer hoffer => ?_
      obtain ⟨-, hst⟩ := hnext offer hoffer
      cases hst
    | answer | rollback => exact h.advance c hpaired fun _ _ => Or.inl rfl
  · rename_i hrejected
    refine h.advance c hpaired fun offer hoffer => ?_
    obtain ⟨rfl, hst⟩ := hnext offer hoffer
    cases hst
    obtain ⟨post, rfl⟩ := List.head?_eq_some_iff.mp hoffer
    rcases hagree sdp post htodo with haccepted | hforce
    · exact (hrejected haccepted).elim
    · exact hforce

/-- The library's side of a statement: an answer is for the offer in force. -/
theorem honest_perform (h : Honest s) {accepts : Bool} (hagree : Agreeable s (.execute accepts))
    {c : State} (htodo : s.todo = st :: rest) (hrest : todo = rest ∨ todo = []) :
    Honest ({ s with conductor := c, todo := todo }.perform accepts st) := by
  obtain ⟨hpaired, hnext⟩ := h.successor htodo hrest
  have hadvance (hst : ∀ offer, st ≠ .setRemoteDescription .offer offer) :
      Honest { s with conductor := c, todo := todo } :=
    h.advance c hpaired fun offer hoffer => (hst offer (hnext offer hoffer).2).elim
  cases st with
  | testConnection => exact hadvance (by simp)
  | teardown t => exact hadvance (by simp)
  | createOffer => exact (hadvance (by simp)).issue fun _ => trivial
  | createAnswer offer =>
    refine (hadvance (by simp)).issue fun hpossible => ?_
    rcases h.inForce offer (by rw [htodo]; rfl) with hnone | hsome
    · simp [Creation.possible, hnone] at hpossible
    · exact hsome
  | setRemoteDescription type sdp => exact honest_setRemote h hagree htodo hrest

end

theorem honest_next (s : Session) (a : Step) (t : Session) (h : Honest s) (hagree : Agreeable s a)
    (hnext : s.next a = some t) : Honest t := by
  have htake (i : Nat) : ∀ r ∈ s.pending.eraseIdx i, r.creation.possible = true →
      r.creation.Answers := fun r hr => h.pending r (List.mem_of_mem_eraseIdx hr)
  obtain ⟨hfault, hmove⟩ := move_of_next hnext
  cases hmove with
  | call hidle =>
    obtain ⟨hpaired, hhead⟩ := paired_body _
    exact ⟨hpaired, fun offer h => (hhead offer h).elim, h.pending, h.delivery, h.reports⟩
  | executeFaults htodo hexec => exact ⟨h.paired, h.inForce, h.pending, h.delivery, h.reports⟩
  | @execute st rest goesOn c accepts htodo hwaits hexec =>
    refine honest_perform h hagree htodo ?_
    cases goesOn
    · exact Or.inr rfl
    · exact Or.inl rfl
  | onFailure hidle hr => exact ⟨h.paired, h.inForce, htake _, h.delivery, h.reports⟩
  | onSuccessFaults hidle hr hnull => exact ⟨h.paired, h.inForce, htake _, h.delivery, h.reports⟩
  | onSuccessReturns hidle hr hnone => exact ⟨h.paired, h.inForce, htake _, h.delivery, h.reports⟩
  | onSuccess hidle hr hpossible hsome =>
    refine ⟨h.paired, h.inForce, htake _, ?_, h.reports⟩
    intro d hd
    cases hd
    exact ⟨h.pending _ (List.mem_of_getElem? hr) hpossible, fun hstage => by cases hstage⟩
  | setLocalFaults hd hnull => exact ⟨h.paired, h.inForce, h.pending, h.delivery, h.reports⟩
  | setLocalNull hd hnull => exact ⟨h.paired, h.inForce, h.pending, h.delivery, h.reports⟩
  | @setLocal r sdp n accepts hd hsome =>
    obtain rfl : accepts = true := hagree
    refine ⟨h.paired, ?_, h.pending, ?_, ?_⟩
    · intro offer hoffer
      cases hc : r.creation with
      | offer =>
        simp only [Session.apply, if_true, hc]
        exact h.inForce offer hoffer
      | answer requested inForce =>
        left
        simp only [Session.apply, if_true, hc]
    · intro d hd'
      cases hd'
      exact ⟨(h.delivery _ hd).1, fun _ => List.mem_append_right _ (List.mem_singleton_self _)⟩
    · intro r hr
      obtain ⟨haccepted, hanswers⟩ := h.reports r hr
      exact ⟨List.mem_append_left _ haccepted, hanswers⟩
  | report hd =>
    refine ⟨h.paired, h.inForce, h.pending, fun d hd => (by cases hd), ?_⟩
    intro r hr
    rcases List.mem_append.mp hr with hr | hr
    · exact h.reports r hr
    · obtain rfl := List.mem_singleton.mp hr
      obtain ⟨hanswers, haccepted⟩ := h.delivery _ hd
      exact ⟨haccepted rfl, hanswers⟩

/-- In every run in which `SetLocalDescription` accepts what it is given and no offer of an
`OnOfferRequest` is rejected while a different one is in force, every reported description
has been accepted, and every reported answer is for the offer of its own call. -/
theorem reports_faithful {c : State} {steps : List Step} {t : Session}
    (hrun : run Session.next { conductor := c } steps = some t)
    (hagree : Along Session.next Agreeable { conductor := c } steps) :
    ∀ r ∈ t.reports, r.Faithful t := by
  have hstart : Honest { conductor := c } :=
    ⟨trivial, fun _ h => (by cases h), fun _ h => (by cases h), fun _ h => (by cases h),
      fun _ h => (by cases h)⟩
  exact (run_invariant_along honest_next hstart hrun hagree).reports

private def answerOneOffer : List Step :=
  [.call (.onOfferRequest true "offer 1"), .execute true, .execute true, .execute true,
    .onSuccess 0 "answer 1", .setLocalDescription true, .report]

/-- One offer is accepted, answered and the answer applied and reported. -/
theorem reports_faithful_one_answer : ∃ t,
    run Session.next { conductor := .initialized } answerOneOffer = some t ∧
      t.reports = [⟨⟨0, .answer "offer 1" (some "offer 1")⟩, "answer 1"⟩] ∧
      ∀ r ∈ t.reports, r.Faithful t := by
  have hreports : (run Session.next { conductor := .initialized } answerOneOffer).map
      Session.reports = some [⟨⟨0, .answer "offer 1" (some "offer 1")⟩, "answer 1"⟩] := by
    decide +kernel
  obtain ⟨t, ht, hreports⟩ := Option.map_eq_some_iff.mp hreports
  refine ⟨t, ht, hreports, reports_faithful ht ?_⟩
  simp [answerOneOffer, Along, Agreeable]

/-- An offer that `SetLocalDescription` rejects is reported all the same. And when no answer
to a first offer could be made and a second offer is rejected, the second request reports
an answer to the first. -/
theorem reports_rejected :
    (run Session.next { conductor := .initialized }
      [.call .createOffer, .execute true, .execute true, .onSuccess 0 "offer 0",
        .setLocalDescription false, .report]).map (fun t => (t.accepted, t.reports)) =
      some ([], [⟨⟨0, .offer⟩, "offer 0"⟩]) ∧
    (run Session.next { conductor := .initialized }
      [.call (.onOfferRequest true "offer 1"), .execute true, .execute true, .execute true,
        .onFailure 0, .call (.onOfferRequest true "offer 2"), .execute true, .execute false,
        .execute true, .onSuccess 0 "answer", .setLocalDescription true, .report]).map
          (fun t => (t.accepted, t.reports)) =
      some ([1], [⟨⟨1, .answer "offer 2" (some "offer 1")⟩, "answer"⟩]) := by
  decide +kernel

end Spitfire.Conductor
