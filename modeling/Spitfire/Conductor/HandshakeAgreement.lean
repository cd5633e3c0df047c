import Spitfire.Conductor.HandshakeTurns

/-! That two instances agree on what they have negotiated. With one offer at a time, at most
one thing is ever under way: a statement, a request, a delivery or a message. Where it is
determines everything that the agreement depends on. -/
namespace Spitfire.Conductor
open Transition

variable {a : Step} {p q : Peer}

/-- How far a negotiation has come: what is under way, and where. -/
inductive Progress where
  | rest
  | calling
  | creating
  | tested (x : String)
  | applied (x : String)
  | offerSent (x : String)
  | requesting (x : String)
  | accepted (x : String)
  | answering (x : String) (inForce : Option String)
  | answerTested (x y : String)
  | answerApplied (x y : String)
  | answerSent (x y : String)
  | replying (x y : String)

/-- What is under way in a session. -/
structure Carries (s : Session) (agenda : List Statement) (requested : List Creation)
    (delivering : Option (Stage × Creation × String)) : Prop where
  agenda : s.agenda = agenda
  requested : s.requested = requested
  delivering : s.delivering = delivering

namespace Progress

def offererAgenda : Progress → List Statement
  | calling => [.createOffer]
  | replying _ y => [.setRemoteDescription .answer y]
  | _ => []

def offererRequested : Progress → List Creation
  | creating => [.offer]
  | _ => []

def offererDelivering : Progress → Option (Stage × Creation × String)
  | tested x => some (.tested, .offer, x)
  | applied x => some (.applied, .offer, x)
  | _ => none

def offers : Progress → List String
  | offerSent x => [x]
  | _ => []

def answererAgenda : Progress → List Statement
  | requesting x => [.setRemoteDescription .offer x, .createAnswer x]
  | accepted x => [.createAnswer x]
  | _ => []

def answererRequested : Progress → List Creation
  | answering x inForce => [.answer x inForce]
  | _ => []

def answererDelivering : Progress → Option (Stage × Creation × String)
  | answerTested x y => some (.tested, .answer x (some x), y)
  | answerApplied x y => some (.applied, .answer x (some x), y)
  | _ => none

def answers : Progress → List String
  | answerSent _ y => [y]
  | _ => []

/-- The application of the offering side has heard of the outcome. -/
def heard : Progress → Bool
  | rest | replying _ _ => true
  | _ => false

end Progress

/-- The offer is in force where it was made, and not answered there. -/
def Outstanding (h : Handshake) (x : String) : Prop :=
  h.offerer.localOffer = some x ∧ h.offerer.completed.Sublist h.answerer.completed

/-- The answering side has completed the exchange, the offering side has not. -/
def Answered (h : Handshake) (x y : String) : Prop :=
  h.offerer.localOffer = some x ∧
    ∃ es, h.answerer.completed = es ++ [⟨x, y⟩] ∧ h.offerer.completed.Sublist es

def Handshake.remoteOffer (h : Handshake) : Option String := h.answerer.session.remoteOffer

/-- What is in force on the two sides. -/
def Progress.Known (h : Handshake) : Progress → Prop
  | rest => (h.awaiting = false → h.remoteOffer = none) ∧ Agreement h
  | calling | creating | tested _ => h.remoteOffer = none ∧ Agreement h
  | applied x | offerSent x | requesting x => h.remoteOffer = none ∧ Outstanding h x
  | accepted x => (h.remoteOffer = none ∨ h.remoteOffer = some x) ∧ Outstanding h x
  | answering x inForce =>
    (h.remoteOffer = inForce ∧ (inForce = none ∨ inForce = some x)) ∧ Outstanding h x
  | answerTested x _ => h.remoteOffer = some x ∧ Outstanding h x
  | answerApplied x y | answerSent x y | replying x y => h.remoteOffer = none ∧ Answered h x y

/-- Nothing is under way but what this progress says. -/
structure At (h : Handshake) (g : Progress) : Prop where
  offerer : Carries h.offerer.session g.offererAgenda g.offererRequested g.offererDelivering
  answerer : Carries h.answerer.session g.answererAgenda g.answererRequested g.answererDelivering
  offers : h.offers = g.offers
  answers : h.answers = g.answers
  known : g.Known h
  heard : h.awaiting = false → g.heard = true

variable {h h' : Handshake} {g : Progress}

theorem Agreement.congr (hagree : Agreement h) (hofferer : SamePeer h.offerer h'.offerer)
    (hanswerer : SamePeer h.answerer h'.answerer) : Agreement h' := by
  obtain ⟨hsub, hlast⟩ := hagree
  refine ⟨?_, ?_⟩
  · rwa [hofferer.2, hanswerer.2]
  · rwa [hofferer.1, hofferer.2, hanswerer.2]

theorem Outstanding.congr {x : String} (hout : Outstanding h x)
    (hofferer : SamePeer h.offerer h'.offerer) (hanswerer : SamePeer h.answerer h'.answerer) :
    Outstanding h' x := by
  rwa [Outstanding, hofferer.1, hofferer.2, hanswerer.2]

theorem Answered.congr {x y : String} (hans : Answered h x y)
    (hofferer : SamePeer h.offerer h'.offerer) (hanswerer : SamePeer h.answerer h'.answerer) :
    Answered h' x y := by
  rwa [Answered, hofferer.1, hofferer.2, hanswerer.2]

theorem Outstanding.agreement {x : String} (hout : Outstanding h x) : Agreement h :=
  ⟨hout.2, fun hnone => nomatch hout.1.symm.trans hnone⟩

theorem Answered.agreement {x y : String} (hans : Answered h x y) : Agreement h := by
  obtain ⟨hoffer, es, hes, hsub⟩ := hans
  refine ⟨?_, fun hnone => nomatch hoffer.symm.trans hnone⟩
  rw [hes]
  exact hsub.trans (List.sublist_append_left es _)

theorem Progress.Known.congr (hknown : g.Known h) (hawaiting : h'.awaiting = h.awaiting)
    (hremote : h'.remoteOffer = h.remoteOffer) (hofferer : SamePeer h.offerer h'.offerer)
    (hanswerer : SamePeer h.answerer h'.answerer) : g.Known h' := by
  cases g with
  | rest =>
    refine ⟨?_, hknown.2.congr hofferer hanswerer⟩
    rw [hawaiting, hremote]
    exact hknown.1
  | calling | creating | tested x | applied x | offerSent x | requesting x | accepted x
  | answering x inForce | answerTested x y | answerApplied x y | answerSent x y | replying x y =>
    refine ⟨?_, hknown.2.congr hofferer hanswerer⟩
    rw [hremote]
    exact hknown.1

/-- What every progress says. -/
theorem Progress.Known.agreement (hknown : g.Known h) : Agreement h := by
  cases g with
  | rest | calling | creating | tested x => exact hknown.2
  | applied x | offerSent x | requesting x | accepted x | answering x inForce
  | answerTested x y => exact hknown.2.agreement
  | answerApplied x y | answerSent x y | replying x y => exact hknown.2.agreement

/-- The offering side takes a step, and what it reports is sent. -/
def Handshake.withOfferer (h : Handshake) (p : Peer) : Handshake :=
  { h with offerer := p, offers := h.offers ++ h.offerer.news p }

def Handshake.withAnswerer (h : Handshake) (p : Peer) : Handshake :=
  { h with answerer := p, answers := h.answers ++ h.answerer.news p }

theorem At.offers_of_reports (hat : At h g) (h' : p.session.reports = h.offerer.session.reports) :
    (h.withOfferer p).offers = g.offers := by
  rw [Handshake.withOfferer, news_of_reports h', List.append_nil, hat.offers]

theorem At.answers_of_reports (hat : At h g)
    (h' : p.session.reports = h.answerer.session.reports) :
    (h.withAnswerer p).answers = g.answers := by
  rw [Handshake.withAnswerer, news_of_reports h', List.append_nil, hat.answers]

theorem At.offererUnmoved (hat : At h g) (hnext : h.offerer.next a = some p)
    (hunmoved : Unmoved h.offerer.session a p.session) :
    g.Known (h.withOfferer p) ∧ (h.withOfferer p).offers = g.offers := by
  have hsame := peer_unmoved hnext hunmoved
  exact ⟨hat.known.congr rfl rfl hsame ⟨rfl, rfl⟩, hat.offers_of_reports hunmoved.reports⟩

theorem At.answererUnmoved (hat : At h g) (hnext : h.answerer.next a = some p)
    (hunmoved : Unmoved h.answerer.session a p.session) :
    g.Known (h.withAnswerer p) ∧ (h.withAnswerer p).answers = g.answers := by
  have hsame := peer_unmoved hnext hunmoved
  exact ⟨hat.known.congr rfl hunmoved.remoteOffer ⟨rfl, rfl⟩ hsame,
    hat.answers_of_reports hunmoved.reports⟩

/-- The offering side puts its offer into force. -/
theorem Agreement.offered {x : String} (hagree : Agreement h)
    (hlocal : p.localOffer = (h.offerer.settle (.localOffer x)).localOffer)
    (hcompleted : p.completed = (h.offerer.settle (.localOffer x)).completed) :
    Outstanding (h.withOfferer p) x := by
  refine ⟨hlocal, ?_⟩
  show p.completed.Sublist h.answerer.completed
  rw [hcompleted]
  exact hagree.sublist

/-- The answering side completes the exchange with its answer. -/
theorem Outstanding.answered {x y : String} (hout : Outstanding h x)
    (hremote : h.remoteOffer = some x)
    (hcompleted : p.completed = (h.answerer.settle (.localAnswer y)).completed) :
    Answered (h.withAnswerer p) x y := by
  refine ⟨hout.1, h.answerer.completed, ?_, hout.2⟩
  show p.completed = h.answerer.completed ++ [⟨x, y⟩]
  rw [hcompleted]
  show _ ++ (h.remoteOffer.toList.map _) = _
  rw [hremote]
  rfl

/-- The answer completes the exchange on the offering side as well. -/
theorem Answered.completes {x y : String} (hans : Answered h x y)
    (hcompleted : p.completed = (h.offerer.settle (.remoteAnswer y)).completed) :
    Agreement (h.withOfferer p) := by
  obtain ⟨hlocal, es, hes, hsub⟩ := hans
  have hp : p.completed = h.offerer.completed ++ [⟨x, y⟩] := by
    rw [hcompleted, Peer.settle, hlocal]
    rfl
  refine ⟨?_, fun _ => ?_⟩
  · show p.completed.Sublist h.answerer.completed
    rw [hp, hes]
    exact hsub.append_right _
  · show p.completed.getLast? = h.answerer.completed.getLast?
    rw [hp, hes, List.getLast?_concat, List.getLast?_concat]

/-- Some progress describes the handshake. -/
def Tracked (h : Handshake) : Prop := ∃ g, At h g

/-- A step of the offering side that is not a call. -/
theorem tracked_offerer (hat : At h g) (hnext : h.offerer.next a = some p)
    (hcall : a.isCall = false) (haccepts : a.acceptsLocal = true) : Tracked (h.withOfferer p) := by
  obtain ⟨hag, hreq, hdel⟩ := hat.offerer
  cases turn_of_next (peer_next hnext).1 hcall with
  | still hagenda hrequested hdelivering hunmoved =>
    obtain ⟨hknown, hoffers⟩ := hat.offererUnmoved hnext hunmoved
    exact ⟨g, ⟨hagenda.trans hag, hrequested.trans hreq, hdelivering.trans hdel⟩, hat.answerer,
      hoffers, hat.answers, hknown, hat.heard⟩
  | cut hagenda hrequested hdelivering hunmoved =>
    obtain ⟨hknown, hoffers⟩ := hat.offererUnmoved hnext hunmoved
    by_cases hnil : g.offererAgenda = []
    · exact ⟨g, ⟨hagenda.trans hnil.symm, hrequested.trans hreq, hdelivering.trans hdel⟩,
        hat.answerer, hoffers, hat.answers, hknown, hat.heard⟩
    cases g with
    | calling | replying x y =>
      exact ⟨.rest, ⟨hagenda, hrequested.trans hreq, hdelivering.trans hdel⟩, hat.answerer, hoffers,
        hat.answers, ⟨fun _ => hknown.1, hknown.agreement⟩, fun _ => rfl⟩
    | _ => exact (hnil rfl).elim
  | ask hagenda hc hrequested hdelivering hunmoved =>
    obtain ⟨hknown, hoffers⟩ := hat.offererUnmoved hnext hunmoved
    rw [hag] at hagenda
    rw [hreq] at hrequested
    cases g with
    | calling =>
      obtain ⟨rfl, hrest⟩ := List.cons.inj hagenda
      cases hc
      exact ⟨.creating, ⟨hrest.symm, hrequested, hdelivering.trans hdel⟩, hat.answerer, hoffers,
        hat.answers, hknown, hat.heard⟩
    | replying x y =>
      obtain ⟨rfl, hrest⟩ := List.cons.inj hagenda
      cases hc
    | _ => cases hagenda
  | remote hagenda hrequested hdelivering hreports heffect =>
    rw [hag] at hagenda
    cases g with
    | calling => cases (List.cons.inj hagenda).1
    | replying x y =>
      obtain ⟨hst, hrest⟩ := List.cons.inj hagenda
      cases hst
      have hcarries : Carries p.session [] [] none :=
        ⟨hrest.symm, hrequested.trans hreq, hdelivering.trans hdel⟩
      rcases heffect with hunmoved | ⟨hfault, -, hanswer⟩
      · obtain ⟨hknown, hoffers⟩ := hat.offererUnmoved hnext hunmoved
        exact ⟨.rest, hcarries, hat.answerer, hoffers, hat.answers,
          ⟨fun _ => hknown.1, hknown.agreement⟩, fun _ => rfl⟩
      · obtain ⟨-, hcompleted⟩ := peer_applied hnext hfault (hanswer rfl)
        exact ⟨.rest, hcarries, hat.answerer, hat.offers_of_reports hreports, hat.answers,
          ⟨fun _ => hat.known.1, hat.known.2.completes hcompleted⟩, fun _ => rfl⟩
    | _ => cases hagenda
  | @drop i c hagenda hc hrequested hdelivering hunmoved =>
    obtain ⟨hknown, hoffers⟩ := hat.offererUnmoved hnext hunmoved
    rw [hreq] at hc hrequested
    cases g with
    | creating =>
      obtain ⟨rfl, -⟩ := Option.ite_none_right_eq_some.mp
        (List.getElem?_singleton.symm.trans hc)
      exact ⟨.rest, ⟨hagenda.trans hag, hrequested, hdelivering.trans hdel⟩, hat.answerer, hoffers,
        hat.answers, ⟨fun _ => hknown.1, hknown.agreement⟩, fun _ => rfl⟩
    | _ => cases hc
  | @deliver i c sdp hagenda hc hpossible hrequested hdelivering hunmoved =>
    obtain ⟨hknown, hoffers⟩ := hat.offererUnmoved hnext hunmoved
    rw [hreq] at hc hrequested
    cases g with
    | creating =>
      obtain ⟨rfl, ⟨⟩⟩ := Option.ite_none_right_eq_some.mp
        (List.getElem?_singleton.symm.trans hc)
      exact ⟨.tested sdp, ⟨hagenda.trans hag, hrequested, hdelivering⟩, hat.answerer, hoffers,
        hat.answers, hknown, hat.heard⟩
    | _ => cases hc
  | @apply c sdp accepts ha hagenda hrequested hbefore hdelivering hreports heffect =>
    rw [hdel] at hbefore
    cases g with
    | tested x =>
      cases hbefore
      subst ha
      obtain ⟨hfault, -, happlied⟩ := heffect haccepts
      obtain ⟨hoffer, hcompleted⟩ := peer_applied hnext hfault happlied
      exact ⟨.applied sdp, ⟨hagenda.trans hag, hrequested.trans hreq, hdelivering⟩, hat.answerer,
        hat.offers_of_reports hreports, hat.answers,
        ⟨hat.known.1, hat.known.2.offered hoffer hcompleted⟩, hat.heard⟩
    | _ => cases hbefore
  | @report c sdp hagenda hrequested hbefore hdelivering hremote hreports happlied =>
    rw [hdel] at hbefore
    have hsame := peer_not_applied hnext happlied
    cases g with
    | applied x =>
      cases hbefore
      refine ⟨.offerSent sdp, ⟨hagenda.trans hag, hrequested.trans hreq, hdelivering⟩, hat.answerer,
        ?_, hat.answers, ⟨hat.known.1, hat.known.2.congr hsame ⟨rfl, rfl⟩⟩, hat.heard⟩
      rw [Handshake.withOfferer, news_of_report hreports, hat.offers]
      rfl
    | _ => cases hbefore

/-- The offering side still waits where the progress has not been heard of. -/
theorem At.waiting (hat : At h g) (hheard : g.heard = false) {P : Prop}
    (hawaiting : h.awaiting = false) : P :=
  (Bool.false_ne_true (hheard.symm.trans (hat.heard hawaiting))).elim

/-- A step of the answering side that is not a call. -/
theorem tracked_answerer (hat : At h g) (hnext : h.answerer.next a = some p)
    (hcall : a.isCall = false) (haccepts : a.acceptsLocal = true) : Tracked (h.withAnswerer p) := by
  obtain ⟨hag, hreq, hdel⟩ := hat.answerer
  cases turn_of_next (peer_next hnext).1 hcall with
  | still hagenda hrequested hdelivering hunmoved =>
    obtain ⟨hknown, hanswers⟩ := hat.answererUnmoved hnext hunmoved
    exact ⟨g, hat.offerer, ⟨hagenda.trans hag, hrequested.trans hreq, hdelivering.trans hdel⟩,
      hat.offers, hanswers, hknown, hat.heard⟩
  | cut hagenda hrequested hdelivering hunmoved =>
    obtain ⟨hknown, hanswers⟩ := hat.answererUnmoved hnext hunmoved
    by_cases hnil : g.answererAgenda = []
    · exact ⟨g, hat.offerer, ⟨hagenda.trans hnil.symm, hrequested.trans hreq,
        hdelivering.trans hdel⟩, hat.offers, hanswers, hknown, hat.heard⟩
    cases g with
    | requesting x | accepted x =>
      exact ⟨.rest, hat.offerer, ⟨hagenda, hrequested.trans hreq, hdelivering.trans hdel⟩,
        hat.offers, hanswers, ⟨hat.waiting rfl, hknown.agreement⟩, fun _ => rfl⟩
    | _ => exact (hnil rfl).elim
  | ask hagenda hc hrequested hdelivering hunmoved =>
    obtain ⟨hknown, hanswers⟩ := hat.answererUnmoved hnext hunmoved
    rw [hag] at hagenda
    rw [hreq] at hrequested
    cases g with
    | requesting x =>
      obtain ⟨rfl, hrest⟩ := List.cons.inj hagenda
      cases hc
    | accepted x =>
      obtain ⟨rfl, hrest⟩ := List.cons.inj hagenda
      cases hc
      -- The request remembers the remote offer that is in force.
      refine ⟨.answering x h.remoteOffer, hat.offerer,
        ⟨hrest.symm, hrequested, hdelivering.trans hdel⟩, hat.offers, hanswers,
        ⟨⟨hunmoved.remoteOffer, hat.known.1⟩, hknown.2⟩, hat.heard⟩
    | _ => cases hagenda
  | @remote type sdp hagenda hrequested hdelivering hreports heffect =>
    rw [hag] at hagenda
    cases g with
    | requesting x =>
      obtain ⟨hst, hrest⟩ := List.cons.inj hagenda
      cases hst
      have hcarries : Carries p.session [.createAnswer sdp] [] none :=
        ⟨hrest.symm, hrequested.trans hreq, hdelivering.trans hdel⟩
      rcases heffect with hunmoved | ⟨hfault, hoffer, -⟩
      · obtain ⟨hknown, hanswers⟩ := hat.answererUnmoved hnext hunmoved
        exact ⟨.accepted sdp, hat.offerer, hcarries, hat.offers, hanswers,
          ⟨Or.inl hknown.1, hknown.2⟩, hat.heard⟩
      · obtain ⟨hremote, happlied⟩ := hoffer rfl
        exact ⟨.accepted sdp, hat.offerer, hcarries, hat.offers, hat.answers_of_reports hreports,
          ⟨Or.inr hremote, hat.known.2.congr ⟨rfl, rfl⟩ (peer_not_applied hnext happlied)⟩,
          hat.heard⟩
    | accepted x => cases (List.cons.inj hagenda).1
    | _ => cases hagenda
  | drop hagenda hc hrequested hdelivering hunmoved =>
    obtain ⟨hknown, hanswers⟩ := hat.answererUnmoved hnext hunmoved
    rw [hreq] at hc hrequested
    cases g with
    | answering x inForce =>
      obtain ⟨rfl, -⟩ := Option.ite_none_right_eq_some.mp
        (List.getElem?_singleton.symm.trans hc)
      exact ⟨.rest, hat.offerer, ⟨hagenda.trans hag, hrequested, hdelivering.trans hdel⟩,
        hat.offers, hanswers, ⟨hat.waiting rfl, hknown.agreement⟩, fun _ => rfl⟩
    | _ => cases hc
  | @deliver i c sdp hagenda hc hpossible hrequested hdelivering hunmoved =>
    obtain ⟨hknown, hanswers⟩ := hat.answererUnmoved hnext hunmoved
    rw [hreq] at hc hrequested
    cases g with
    | answering x inForce =>
      obtain ⟨rfl, ⟨⟩⟩ := Option.ite_none_right_eq_some.mp
        (List.getElem?_singleton.symm.trans hc)
      -- An answer is only created while an offer is in force, which can only be this one.
      obtain ⟨⟨hremote, rfl | rfl⟩, hout⟩ := hknown
      · cases hpossible
      · exact ⟨.answerTested x sdp, hat.offerer, ⟨hagenda.trans hag, hrequested, hdelivering⟩,
          hat.offers, hanswers, ⟨hremote, hout⟩, hat.heard⟩
    | _ => cases hc
  | @apply c sdp accepts ha hagenda hrequested hbefore hdelivering hreports heffect =>
    rw [hdel] at hbefore
    cases g with
    | answerTested x y =>
      cases hbefore
      subst ha
      obtain ⟨hfault, hremote, happlied⟩ := heffect haccepts
      obtain ⟨-, hcompleted⟩ := peer_applied hnext hfault happlied
      obtain ⟨hoffer, hout⟩ := hat.known
      exact ⟨.answerApplied x sdp, hat.offerer,
        ⟨hagenda.trans hag, hrequested.trans hreq, hdelivering⟩, hat.offers,
        hat.answers_of_reports hreports, ⟨hremote, hout.answered hoffer hcompleted⟩, hat.heard⟩
    | _ => cases hbefore
  | @report c sdp hagenda hrequested hbefore hdelivering hremote hreports happlied =>
    rw [hdel] at hbefore
    have hsame := peer_not_applied hnext happlied
    cases g with
    | answerApplied x y =>
      cases hbefore
      refine ⟨.answerSent x sdp, hat.offerer,
        ⟨hagenda.trans hag, hrequested.trans hreq, hdelivering⟩, hat.offers, ?_,
        ⟨hremote.trans hat.known.1, hat.known.2.congr ⟨rfl, rfl⟩ hsame⟩, hat.heard⟩
      rw [Handshake.withAnswerer, news_of_report hreports, hat.answers]
      rfl
    | _ => cases hbefore

/-- A failed `CreateOffer` leaves everything as it was before. -/
theorem tracked_offererFails (hat : At h g) (hnext : h.offerer.next a = some p)
    (hfailure : a.isFailure = true) :
    Tracked { h.withOfferer p with awaiting := false } := by
  obtain ⟨hag, hreq, hdel⟩ := hat.offerer
  obtain ⟨hagenda, ⟨i, c, hc, hrequested⟩, hdelivering, hunmoved⟩ :=
    failure_of_next (peer_next hnext).1 hfailure
  obtain ⟨hknown, hoffers⟩ := hat.offererUnmoved hnext hunmoved
  rw [hreq] at hc hrequested
  cases g with
  | creating =>
    obtain ⟨rfl, -⟩ := Option.ite_none_right_eq_some.mp
      (List.getElem?_singleton.symm.trans hc)
    exact ⟨.rest, ⟨hagenda.trans hag, hrequested, hdelivering.trans hdel⟩, hat.answerer, hoffers,
      hat.answers, ⟨fun _ => hknown.1, hknown.agreement.congr ⟨rfl, rfl⟩ ⟨rfl, rfl⟩⟩, fun _ => rfl⟩
  | _ => cases hc

/-- A call only fills the agenda. -/
theorem peer_call {c : Call} (hnext : p.next (.call c) = some q) :
    p.session.agenda = [] ∧ SamePeer p q ∧
      Carries q.session (c.body.filter Statement.negotiates) p.session.requested
        p.session.delivering ∧ q.session.remoteOffer = p.session.remoteOffer := by
  obtain ⟨hagenda, hq⟩ := call_of_next (peer_next hnext).1
  have hsame := peer_not_applied hnext rfl
  rw [hq]
  exact ⟨hagenda, hsame, ⟨rfl, rfl, rfl⟩, rfl⟩

theorem onOfferRequest_agenda (parses : Bool) (x : String) :
    (Call.onOfferRequest parses x).body.filter Statement.negotiates =
      if parses then [.setRemoteDescription .offer x, .createAnswer x] else [] := by
  cases parses <;> rfl

theorem onOfferReply_agenda (parses : Bool) (y : String) :
    (Call.onOfferReply parses "answer" y).body.filter Statement.negotiates =
      if parses then [.setRemoteDescription .answer y] else [] := by
  cases parses <;> rfl

theorem deletePeerConnection_agenda (order : List Label) :
    (Call.deletePeerConnection order).body.filter Statement.negotiates = [] := by
  rw [Call.body, List.filter_eq_nil_iff]
  intro st hst
  obtain ⟨t, -, rfl⟩ := List.mem_map.mp hst
  exact Bool.false_ne_true

theorem tracked_createOffer (hat : At h g) (hawaiting : h.awaiting = false)
    (hnext : h.offerer.next (.call .createOffer) = some p) :
    Tracked { h with offerer := p, awaiting := true } := by
  obtain ⟨hidle, hsame, hcarries, -⟩ := peer_call hnext
  obtain ⟨hag, hreq, hdel⟩ := hat.offerer
  rw [hidle] at hag
  rw [hreq, hdel] at hcarries
  cases g with
  | rest =>
    obtain ⟨hremote, hagree⟩ := hat.known
    exact ⟨.calling, hcarries, hat.answerer, hat.offers, hat.answers,
      ⟨hremote hawaiting, hagree.congr hsame ⟨rfl, rfl⟩⟩, nofun⟩
  | replying x y => cases hag
  | _ => exact hat.waiting rfl hawaiting

theorem tracked_setOfferRequest (hat : At h g) {i : Nat} {parses : Bool} {x : String}
    (hx : h.offers[i]? = some x)
    (hnext : h.answerer.next (.call (.onOfferRequest parses x)) = some p) :
    Tracked { h with answerer := p, offers := h.offers.eraseIdx i } := by
  obtain ⟨hidle, hsame, hcarries, hremote⟩ := peer_call hnext
  obtain ⟨-, hreq, hdel⟩ := hat.answerer
  rw [hreq, hdel, onOfferRequest_agenda] at hcarries
  rw [hat.offers] at hx ⊢
  cases g with
  | offerSent z =>
    obtain ⟨rfl, ⟨⟩⟩ := Option.ite_none_right_eq_some.mp
      (List.getElem?_singleton.symm.trans hx)
    have hout : Outstanding { h with answerer := p, offers := [] } x :=
      hat.known.2.congr ⟨rfl, rfl⟩ hsame
    cases parses with
    | false => exact ⟨.rest, hat.offerer, hcarries, rfl, hat.answers,
        ⟨hat.waiting rfl, hout.agreement⟩, fun _ => rfl⟩
    | true => exact ⟨.requesting x, hat.offerer, hcarries, rfl, hat.answers,
        ⟨hremote.trans hat.known.1, hout⟩, hat.heard⟩
  | _ => cases hx

theorem tracked_setOfferReply (hat : At h g) {i : Nat} {parses : Bool} {y : String}
    (hy : h.answers[i]? = some y)
    (hnext : h.offerer.next (.call (.onOfferReply parses "answer" y)) = some p) :
    Tracked { h with offerer := p, answers := h.answers.eraseIdx i, awaiting := false } := by
  obtain ⟨hidle, hsame, hcarries, -⟩ := peer_call hnext
  obtain ⟨-, hreq, hdel⟩ := hat.offerer
  rw [hreq, hdel, onOfferReply_agenda] at hcarries
  rw [hat.answers] at hy ⊢
  cases g with
  | answerSent x z =>
    obtain ⟨rfl, ⟨⟩⟩ := Option.ite_none_right_eq_some.mp
      (List.getElem?_singleton.symm.trans hy)
    have hans : Answered { h with offerer := p, answers := [], awaiting := false } x y :=
      hat.known.2.congr hsame ⟨rfl, rfl⟩
    cases parses with
    | false => exact ⟨.rest, hcarries, hat.answerer, hat.offers, rfl,
        ⟨fun _ => hat.known.1, hans.agreement⟩, fun _ => rfl⟩
    | true => exact ⟨.replying x y, hcarries, hat.answerer, hat.offers, rfl,
        ⟨hat.known.1, hans⟩, fun _ => rfl⟩
  | _ => cases hy

theorem tracked_disposeOfferer (hat : At h g) {order : List Label}
    (hnext : h.offerer.next (.call (.deletePeerConnection order)) = some p) :
    Tracked { h with offerer := p } := by
  obtain ⟨hidle, hsame, hcarries, -⟩ := peer_call hnext
  obtain ⟨hag, hreq, hdel⟩ := hat.offerer
  rw [deletePeerConnection_agenda, ← hidle, hag, hreq, hdel] at hcarries
  exact ⟨g, hcarries, hat.answerer, hat.offers, hat.answers,
    hat.known.congr rfl rfl hsame ⟨rfl, rfl⟩, hat.heard⟩

theorem tracked_disposeAnswerer (hat : At h g) {order : List Label}
    (hnext : h.answerer.next (.call (.deletePeerConnection order)) = some p) :
    Tracked { h with answerer := p } := by
  obtain ⟨hidle, hsame, hcarries, hremote⟩ := peer_call hnext
  obtain ⟨hag, hreq, hdel⟩ := hat.answerer
  rw [deletePeerConnection_agenda, ← hidle, hag, hreq, hdel] at hcarries
  exact ⟨g, hat.offerer, hcarries, hat.offers, hat.answers,
    hat.known.congr rfl hremote ⟨rfl, rfl⟩ hsame, hat.heard⟩

theorem tracked_loseOffer (hat : At h g) {i : Nat} (hi : i < h.offers.length) :
    Tracked { h with offers := h.offers.eraseIdx i } := by
  rw [hat.offers] at hi ⊢
  cases g with
  | offerSent x =>
    obtain rfl : i = 0 := Nat.lt_one_iff.mp hi
    exact ⟨.rest, hat.offerer, hat.answerer, rfl, hat.answers,
      ⟨hat.waiting rfl, hat.known.agreement.congr ⟨rfl, rfl⟩ ⟨rfl, rfl⟩⟩, fun _ => rfl⟩
  | _ => cases hi

theorem tracked_loseAnswer (hat : At h g) {i : Nat} (hi : i < h.answers.length) :
    Tracked { h with answers := h.answers.eraseIdx i } := by
  rw [hat.answers] at hi ⊢
  cases g with
  | answerSent x y =>
    obtain rfl : i = 0 := Nat.lt_one_iff.mp hi
    exact ⟨.rest, hat.offerer, hat.answerer, hat.offers, rfl,
      ⟨hat.waiting rfl, hat.known.agreement.congr ⟨rfl, rfl⟩ ⟨rfl, rfl⟩⟩, fun _ => rfl⟩
  | _ => cases hi

theorem tracked_next {b : HandshakeStep} (h h' : Handshake) (htracked : Tracked h)
    (hguard : OneAtATime h b) (hnext : h.next b = some h') : Tracked h' := by
  obtain ⟨g, hat⟩ := htracked
  cases b with
  | createOffer =>
    obtain ⟨p, hp, ⟨⟩⟩ := Option.bind_eq_some_iff.mp hnext
    exact tracked_createOffer hat hguard hp
  | setOfferRequest i parses =>
    obtain ⟨x, hx, hnext⟩ := Option.bind_eq_some_iff.mp hnext
    obtain ⟨p, hp, ⟨⟩⟩ := Option.bind_eq_some_iff.mp hnext
    exact tracked_setOfferRequest hat hx hp
  | setOfferReply i parses =>
    obtain ⟨y, hy, hnext⟩ := Option.bind_eq_some_iff.mp hnext
    obtain ⟨p, hp, ⟨⟩⟩ := Option.bind_eq_some_iff.mp hnext
    exact tracked_setOfferReply hat hy hp
  | disposeOfferer order =>
    obtain ⟨p, hp, ⟨⟩⟩ := Option.bind_eq_some_iff.mp hnext
    exact tracked_disposeOfferer hat hp
  | disposeAnswerer order =>
    obtain ⟨p, hp, ⟨⟩⟩ := Option.bind_eq_some_iff.mp hnext
    exact tracked_disposeAnswerer hat hp
  | offerer a =>
    rw [Handshake.next] at hnext
    split at hnext
    · cases hnext
    · rename_i hcall
      obtain ⟨p, hp, ⟨⟩⟩ := Option.bind_eq_some_iff.mp hnext
      cases hfailure : a.isFailure with
      | false =>
        rw [Bool.not_false, Bool.and_true]
        exact tracked_offerer hat hp (Bool.eq_false_iff.mpr hcall) hguard
      | true =>
        rw [Bool.not_true, Bool.and_false]
        exact tracked_offererFails hat hp hfailure
  | answerer a =>
    rw [Handshake.next] at hnext
    split at hnext
    · cases hnext
    · rename_i hcall
      obtain ⟨p, hp, ⟨⟩⟩ := Option.bind_eq_some_iff.mp hnext
      exact tracked_answerer hat hp (Bool.eq_false_iff.mpr hcall) hguard
  | loseOffer i =>
    rw [Handshake.next] at hnext
    split at hnext
    · cases hnext
      exact tracked_loseOffer hat ‹_›
    · cases hnext
  | loseAnswer i =>
    rw [Handshake.next] at hnext
    split at hnext
    · cases hnext
      exact tracked_loseAnswer hat ‹_›
    · cases hnext

/-- Two sessions in which nothing has been negotiated. -/
def Handshake.fresh (c d : State) : Handshake where
  offerer := { session := { conductor := c } }
  answerer := { session := { conductor := d } }

theorem tracked_fresh (c d : State) : Tracked (Handshake.fresh c d) :=
  ⟨.rest, ⟨rfl, rfl, rfl⟩, ⟨rfl, rfl, rfl⟩, rfl, rfl, ⟨fun _ => rfl, .slnil, fun _ => rfl⟩,
    fun _ => rfl⟩

/-- However the threads of the two instances and the messages between them interleave, with
messages lost, remote descriptions rejected, creations failing and instances disposed at any
moment: if the application asks for one offer at a time and no local description is
rejected, every exchange that the offering side has completed was completed by the other,
with the same offer and the same answer. -/
theorem handshake_agreement {c d : State} {steps : List HandshakeStep} {t : Handshake}
    (hrun : run Handshake.next (.fresh c d) steps = some t)
    (hguard : Along Handshake.next OneAtATime (.fresh c d) steps) : Agreement t := by
  obtain ⟨g, hat⟩ := run_invariant_along
    (fun h b h' htracked hb hnext => tracked_next h h' htracked hb hnext)
    (tracked_fresh c d) hrun hguard
  exact hat.known.agreement

/-- The steps of one undisturbed round. -/
def negotiateOnce (x y : String) : List HandshakeStep :=
  [.createOffer, .offerer (.execute true), .offerer (.execute true), .offerer (.onSuccess 0 x),
    .offerer (.setLocalDescription true), .offerer .report,
    .setOfferRequest 0 true, .answerer (.execute true), .answerer (.execute true),
    .answerer (.execute true), .answerer (.onSuccess 0 y), .answerer (.setLocalDescription true),
    .answerer .report,
    .setOfferReply 0 true, .offerer (.execute true), .offerer (.execute true)]

/-- Two rounds, of which the second loses its answer. -/
theorem handshake_agreement_lost_answer : ∃ t,
    run Handshake.next (.fresh .initialized .initialized)
      (negotiateOnce "o1" "a1" ++ (negotiateOnce "o2" "a2").take 13 ++ [.loseAnswer 0]) = some t ∧
    t.offerer.completed = [⟨"o1", "a1"⟩] ∧
    t.answerer.completed = [⟨"o1", "a1"⟩, ⟨"o2", "a2"⟩] ∧ Agreement t := by
  have hcompleted : (run Handshake.next (.fresh .initialized .initialized)
      (negotiateOnce "o1" "a1" ++ (negotiateOnce "o2" "a2").take 13 ++ [.loseAnswer 0])).map
        (fun t => (t.offerer.completed, t.answerer.completed)) =
      some ([⟨"o1", "a1"⟩], [⟨"o1", "a1"⟩, ⟨"o2", "a2"⟩]) := by
    decide +kernel
  obtain ⟨t, ht, hboth⟩ := Option.map_eq_some_iff.mp hcompleted
  refine ⟨t, ht, congrArg Prod.fst hboth, congrArg Prod.snd hboth, handshake_agreement ht ?_⟩
  decide +kernel

-- With a second offer while the first is on its way, the answer to the first meets the second.
example : (run Handshake.next (.fresh .initialized .initialized)
    ((negotiateOnce "o1" "a1").take 13 ++ (negotiateOnce "o2" "a2").take 6 ++
      (negotiateOnce "o1" "a1").drop 13)).map
        (fun t => (t.offerer.completed, t.answerer.completed)) =
    some ([⟨"o2", "a1"⟩], [⟨"o1", "a1"⟩]) := by
  decide +kernel

end Spitfire.Conductor
