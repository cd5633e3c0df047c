import Spitfire.Conductor.HandshakeAgreement
import Spitfire.Conductor.Trickle

/-! That a negotiation comes to its end. Where nothing is lost and nothing fails, there is one
thing to do at a time until the exchange is completed on both sides. -/
namespace Spitfire.Conductor
open Transition

/-- What a session is at. -/
inductive Work where
  | idle
  | executing (st : Statement) (rest : List Statement)
  | requested (c : Creation)
  | tested (c : Creation) (sdp : String)
  | applied (c : Creation) (sdp : String)

namespace Work

def ofTodo : List Statement → Work
  | [] => idle
  | st :: rest => executing st rest

def todo : Work → List Statement
  | executing st rest => st :: rest
  | _ => []

def asked : Work → List Creation
  | requested c => [c]
  | _ => []

def delivering : Work → Option (Stage × Creation × String)
  | tested c sdp => some (.tested, c, sdp)
  | applied c sdp => some (.applied, c, sdp)
  | _ => none

/-- What comes next. A request is answered with a description of the library's. -/
def after (remoteOffer : Option String) (sdp : String) : Work → Work
  | idle => idle
  | executing .createOffer _ => requested .offer
  | executing (.createAnswer x) _ => requested (.answer x remoteOffer)
  | executing _ rest => ofTodo rest
  | requested c => tested c sdp
  | tested c x => applied c x
  | applied _ _ => idle

/-- What is put into force by it. -/
def applies : Work → Option Applied
  | executing (.setRemoteDescription .answer y) _ => some (.remoteAnswer y)
  | executing (.setRemoteDescription .rollback _) _ => some .rollback
  | tested c x => some (if c = .offer then .localOffer x else .localAnswer x)
  | _ => none

/-- The remote offer in force after it. -/
def settles (remoteOffer : Option String) : Work → Option String
  | executing (.setRemoteDescription .offer x) _ => some x
  | executing (.setRemoteDescription .answer _) _ => none
  | executing (.setRemoteDescription .rollback _) _ => none
  | tested (.answer _ _) _ => none
  | _ => remoteOffer

def news : Work → List String
  | applied _ x => [x]
  | _ => []

/-- A description is asked for in the last statement of a call, and an answer where there is
an offer. -/
def Regular : Work → Prop
  | executing .createOffer rest | executing (.createAnswer _) rest => rest = []
  | requested c => c.possible = true
  | _ => True

theorem todo_ofTodo (sts : List Statement) : (ofTodo sts).todo = sts := by
  cases sts <;> rfl

theorem asked_ofTodo (sts : List Statement) : (ofTodo sts).asked = [] := by
  cases sts <;> rfl

theorem delivering_ofTodo (sts : List Statement) : (ofTodo sts).delivering = none := by
  cases sts <;> rfl

end Work

/-- A session that has its connection is at this and at nothing else. -/
structure Session.Works (s : Session) (w : Work) : Prop where
  fault : s.fault = none
  lasting : s.Lasting
  todo : s.todo = w.todo
  asked : s.requested = w.asked
  delivering : s.delivering = w.delivering

/-- The library neither fails nor rejects. -/
def Step.succeeds : Step → Bool
  | .execute accepts | .setLocalDescription accepts => accepts
  | .onFailure _ => false
  | _ => true

/-- One piece of work is done. -/
structure Worked (s : Session) (a : Step) (w : Work) (sdp : String) (t : Session) : Prop where
  busy : w ≠ .idle
  works : t.Works (w.after s.remoteOffer sdp)
  applied : s.applied a = w.applies
  remoteOffer : t.remoteOffer = w.settles s.remoteOffer
  reports : t.reports.map Report.sdp = s.reports.map Report.sdp ++ w.news

variable {s t : Session} {a : Step} {w : Work}

theorem Session.Works.executing (h : s.Works w) {st : Statement} {rest : List Statement}
    (htodo : s.todo = st :: rest) : w = .executing st rest := by
  have htodo' := h.todo.symm.trans htodo
  cases w with
  | executing st' rest' =>
    obtain ⟨rfl, rfl⟩ := List.cons.inj htodo'
    rfl
  | idle | requested _ | tested _ _ | applied _ _ => cases htodo'

theorem Session.Works.requested (h : s.Works w) {i : Nat} {r : Request}
    (hr : s.pending[i]? = some r) : i = 0 ∧ w = .requested r.creation := by
  have hc := requested_getElem? hr
  rw [h.asked] at hc
  cases w with
  | requested c =>
    obtain ⟨rfl, ⟨⟩⟩ := Option.ite_none_right_eq_some.mp
      (List.getElem?_singleton.symm.trans hc)
    exact ⟨rfl, rfl⟩
  | idle | executing _ _ | tested _ _ | applied _ _ => cases hc

theorem Session.Works.delivers (h : s.Works w) {d : Delivery} (hd : s.delivery = some d) :
    w.delivering = some (d.stage, d.request.creation, d.sdp) := by
  rw [← h.delivering, Session.delivering, hd]
  rfl

theorem Session.Lasting.connection (h : s.Lasting) : ∃ n, s.conductor.connection = .ok n := by
  obtain ⟨⟨n, hn⟩, -⟩ := h.connected
  exact ⟨n, by rw [State.connection, hn]⟩

/-- A statement is executed. -/
theorem worked_execute {st : Statement} {rest : List Statement} {c : State}
    (h : s.Works (.executing st rest)) (hregular : (Work.executing st rest).Regular)
    (hlasting : ({ s with conductor := c, todo := rest }.perform true st).Lasting) :
    Worked s (.execute true) (.executing st rest) ""
      ({ s with conductor := c, todo := rest }.perform true st) := by
  have happlied (hst : st.settles = false) := applied_execute h.todo hst true
  have hrest {t : Session} (ht : t.Lasting) (hfault : t.fault = none) (htodo : t.todo = rest)
      (hpending : t.pending = s.pending) (hdelivery : t.delivery = s.delivery) :
      t.Works (.ofTodo rest) :=
    ⟨hfault, ht, htodo.trans (Work.todo_ofTodo rest).symm,
      (congrArg (List.map Request.creation) hpending).trans
        (h.asked.trans (Work.asked_ofTodo rest).symm),
      (congrArg (Option.map _) hdelivery).trans
        (h.delivering.trans (Work.delivering_ofTodo rest).symm)⟩
  have hasks {t : Session} {r : Request} (ht : t.Lasting) (hfault : t.fault = none)
      (hnil : rest = []) (htodo : t.todo = rest) (hpending : t.pending = s.pending ++ [r])
      (hdelivery : t.delivery = s.delivery) : t.Works (.requested r.creation) := by
    refine ⟨hfault, ht, htodo.trans hnil, ?_,
      (congrArg (Option.map _) hdelivery).trans h.delivering⟩
    rw [Session.requested, hpending, List.map_append]
    exact congrArg (· ++ [r.creation]) h.asked
  have hreports : s.reports.map Report.sdp = s.reports.map Report.sdp ++ [] := by simp
  cases st with
  | testConnection =>
    exact ⟨by simp, hrest hlasting h.fault rfl rfl rfl, happlied rfl, rfl, hreports⟩
  | createOffer =>
    exact ⟨by simp, hasks (r := ⟨s.issued, .offer⟩) hlasting h.fault hregular rfl rfl rfl,
      happlied rfl, rfl, hreports⟩
  | createAnswer x =>
    exact ⟨by simp, hasks (r := ⟨s.issued, .answer x s.remoteOffer⟩) hlasting h.fault hregular rfl
      rfl rfl, happlied rfl, rfl, hreports⟩
  | teardown x => exact (h.lasting.plain _ (by rw [h.todo]; exact List.mem_cons_self) x rfl).elim
  | setRemoteDescription type sdp =>
    cases type with
    | offer =>
      exact ⟨by simp, hrest hlasting h.fault rfl rfl rfl, happlied rfl, rfl, hreports⟩
    | pranswer =>
      exact ⟨by simp, hrest hlasting h.fault rfl rfl rfl, happlied rfl, rfl, hreports⟩
    | answer | rollback =>
      refine ⟨by simp, hrest hlasting h.fault rfl rfl rfl, ?_, rfl, hreports⟩
      rw [Session.applied, h.todo]
      rfl

theorem worked_of_next (h : s.Works w) (hregular : w.Regular) (hcall : a.isCall = false)
    (hsucceeds : a.succeeds = true) (hnext : s.next a = some t) : ∃ sdp, Worked s a w sdp t := by
  have hlasting := lasting_next h.lasting (fun order ha => by rw [ha] at hcall; cases hcall) hnext
  obtain ⟨⟨n, hn⟩, hset⟩ := h.lasting.connected
  obtain ⟨hfault, hmove⟩ := move_of_next hnext
  have hreports : s.reports.map Report.sdp = s.reports.map Report.sdp ++ [] := by simp
  cases hmove with
  | call hidle => cases hcall
  | executeFaults htodo hexec =>
    obtain ⟨c, hok, -⟩ :=
      h.lasting.connected.exec (h.lasting.plain _ (by rw [htodo]; exact List.mem_cons_self))
    cases hok.symm.trans hexec
  | @execute st rest goesOn c accepts htodo hwaits hexec =>
    obtain ⟨c', hok, -⟩ :=
      h.lasting.connected.exec (h.lasting.plain st (by rw [htodo]; exact List.mem_cons_self))
    obtain ⟨rfl, rfl⟩ := Prod.mk.inj (Except.ok.inj (hok.symm.trans hexec))
    obtain rfl := h.executing htodo
    obtain rfl : accepts = true := hsucceeds
    exact ⟨"", worked_execute h hregular hlasting⟩
  | onFailure hidle hr => cases hsucceeds
  | onSuccessFaults hidle hr hnull => cases hn.symm.trans hnull
  | onSuccessReturns hidle hr hnone => cases hn.symm.trans hnone
  | @onSuccess i sdp r m hidle hr hpossible hsome =>
    obtain ⟨rfl, rfl⟩ := h.requested hr
    refine ⟨sdp, by simp, ⟨h.fault, hlasting, h.todo, ?_, rfl⟩, rfl, rfl, hreports⟩
    show (s.take 0).requested = []
    rw [requested_take, h.asked]
    rfl
  | setLocalFaults hd hnull =>
    obtain ⟨m, hm⟩ := h.lasting.connection
    cases hm.symm.trans hnull
  | setLocalNull hd hnull => cases hset.symm.trans hnull
  | @setLocal r sdp m accepts hd hsome =>
    obtain rfl : accepts = true := hsucceeds
    have hw := h.delivers hd
    cases w with
    | tested c x =>
      cases hw
      refine ⟨"", by simp, ⟨h.fault, hlasting, h.todo, h.asked, rfl⟩, ?_, ?_, hreports⟩
      · rw [Session.applied, hd]
        rfl
      · simp only [Session.apply, if_true]
        cases r.creation <;> rfl
    | idle | executing _ _ | requested _ | applied _ _ => cases hw
  | @report r sdp hd =>
    have hw := h.delivers hd
    cases w with
    | applied c x =>
      cases hw
      exact ⟨"", by simp, ⟨h.fault, hlasting, h.todo, h.asked, rfl⟩, rfl, rfl, by simp [Work.news]⟩
    | idle | executing _ _ | requested _ | tested _ _ => cases hw

/-- There is always a way to go on with it. -/
theorem Session.Works.enabled (h : s.Works w) (hregular : w.Regular) (hbusy : w ≠ .idle) :
    ∃ a, a.isCall = false ∧ a.succeeds = true ∧ (s.next a).isSome = true := by
  obtain ⟨⟨n, hn⟩, hset⟩ := h.lasting.connected
  have hfault : ¬s.fault.isSome = true := by simp [h.fault]
  cases w with
  | idle => exact (hbusy rfl).elim
  | executing st rest =>
    have hplain := h.lasting.plain st (by rw [h.todo]; exact List.mem_cons_self)
    obtain ⟨c, hok, -⟩ := h.lasting.connected.exec hplain
    have hwaits : s.waits st = false := by simp [Session.waits, hplain]
    refine ⟨.execute true, rfl, rfl, ?_⟩
    simp [Session.next, hfault, Session.execute, h.todo, Work.todo, hwaits, hok]
  | requested c =>
    obtain ⟨r, hr, rfl⟩ := List.map_eq_singleton_iff.mp h.asked
    have hdelivery : s.delivery = none := Option.map_eq_none_iff.mp h.delivering
    have hpossible : r.creation.possible = true := hregular
    refine ⟨.onSuccess 0 "", rfl, rfl, ?_⟩
    simp [Session.next, hfault, Session.onSuccess, hdelivery, hr, hpossible, hn]
  | tested c sdp =>
    obtain ⟨⟨stage, r, x⟩, hd, hx⟩ := Option.map_eq_some_iff.mp h.delivering
    obtain ⟨rfl, -⟩ := Prod.mk.inj hx
    refine ⟨.setLocalDescription true, rfl, rfl, ?_⟩
    simp [Session.next, hfault, Session.setLocalDescription, hd, State.connection, hn, hset]
  | applied c sdp =>
    obtain ⟨⟨stage, r, x⟩, hd, hx⟩ := Option.map_eq_some_iff.mp h.delivering
    obtain ⟨rfl, -⟩ := Prod.mk.inj hx
    refine ⟨.report, rfl, rfl, ?_⟩
    simp [Session.next, hfault, Session.report, hd]

/-- The application makes a call where nothing is under way. -/
theorem Session.Works.call (h : s.Works .idle) (c : Call) (hplain : ∀ order,
    c ≠ .deletePeerConnection order) : ∃ t, s.next (.call c) = some t ∧
      t.Works (.ofTodo c.body) ∧ t.remoteOffer = s.remoteOffer := by
  have hnext : s.next (.call c) = some { s with todo := c.body } := by
    simp [Session.next, h.fault, Session.call, h.todo, Work.todo]
  have hlasting := lasting_next h.lasting (by simpa using hplain) hnext
  refine ⟨_, hnext, ⟨h.fault, hlasting, ?_, ?_, ?_⟩, rfl⟩
  · exact (Work.todo_ofTodo _).symm
  · exact h.asked.trans (Work.asked_ofTodo _).symm
  · exact h.delivering.trans (Work.delivering_ofTodo _).symm

variable {p q : Peer}

/-- What the work of a session is to its peer. -/
theorem peer_worked {sdp : String} (hnext : p.next a = some q)
    (h : Worked p.session a w sdp q.session) :
    q.localOffer = (w.applies.elim p p.settle).localOffer ∧
      q.completed = (w.applies.elim p p.settle).completed ∧ p.news q = w.news := by
  have hnews : p.news q = w.news := by
    rw [Peer.news, List.map_drop, h.reports, List.drop_left' (List.length_map _)]
  rcases (peer_next hnext).2 with ⟨hfault, _⟩ | ⟨_, hq⟩
  · exact (hfault h.works.fault).elim
  · rw [h.applied] at hq
    rw [hq] at hnews ⊢
    exact ⟨rfl, rfl, hnews⟩

/-- How far a round has come, and with which descriptions. -/
inductive Leg where
  | rest
  | offererTest
  | offererAsk
  | offerRequested
  | offerTested (x : String)
  | offerApplied (x : String)
  | offerSent (x : String)
  | answererTest (x : String)
  | answererSet (x : String)
  | answererAsk (x : String)
  | answerRequested (x : String)
  | answerTested (x y : String)
  | answerApplied (x y : String)
  | answerSent (x y : String)
  | replyTest (x y : String)
  | replySet (x y : String)

namespace Leg

def offererWork : Leg → Work
  | offererTest => .executing .testConnection [.createOffer]
  | offererAsk => .executing .createOffer []
  | offerRequested => .requested .offer
  | offerTested x => .tested .offer x
  | offerApplied x => .applied .offer x
  | replyTest _ y => .executing .testConnection [.setRemoteDescription .answer y]
  | replySet _ y => .executing (.setRemoteDescription .answer y) []
  | _ => .idle

def answererWork : Leg → Work
  | answererTest x => .executing .testConnection [.setRemoteDescription .offer x, .createAnswer x]
  | answererSet x => .executing (.setRemoteDescription .offer x) [.createAnswer x]
  | answererAsk x => .executing (.createAnswer x) []
  | answerRequested x => .requested (.answer x (some x))
  | answerTested x y => .tested (.answer x (some x)) y
  | answerApplied x y => .applied (.answer x (some x)) y
  | _ => .idle

def offers : Leg → List String
  | offerSent x => [x]
  | _ => []

def answers : Leg → List String
  | answerSent _ y => [y]
  | _ => []

/-- The offer in force at the answering side. -/
def remoteOffer : Leg → Option String
  | answererAsk x | answerRequested x | answerTested x _ => some x
  | _ => none

/-- The offer in force at the offering side. -/
def localOffer : Leg → Option String
  | rest | offererTest | offererAsk | offerRequested | offerTested _ => none
  | offerApplied x | offerSent x | answererTest x | answererSet x | answererAsk x
  | answerRequested x | answerTested x _ | answerApplied x _ | answerSent x _ | replyTest x _
  | replySet x _ => some x

/-- What only the answering side has completed yet. -/
def ahead : Leg → List Exchange
  | answerApplied x y | answerSent x y | replyTest x y | replySet x y => [⟨x, y⟩]
  | _ => []

def awaiting : Leg → Bool
  | rest | replyTest _ _ | replySet _ _ => false
  | _ => true

/-- The offering side has not completed the round. -/
def unfinished : Leg → Nat
  | rest => 0
  | _ => 1

/-- The steps to the end of the round. -/
def remaining : Leg → Nat
  | rest => 0
  | offererTest => 15
  | offererAsk => 14
  | offerRequested => 13
  | offerTested _ => 12
  | offerApplied _ => 11
  | offerSent _ => 10
  | answererTest _ => 9
  | answererSet _ => 8
  | answererAsk _ => 7
  | answerRequested _ => 6
  | answerTested _ _ => 5
  | answerApplied _ _ => 4
  | answerSent _ _ => 3
  | replyTest _ _ => 2
  | replySet _ _ => 1

/-- The leg that follows. -/
def after (sdp : String) : Leg → Leg
  | rest => offererTest
  | offererTest => offererAsk
  | offererAsk => offerRequested
  | offerRequested => offerTested sdp
  | offerTested x => offerApplied x
  | offerApplied x => offerSent x
  | offerSent x => answererTest x
  | answererTest x => answererSet x
  | answererSet x => answererAsk x
  | answererAsk x => answerRequested x
  | answerRequested x => answerTested x sdp
  | answerTested x y => answerApplied x y
  | answerApplied x y => answerSent x y
  | answerSent x y => replyTest x y
  | replyTest x y => replySet x y
  | replySet _ _ => rest

theorem remaining_after (sdp : String) {g : Leg} (hg : g ≠ rest) :
    (g.after sdp).remaining + 1 = g.remaining := by
  cases g with
  | rest => exact (hg rfl).elim
  | _ => rfl

theorem remaining_eq_zero (g : Leg) : g.remaining = 0 ↔ g = rest := by
  cases g <;> simp [remaining]

theorem offererWork_regular (g : Leg) : g.offererWork.Regular := by
  cases g <;> trivial

theorem answererWork_regular (g : Leg) : g.answererWork.Regular := by
  cases g <;> trivial

end Leg

/-- The handshake is on this leg of its `n`th round, and all rounds before are completed. -/
structure On (h : Handshake) (g : Leg) (n : Nat) : Prop where
  offerer : h.offerer.session.Works g.offererWork
  answerer : h.answerer.session.Works g.answererWork
  offers : h.offers = g.offers
  answers : h.answers = g.answers
  remoteOffer : h.remoteOffer = g.remoteOffer
  localOffer : h.offerer.localOffer = g.localOffer
  completed : h.answerer.completed = h.offerer.completed ++ g.ahead
  awaiting : h.awaiting = g.awaiting
  rounds : h.offerer.completed.length + g.unfinished = n

variable {h h' : Handshake} {g : Leg} {n : Nat}

theorem On.offererStep (hon : On h g n) (hnext : h.offerer.next a = some p)
    (hcall : a.isCall = false) (hsucceeds : a.succeeds = true) :
    g ≠ .rest ∧ ∃ sdp, On (h.withOfferer p) (g.after sdp) n := by
  obtain ⟨sdp, hworked⟩ := worked_of_next hon.offerer g.offererWork_regular hcall hsucceeds
    (peer_next hnext).1
  have hworks := hworked.works
  obtain ⟨hlocal, hcompleted, hnews⟩ := peer_worked hnext hworked
  have hoffers : (h.withOfferer p).offers = g.offers ++ g.offererWork.news := by
    rw [Handshake.withOfferer, hnews, hon.offers]
  refine ⟨fun hrest => hworked.busy (by rw [hrest]; rfl), sdp, ?_⟩
  cases g with
  | offererTest | offererAsk | offerRequested | offerApplied x | replyTest x y =>
    -- Nothing comes into force.
    refine ⟨hworks, hon.answerer, hoffers, hon.answers, hon.remoteOffer,
      hlocal.trans hon.localOffer, ?_, hon.awaiting, ?_⟩
    · exact hon.completed.trans (congrArg (· ++ _) hcompleted.symm)
    · exact (congrArg (List.length · + 1) hcompleted).trans hon.rounds
  | offerTested x =>
    refine ⟨hworks, hon.answerer, hoffers, hon.answers, hon.remoteOffer, hlocal, ?_,
      hon.awaiting, ?_⟩
    · exact hon.completed.trans (congrArg (· ++ []) hcompleted.symm)
    · exact (congrArg (List.length · + 1) hcompleted).trans hon.rounds
  | replySet x y =>
    -- The answer meets the offer that is in force.
    have hp : p.completed = h.offerer.completed ++ [⟨x, y⟩] := by
      rw [hcompleted]
      show _ ++ h.offerer.localOffer.toList.map _ = _
      rw [hon.localOffer]
      rfl
    refine ⟨hworks, hon.answerer, hoffers, hon.answers, hon.remoteOffer, hlocal, ?_,
      hon.awaiting, ?_⟩
    · show h.answerer.completed = p.completed ++ []
      rw [hp, List.append_nil]
      exact hon.completed
    · show p.completed.length = n
      rw [hp, List.length_append]
      exact hon.rounds
  | rest | offerSent _ | answererTest _ | answererSet _ | answererAsk _ | answerRequested _
  | answerTested _ _ | answerApplied _ _ | answerSent _ _ => exact (hworked.busy rfl).elim

theorem On.answererStep (hon : On h g n) (hnext : h.answerer.next a = some p)
    (hcall : a.isCall = false) (hsucceeds : a.succeeds = true) :
    g ≠ .rest ∧ ∃ sdp, On (h.withAnswerer p) (g.after sdp) n := by
  obtain ⟨sdp, hworked⟩ := worked_of_next hon.answerer g.answererWork_regular hcall hsucceeds
    (peer_next hnext).1
  have hworks := hworked.works
  have hremote := hworked.remoteOffer
  rw [show h.answerer.session.remoteOffer = _ from hon.remoteOffer] at hworks hremote
  obtain ⟨-, hcompleted, hnews⟩ := peer_worked hnext hworked
  have hanswers : (h.withAnswerer p).answers = g.answers ++ g.answererWork.news := by
    rw [Handshake.withAnswerer, hnews, hon.answers]
  refine ⟨fun hrest => hworked.busy (by rw [hrest]; rfl), sdp, ?_⟩
  cases g with
  | answererTest x | answererSet x | answererAsk x | answerRequested x | answerApplied x y =>
    exact ⟨hon.offerer, hworks, hon.offers, hanswers, hremote, hon.localOffer,
      hcompleted.trans hon.completed, hon.awaiting, hon.rounds⟩
  | answerTested x y =>
    refine ⟨hon.offerer, hworks, hon.offers, hanswers, hremote, hon.localOffer, ?_, hon.awaiting,
      hon.rounds⟩
    -- The answer meets the offer that was handed over.
    show p.completed = h.offerer.completed ++ [⟨x, y⟩]
    rw [hcompleted]
    show h.answerer.completed ++ h.remoteOffer.toList.map _ = _
    rw [hon.remoteOffer, hon.completed]
    simp [Leg.remoteOffer, Leg.ahead]
  | rest | offererTest | offererAsk | offerRequested | offerTested _ | offerApplied _
  | offerSent _ | answerSent _ _ | replyTest _ _ | replySet _ _ => exact (hworked.busy rfl).elim

/-- One offer at a time, and whatever the library and the signaling are given goes through. -/
def Smooth (h : Handshake) : HandshakeStep → Prop
  | .createOffer => h.awaiting = false
  | .setOfferRequest _ parses | .setOfferReply _ parses => parses = true
  | .offerer a | .answerer a => a.succeeds = true
  | .disposeOfferer _ | .disposeAnswerer _ | .loseOffer _ | .loseAnswer _ => False

instance (h : Handshake) : (b : HandshakeStep) → Decidable (Smooth h b)
  | .createOffer => inferInstanceAs (Decidable (_ = false))
  | .setOfferRequest _ _ | .setOfferReply _ _ | .offerer _ | .answerer _ =>
    inferInstanceAs (Decidable (_ = true))
  | .disposeOfferer _ | .disposeAnswerer _ | .loseOffer _ | .loseAnswer _ =>
    inferInstanceAs (Decidable False)

/-- What a call does to a peer whose session is idle. -/
theorem peer_called {c : Call} (hidle : p.session.Works .idle)
    (hplain : ∀ order, c ≠ .deletePeerConnection order) (hnext : p.next (.call c) = some q) :
    q.session.Works (.ofTodo c.body) ∧ q.session.remoteOffer = p.session.remoteOffer ∧
      SamePeer p q := by
  obtain ⟨t, ht, hworks, hremote⟩ := hidle.call c hplain
  obtain rfl := Option.some.inj (ht.symm.trans (peer_next hnext).1)
  exact ⟨hworks, hremote, peer_not_applied hnext rfl⟩

theorem On.createOffer (hon : On h g n) (hawaiting : h.awaiting = false)
    (hnext : h.offerer.next (.call .createOffer) = some p) :
    g = .rest ∧ On { h with offerer := p, awaiting := true } .offererTest (n + 1) := by
  obtain ⟨hidle, -⟩ := call_of_next (peer_next hnext).1
  rw [Session.agenda, hon.offerer.todo] at hidle
  rw [hon.awaiting] at hawaiting
  cases g with
  | rest =>
    obtain ⟨hworks, -, hlocal, hcompleted⟩ := peer_called hon.offerer (by simp) hnext
    refine ⟨rfl, hworks, hon.answerer, hon.offers, hon.answers, hon.remoteOffer,
      hlocal.trans hon.localOffer, ?_, rfl, ?_⟩
    · exact hon.completed.trans (congrArg (· ++ []) hcompleted.symm)
    · exact congrArg (· + 1) ((congrArg List.length hcompleted).trans hon.rounds)
  | replyTest x y | replySet x y => cases hidle
  | _ => cases hawaiting

theorem On.setOfferRequest (hon : On h g n) {i : Nat} {x : String} (hx : h.offers[i]? = some x)
    (hnext : h.answerer.next (.call (.onOfferRequest true x)) = some p) : g ≠ .rest ∧
      ∃ sdp, On { h with answerer := p, offers := h.offers.eraseIdx i } (g.after sdp) n := by
  rw [hon.offers] at hx ⊢
  cases g with
  | offerSent z =>
    obtain ⟨rfl, ⟨⟩⟩ := Option.ite_none_right_eq_some.mp
      (List.getElem?_singleton.symm.trans hx)
    obtain ⟨hworks, hremote, -, hcompleted⟩ := peer_called hon.answerer (by simp) hnext
    exact ⟨by simp, "", hon.offerer, hworks, rfl, hon.answers, hremote.trans hon.remoteOffer,
      hon.localOffer, hcompleted.trans hon.completed, hon.awaiting, hon.rounds⟩
  | _ => cases hx

theorem On.setOfferReply (hon : On h g n) {i : Nat} {y : String} (hy : h.answers[i]? = some y)
    (hnext : h.offerer.next (.call (.onOfferReply true "answer" y)) = some p) : g ≠ .rest ∧
      ∃ sdp, On { h with offerer := p, answers := h.answers.eraseIdx i, awaiting := false }
        (g.after sdp) n := by
  rw [hon.answers] at hy ⊢
  cases g with
  | answerSent x z =>
    obtain ⟨rfl, ⟨⟩⟩ := Option.ite_none_right_eq_some.mp
      (List.getElem?_singleton.symm.trans hy)
    obtain ⟨hworks, -, hlocal, hcompleted⟩ := peer_called hon.offerer (by simp) hnext
    refine ⟨by simp, "", hworks, hon.answerer, hon.offers, rfl, hon.remoteOffer,
      hlocal.trans hon.localOffer, ?_, rfl, ?_⟩
    · exact hon.completed.trans (congrArg (· ++ [Exchange.mk x y]) hcompleted.symm)
    · exact (congrArg (List.length · + 1) hcompleted).trans hon.rounds
  | _ => cases hy

/-- Every step leads to the next leg, and only a round that is at its end is followed by
another. -/
theorem on_next {b : HandshakeStep} (hon : On h g n) (hsmooth : Smooth h b)
    (hnext : h.next b = some h') : ∃ sdp, On h' (g.after sdp) (n + [b].count .createOffer) ∧
      (g.after sdp).remaining + 1 = g.remaining + 16 * [b].count .createOffer := by
  have hleg {h' : Handshake} (hstep : g ≠ .rest ∧ ∃ sdp, On h' (g.after sdp) n) :
      ∃ sdp, On h' (g.after sdp) n ∧ (g.after sdp).remaining + 1 = g.remaining := by
    obtain ⟨hg, sdp, hon'⟩ := hstep
    exact ⟨sdp, hon', Leg.remaining_after sdp hg⟩
  cases b with
  | createOffer =>
    obtain ⟨p, hp, ⟨⟩⟩ := Option.bind_eq_some_iff.mp hnext
    obtain ⟨rfl, hon'⟩ := hon.createOffer hsmooth hp
    exact ⟨"", hon', rfl⟩
  | setOfferRequest i parses =>
    obtain rfl : parses = true := hsmooth
    obtain ⟨x, hx, hnext⟩ := Option.bind_eq_some_iff.mp hnext
    obtain ⟨p, hp, ⟨⟩⟩ := Option.bind_eq_some_iff.mp hnext
    exact hleg (hon.setOfferRequest hx hp)
  | setOfferReply i parses =>
    obtain rfl : parses = true := hsmooth
    obtain ⟨y, hy, hnext⟩ := Option.bind_eq_some_iff.mp hnext
    obtain ⟨p, hp, ⟨⟩⟩ := Option.bind_eq_some_iff.mp hnext
    exact hleg (hon.setOfferReply hy hp)
  | offerer a =>
    rw [Handshake.next] at hnext
    split at hnext
    · cases hnext
    · rename_i hcall
      obtain ⟨p, hp, ⟨⟩⟩ := Option.bind_eq_some_iff.mp hnext
      have hfailure : a.isFailure = false := by
        cases a with
        | onFailure i => cases hsmooth
        | _ => rfl
      rw [hfailure, Bool.not_false, Bool.and_true]
      exact hleg (hon.offererStep hp (Bool.eq_false_iff.mpr hcall) hsmooth)
  | answerer a =>
    rw [Handshake.next] at hnext
    split at hnext
    · cases hnext
    · rename_i hcall
      obtain ⟨p, hp, ⟨⟩⟩ := Option.bind_eq_some_iff.mp hnext
      exact hleg (hon.answererStep hp (Bool.eq_false_iff.mpr hcall) hsmooth)
  | disposeOfferer _ | disposeAnswerer _ | loseOffer _ | loseAnswer _ => exact hsmooth.elim

theorem on_run {steps : List HandshakeStep} {t : Handshake} (hon : On h g n)
    (hrun : run Handshake.next h steps = some t) (hsmooth : Along Handshake.next Smooth h steps) :
    ∃ g', On t g' (n + steps.count .createOffer) ∧
      steps.length + g'.remaining = g.remaining + 16 * steps.count .createOffer := by
  induction steps generalizing h g n with
  | nil =>
    cases hrun
    exact ⟨g, hon, Nat.zero_add _⟩
  | cons b steps ih =>
    obtain ⟨m, hm, hrun⟩ := run_cons_eq_some.mp hrun
    obtain ⟨sdp, hon₁, hfirst⟩ := on_next hon hsmooth.1 hm
    obtain ⟨g', hon', hrest⟩ := ih hon₁ hrun (hsmooth.2 m hm)
    have hcount : (b :: steps).count .createOffer =
        [b].count .createOffer + steps.count .createOffer := by
      rw [← List.count_append, List.singleton_append]
    refine ⟨g', ?_, ?_⟩
    · rw [hcount, ← Nat.add_assoc]
      exact hon'
    · rw [List.length_cons, hcount]
      omega

theorem peer_next_isSome (h : (p.session.next a).isSome = true) : ∃ q, p.next a = some q := by
  rw [← Option.isSome_iff_exists, Peer.next, Option.isSome_map]
  exact h

/-- On every leg but the first there is a way on. -/
theorem On.enabled (hon : On h g n) (hg : g ≠ .rest) :
    ∃ b, b ≠ .createOffer ∧ Smooth h b ∧ (h.next b).isSome = true := by
  have hofferer (hbusy : g.offererWork ≠ .idle) :
      ∃ b, b ≠ .createOffer ∧ Smooth h b ∧ (h.next b).isSome = true := by
    obtain ⟨a, hcall, hsucceeds, hsome⟩ := hon.offerer.enabled g.offererWork_regular hbusy
    obtain ⟨q, hq⟩ := peer_next_isSome hsome
    exact ⟨.offerer a, by simp, hsucceeds, by simp [Handshake.next, hcall, hq]⟩
  have hanswerer (hbusy : g.answererWork ≠ .idle) :
      ∃ b, b ≠ .createOffer ∧ Smooth h b ∧ (h.next b).isSome = true := by
    obtain ⟨a, hcall, hsucceeds, hsome⟩ := hon.answerer.enabled g.answererWork_regular hbusy
    obtain ⟨q, hq⟩ := peer_next_isSome hsome
    exact ⟨.answerer a, by simp, hsucceeds, by simp [Handshake.next, hcall, hq]⟩
  cases g with
  | rest => exact (hg rfl).elim
  | offererTest | offererAsk | offerRequested | offerTested x | offerApplied x | replyTest x y
  | replySet x y => exact hofferer (by simp [Leg.offererWork])
  | answererTest x | answererSet x | answererAsk x | answerRequested x | answerTested x y
  | answerApplied x y => exact hanswerer (by simp [Leg.answererWork])
  | offerSent x =>
    obtain ⟨t, ht, -⟩ := hon.answerer.call (.onOfferRequest true x) (by simp)
    obtain ⟨q, hq⟩ := peer_next_isSome (Option.isSome_of_eq_some ht)
    refine ⟨.setOfferRequest 0 true, by simp, rfl, ?_⟩
    simp [Handshake.next, hon.offers, Leg.offers, hq]
  | answerSent x y =>
    obtain ⟨t, ht, -⟩ := hon.offerer.call (.onOfferReply true "answer" y) (by simp)
    obtain ⟨q, hq⟩ := peer_next_isSome (Option.isSome_of_eq_some ht)
    refine ⟨.setOfferReply 0 true, by simp, rfl, ?_⟩
    simp [Handshake.next, hon.answers, Leg.answers, hq]

/-- Neither side nor the signaling has anything left to do. -/
def Handshake.Quiescent (h : Handshake) : Prop :=
  ∀ b, b ≠ .createOffer → Smooth h b → h.next b = none

theorem On.quiescent_iff (hon : On h g n) : h.Quiescent ↔ g = .rest := by
  constructor
  · intro hquiescent
    by_contra hg
    obtain ⟨b, hb, hsmooth, hsome⟩ := hon.enabled hg
    rw [hquiescent b hb hsmooth] at hsome
    cases hsome
  · rintro rfl b hb hsmooth
    cases hnext : h.next b with
    | none => rfl
    | some h' =>
      obtain ⟨sdp, -, hremaining⟩ := on_next hon hsmooth hnext
      have hcount : [b].count .createOffer = 0 := List.count_eq_zero.mpr (by simpa using hb.symm)
      rw [hcount] at hremaining
      cases hremaining

theorem on_fresh {c d : State} (hc : Connected c) (hd : Connected d) : On (.fresh c d) .rest 0 :=
  ⟨⟨rfl, ⟨hc, by simp [Handshake.fresh]⟩, rfl, rfl, rfl⟩,
    ⟨rfl, ⟨hd, by simp [Handshake.fresh]⟩, rfl, rfl, rfl⟩, rfl, rfl, rfl, rfl, rfl, rfl, rfl⟩

/-- However the threads and the messages of two connected instances interleave: if nothing is
lost, rejected or disposed and the application asks for one offer at a time, there is nothing
left to do after sixteen steps for each offer and not before; and then both sides have completed
the same exchanges, one for each offer. -/
theorem handshake_completes {c d : State} (hc : Connected c) (hd : Connected d)
    {steps : List HandshakeStep} {t : Handshake}
    (hrun : run Handshake.next (.fresh c d) steps = some t)
    (hsmooth : Along Handshake.next Smooth (.fresh c d) steps) :
    steps.length ≤ 16 * steps.count .createOffer ∧
      (t.Quiescent ↔ steps.length = 16 * steps.count .createOffer) ∧
      (t.Quiescent → t.offerer.completed = t.answerer.completed ∧
        t.offerer.completed.length = steps.count .createOffer) := by
  obtain ⟨g, hon, hlength⟩ := on_run (on_fresh hc hd) hrun hsmooth
  have hspent : steps.length + g.remaining = 16 * steps.count .createOffer :=
    hlength.trans (Nat.zero_add _)
  refine ⟨hspent ▸ Nat.le_add_right _ _, ?_, ?_⟩
  · rw [hon.quiescent_iff, ← g.remaining_eq_zero, ← hspent]
    exact Nat.left_eq_add.symm
  · intro hquiescent
    obtain rfl := hon.quiescent_iff.mp hquiescent
    refine ⟨?_, hon.rounds.trans (Nat.zero_add _)⟩
    rw [hon.completed]
    exact (List.append_nil _).symm

/-- Two rounds. -/
theorem handshake_completes_twice : ∃ t,
    run Handshake.next (.fresh .initialized .initialized)
      (negotiateOnce "o1" "a1" ++ negotiateOnce "o2" "a2") = some t ∧
    t.Quiescent ∧ t.offerer.completed = t.answerer.completed ∧ t.offerer.completed.length = 2 := by
  have hdefined : (run Handshake.next (.fresh .initialized .initialized)
      (negotiateOnce "o1" "a1" ++ negotiateOnce "o2" "a2")).isSome = true := by
    decide +kernel
  have hsmooth : Along Handshake.next Smooth (.fresh .initialized .initialized)
      (negotiateOnce "o1" "a1" ++ negotiateOnce "o2" "a2") := by
    decide +kernel
  have hconnected : Connected .initialized := ⟨⟨_, rfl⟩, rfl⟩
  obtain ⟨t, ht⟩ := Option.isSome_iff_exists.mp hdefined
  obtain ⟨-, hiff, hcompleted⟩ := handshake_completes hconnected hconnected ht hsmooth
  have hquiescent : t.Quiescent := hiff.mpr (by decide)
  exact ⟨t, ht, hquiescent, hcompleted hquiescent⟩

end Spitfire.Conductor
