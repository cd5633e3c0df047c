import Mathlib.Data.List.InsertIdx
import Spitfire.Conductor.Handshake

/-! What a step of one side does to a negotiation. A session is seen as what it carries on:
the statements, requests and the delivery that are under way. -/
namespace Spitfire.Conductor
open Transition

/-- A statement that is a part of a negotiation. -/
def Statement.negotiates : Statement → Bool
  | .testConnection | .teardown _ => false
  | _ => true

namespace Session
variable (s : Session)

/-- What is left to execute of a negotiation. -/
def agenda : List Statement := s.todo.filter Statement.negotiates

def requested : List Creation := s.pending.map Request.creation

def delivering : Option (Stage × Creation × String) :=
  s.delivery.map fun d => (d.stage, d.request.creation, d.sdp)

/-- The request that a statement makes. -/
def asks : Statement → Option Creation
  | .createOffer => some .offer
  | .createAnswer x => some (.answer x s.remoteOffer)
  | _ => none

end Session

/-- Nothing is applied or reported. -/
structure Unmoved (s : Session) (a : Step) (t : Session) : Prop where
  remoteOffer : t.remoteOffer = s.remoteOffer
  reports : t.reports = s.reports
  applied : t.fault = none → s.applied a = none

/-- What a step that is not a call can do to a negotiation. -/
inductive Turn (s : Session) (a : Step) (t : Session) : Prop
  | still (hagenda : t.agenda = s.agenda) (hrequested : t.requested = s.requested)
      (hdelivering : t.delivering = s.delivering) (hunmoved : Unmoved s a t)
  | cut (hagenda : t.agenda = []) (hrequested : t.requested = s.requested)
      (hdelivering : t.delivering = s.delivering) (hunmoved : Unmoved s a t)
  | ask {st : Statement} {c : Creation} (hagenda : s.agenda = st :: t.agenda)
      (hc : s.asks st = some c) (hrequested : t.requested = s.requested ++ [c])
      (hdelivering : t.delivering = s.delivering) (hunmoved : Unmoved s a t)
  | remote {type : SdpType} {sdp : String}
      (hagenda : s.agenda = .setRemoteDescription type sdp :: t.agenda)
      (hrequested : t.requested = s.requested) (hdelivering : t.delivering = s.delivering)
      (hreports : t.reports = s.reports)
      (heffect : Unmoved s a t ∨ t.fault = none ∧ (type = .offer → t.remoteOffer = some sdp ∧
        s.applied a = none) ∧ (type = .answer → s.applied a = some (.remoteAnswer sdp)))
  | drop {i : Nat} {c : Creation} (hagenda : t.agenda = s.agenda) (hc : s.requested[i]? = some c)
      (hrequested : t.requested = s.requested.eraseIdx i) (hdelivering : t.delivering = s.delivering)
      (hunmoved : Unmoved s a t)
  | deliver {i : Nat} {c : Creation} {sdp : String} (hagenda : t.agenda = s.agenda)
      (hc : s.requested[i]? = some c) (hpossible : c.possible = true)
      (hrequested : t.requested = s.requested.eraseIdx i)
      (hdelivering : t.delivering = some (.tested, c, sdp)) (hunmoved : Unmoved s a t)
  | apply {c : Creation} {sdp : String} {accepts : Bool} (ha : a = .setLocalDescription accepts)
      (hagenda : t.agenda = s.agenda) (hrequested : t.requested = s.requested)
      (hbefore : s.delivering = some (.tested, c, sdp))
      (hdelivering : t.delivering = some (.applied, c, sdp)) (hreports : t.reports = s.reports)
      (heffect : accepts = true → t.fault = none ∧
        t.remoteOffer = (if c = .offer then s.remoteOffer else none) ∧
        s.applied a = some (if c = .offer then .localOffer sdp else .localAnswer sdp))
  | report {c : Creation} {sdp : String} (hagenda : t.agenda = s.agenda)
      (hrequested : t.requested = s.requested) (hbefore : s.delivering = some (.applied, c, sdp))
      (hdelivering : t.delivering = none) (hremote : t.remoteOffer = s.remoteOffer)
      (hreports : t.reports.map Report.sdp = s.reports.map Report.sdp ++ [sdp])
      (happlied : s.applied a = none)

variable {s t : Session} {a : Step}

theorem unmoved_of_fault (hremote : t.remoteOffer = s.remoteOffer) (hreports : t.reports = s.reports)
    (hfault : t.fault ≠ none) : Unmoved s a t :=
  ⟨hremote, hreports, fun h => (hfault h).elim⟩

theorem requested_getElem? {i : Nat} {r : Request} (hr : s.pending[i]? = some r) :
    s.requested[i]? = some r.creation := by
  simp [Session.requested, hr]

theorem requested_take (s : Session) (i : Nat) : (s.take i).requested = s.requested.eraseIdx i := by
  exact (List.eraseIdx_map ..).symm

/-- The statement may do more than ask for a description or pass on an offer. -/
def Statement.settles : Statement → Bool
  | .setRemoteDescription .answer _ | .setRemoteDescription .rollback _ => true
  | _ => false

theorem applied_execute {st : Statement} {rest : List Statement} (htodo : s.todo = st :: rest)
    (hst : st.settles = false) (accepts : Bool) : s.applied (.execute accepts) = none := by
  cases accepts with
  | false => rfl
  | true =>
    rw [Session.applied, htodo]
    dsimp only [List.head?_cons]
    split
    · rename_i sdp hhead
      cases hhead
      cases hst
    · rename_i sdp hhead
      cases hhead
      cases hst
    · rfl

/-- A statement of the call in progress. -/
theorem turn_of_execute {st : Statement} {rest : List Statement} {goesOn : Bool} {c : State}
    {accepts : Bool} (hfault : s.fault = none) (htodo : s.todo = st :: rest)
    (hexec : st.exec s.conductor = .ok (goesOn, c)) : Turn s (.execute accepts)
      ({ s with conductor := c, todo := if goesOn then rest else [] }.perform accepts st) := by
  have hagenda : s.agenda = (st :: rest).filter Statement.negotiates := by
    rw [Session.agenda, htodo]
  have hgoesOn {x : Except Fault State} (hx : x.map (fun s => (true, s)) = .ok (goesOn, c)) :
      goesOn = true := by
    obtain ⟨_, _, hpair⟩ := map_eq_ok.mp hx
    cases hpair
    rfl
  have hcalls {x : Except Fault Nat} {u : State} (hx : x.map (fun _ => (true, u)) = .ok (goesOn, c)) :
      goesOn = true := by
    obtain ⟨_, _, hpair⟩ := map_eq_ok.mp hx
    cases hpair
    rfl
  cases st with
  | testConnection =>
    have happlied := applied_execute htodo rfl accepts
    cases goesOn with
    | false => exact .cut rfl rfl rfl ⟨rfl, rfl, fun _ => happlied⟩
    | true => exact .still hagenda.symm rfl rfl ⟨rfl, rfl, fun _ => happlied⟩
  | teardown t =>
    have happlied := applied_execute htodo rfl accepts
    obtain rfl := hgoesOn hexec
    exact .still hagenda.symm rfl rfl ⟨rfl, rfl, fun _ => happlied⟩
  | createOffer =>
    have happlied := applied_execute htodo rfl accepts
    obtain rfl := hcalls hexec
    exact .ask hagenda rfl (List.map_append ..) rfl ⟨rfl, rfl, fun _ => happlied⟩
  | createAnswer x =>
    have happlied := applied_execute htodo rfl accepts
    obtain rfl := hcalls hexec
    exact .ask hagenda rfl (List.map_append ..) rfl ⟨rfl, rfl, fun _ => happlied⟩
  | setRemoteDescription type sdp =>
    obtain rfl := hcalls hexec
    rw [Session.perform]
    cases accepts with
    | false => exact .remote hagenda rfl rfl rfl (Or.inl ⟨rfl, rfl, fun _ => rfl⟩)
    | true =>
      rw [if_pos rfl]
      cases type with
      | offer =>
        exact .remote hagenda rfl rfl rfl (Or.inr ⟨hfault, fun _ =>
          ⟨rfl, applied_execute htodo rfl true⟩, nofun⟩)
      | pranswer =>
        exact .remote hagenda rfl rfl rfl (Or.inl
          ⟨rfl, rfl, fun _ => applied_execute htodo rfl true⟩)
      | answer =>
        refine .remote hagenda rfl rfl rfl (Or.inr ⟨hfault, nofun, fun _ => ?_⟩)
        rw [Session.applied, htodo]
        rfl
      | rollback => exact .remote hagenda rfl rfl rfl (Or.inr ⟨hfault, nofun, nofun⟩)

theorem turn_of_next (hnext : s.next a = some t) (hcall : a.isCall = false) : Turn s a t := by
  obtain ⟨hfault, hmove⟩ := move_of_next hnext
  cases hmove with
  | call hidle => cases hcall
  | executeFaults htodo hexec => exact .still rfl rfl rfl (unmoved_of_fault rfl rfl nofun)
  | execute htodo hwaits hexec => exact turn_of_execute hfault htodo hexec
  | onFailure hidle hr =>
    exact .drop rfl (requested_getElem? hr) (requested_take s _) rfl ⟨rfl, rfl, fun _ => rfl⟩
  | onSuccessFaults hidle hr hnull =>
    exact .drop rfl (requested_getElem? hr) (requested_take s _) rfl
      (unmoved_of_fault rfl rfl nofun)
  | onSuccessReturns hidle hr hnone =>
    exact .drop rfl (requested_getElem? hr) (requested_take s _) rfl ⟨rfl, rfl, fun _ => rfl⟩
  | onSuccess hidle hr hpossible hsome =>
    exact .deliver rfl (requested_getElem? hr) hpossible (requested_take s _) rfl
      ⟨rfl, rfl, fun _ => rfl⟩
  | setLocalFaults hd hnull => exact .still rfl rfl rfl (unmoved_of_fault rfl rfl nofun)
  | setLocalNull hd hnull => exact .still rfl rfl rfl (unmoved_of_fault rfl rfl nofun)
  | @setLocal r sdp n accepts hd hsome =>
    refine .apply rfl ?_ ?_ (by rw [Session.delivering, hd]; rfl) ?_ ?_ ?_
    · cases accepts <;> rfl
    · cases accepts <;> rfl
    · cases accepts <;> rfl
    · cases accepts <;> rfl
    · rintro rfl
      refine ⟨hfault, ?_, ?_⟩
      · simp only [Session.apply, if_true]
        cases r.creation <;> simp
      · rw [Session.applied, hd]
        rfl
  | report hd =>
    refine .report rfl rfl (by rw [Session.delivering, hd]; rfl) rfl rfl ?_ rfl
    simp

/-- A failed creation is told to the application, which the handshake sees. -/
theorem failure_of_next (hnext : s.next a = some t) (hfailure : a.isFailure = true) :
    t.agenda = s.agenda ∧ (∃ i c, s.requested[i]? = some c ∧
      t.requested = s.requested.eraseIdx i) ∧ t.delivering = s.delivering ∧ Unmoved s a t := by
  obtain ⟨hfault, hmove⟩ := move_of_next hnext
  cases hmove with
  | onFailure hidle hr =>
    exact ⟨rfl, ⟨_, _, requested_getElem? hr, requested_take s _⟩, rfl, rfl, rfl, fun _ => rfl⟩
  | call | executeFaults | execute | onSuccessFaults | onSuccessReturns | onSuccess
  | setLocalFaults | setLocalNull | setLocal | report => cases hfailure

/-- A call finds no other in progress. -/
theorem call_of_next {c : Call} (hnext : s.next (.call c) = some t) :
    s.agenda = [] ∧ t = { s with todo := c.body } := by
  obtain ⟨hfault, hmove⟩ := move_of_next hnext
  cases hmove with
  | call hidle => exact ⟨by rw [Session.agenda, hidle]; rfl, rfl⟩

variable {p q : Peer}

theorem peer_next (hnext : p.next a = some q) : p.session.next a = some q.session ∧
    (q.session.fault ≠ none ∧ q = { p with session := q.session } ∨ q.session.fault = none ∧
      q = { (p.session.applied a).elim p p.settle with session := q.session }) := by
  obtain ⟨t, ht, rfl⟩ := Option.map_eq_some_iff.mp hnext
  by_cases hfault : t.fault = none
  · rw [hfault, Option.isSome_none, if_neg Bool.false_ne_true]
    exact ⟨ht, Or.inr ⟨hfault, rfl⟩⟩
  · rw [if_pos (Option.isSome_iff_ne_none.mpr hfault)]
    exact ⟨ht, Or.inl ⟨hfault, rfl⟩⟩

/-- What a peer has in force is as it was. -/
def SamePeer (p q : Peer) : Prop := q.localOffer = p.localOffer ∧ q.completed = p.completed

theorem peer_unmoved (hnext : p.next a = some q) (h : Unmoved p.session a q.session) :
    SamePeer p q := by
  rcases (peer_next hnext).2 with ⟨_, hq⟩ | ⟨hfault, hq⟩
  · rw [hq]
    exact ⟨rfl, rfl⟩
  · rw [hq, h.applied hfault]
    exact ⟨rfl, rfl⟩

theorem peer_not_applied (hnext : p.next a = some q) (hnone : p.session.applied a = none) :
    SamePeer p q := by
  rcases (peer_next hnext).2 with ⟨_, hq⟩ | ⟨_, hq⟩
  · rw [hq]
    exact ⟨rfl, rfl⟩
  · rw [hq, hnone]
    exact ⟨rfl, rfl⟩

theorem peer_applied (hnext : p.next a = some q) (hfault : q.session.fault = none) {x : Applied}
    (hx : p.session.applied a = some x) :
    q.localOffer = (p.settle x).localOffer ∧ q.completed = (p.settle x).completed := by
  rcases (peer_next hnext).2 with ⟨hfaulty, _⟩ | ⟨_, hq⟩
  · exact (hfaulty hfault).elim
  · rw [hq, hx]
    exact ⟨rfl, rfl⟩

theorem news_of_reports (h : q.session.reports = p.session.reports) : p.news q = [] := by
  simp [Peer.news, h]

theorem news_of_report {sdp : String} (h : q.session.reports.map Report.sdp =
    p.session.reports.map Report.sdp ++ [sdp]) : p.news q = [sdp] := by
  rw [Peer.news, List.map_drop, h, List.drop_left' (List.length_map _)]

end Spitfire.Conductor
