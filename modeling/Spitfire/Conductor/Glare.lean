import Spitfire.Conductor.HandshakeTurns
import Spitfire.Conductor.Trickle

/-! Two instances that both offer. Either application may ask for an offer at any time, the
offers and answers that it hears of are handed to the other, and the library accepts what its
signaling state allows. No application rolls an offer back. -/
namespace Spitfire.Conductor
open Transition

inductive Side where
  | left | right
  deriving DecidableEq, Repr

def Side.other : Side → Side
  | left => right
  | right => left

/-- The two sides, and the descriptions on their way to each of them. -/
structure Crossing where
  peer : Side → Peer
  inbox : Side → List Report := fun _ => []

/-- The steps of a side's own threads, a description that its application is handed, and one
that is lost. -/
inductive CrossingStep where
  | own (side : Side) (a : Step)
  | signal (side : Side) (i : Nat) (parses : Bool)
  | lose (side : Side) (i : Nat)
  deriving DecidableEq, Repr

/-- A call that takes a description of the other side. -/
def Step.forwards : Step → Bool
  | .call (.onOfferRequest _ _) | .call (.onOfferReply _ _ _) => true
  | _ => false

namespace Crossing

def next (x : Crossing) : CrossingStep → Option Crossing
  | .own side a =>
    if a.forwards then none
    else do
      let p ← (x.peer side).next a
      let news := p.session.reports.drop (x.peer side).session.reports.length
      return {
        peer := Function.update x.peer side p
        inbox := Function.update x.inbox side.other (x.inbox side.other ++ news) }
  | .signal side i parses => do
    let r ← (x.inbox side)[i]?
    let p ← (x.peer side).next (.call (r.call parses))
    return {
      peer := Function.update x.peer side p
      inbox := Function.update x.inbox side ((x.inbox side).eraseIdx i) }
  | .lose side i =>
    if i < (x.inbox side).length then
      some { x with inbox := Function.update x.inbox side ((x.inbox side).eraseIdx i) }
    else none

end Crossing

/-- What the library accepts by its signaling state: an offer of one side while there is none
of the other, and an answer to an offer or its rollback. `RTCConfiguration` leaves implicit
rollback off, and `CreatePeerConnection` does not turn it on. -/
def Peer.permits (p : Peer) : Step → Bool
  | .execute true =>
    match p.session.todo.head? with
    | some (.setRemoteDescription .offer _) => p.localOffer.isNone
    | some (.setRemoteDescription .answer _) => p.localOffer.isSome
    | some (.setRemoteDescription .rollback _) =>
      p.localOffer.isSome || p.session.remoteOffer.isSome
    | _ => true
  | .setLocalDescription true =>
    p.session.delivery.all fun d =>
      if d.request.creation = .offer then p.session.remoteOffer.isNone
      else p.session.remoteOffer.isSome
  | _ => true

def Permitted (x : Crossing) : CrossingStep → Prop
  | .own side a => (x.peer side).permits a = true
  | _ => True

instance (x : Crossing) : DecidablePred (Permitted x)
  | .own _ _ => inferInstanceAs (Decidable (_ = true))
  | .signal _ _ _ | .lose _ _ => inferInstanceAs (Decidable True)

/-- What a step does to the descriptions in force. -/
inductive Effect (p q : Peer) : Prop
  | same (hpeer : SamePeer p q) (hremote : q.session.remoteOffer = p.session.remoteOffer)
  | remoteOffer (hpeer : SamePeer p q) (hfree : p.localOffer = none)
      (hremote : q.session.remoteOffer ≠ none)
  | localOffer (hlocal : q.localOffer ≠ none) (hcompleted : q.completed = p.completed)
      (hfree : p.session.remoteOffer = none) (hremote : q.session.remoteOffer = none)
  | localAnswer (hlocal : q.localOffer = p.localOffer) (hoffer : p.session.remoteOffer ≠ none)
      (hcompleted : q.completed ≠ []) (hremote : q.session.remoteOffer = none)
  | remoteAnswer {sdp : String} (htodo : .setRemoteDescription .answer sdp ∈ p.session.todo)
      (hlocal : q.localOffer = none) (hcompleted : q.completed ≠ [])
  | rollback {sdp : String} (htodo : .setRemoteDescription .rollback sdp ∈ p.session.todo)

variable {p q : Peer} {a : Step} {s t : Session}

theorem effect_of_remoteAnswer {sdp : String} {rest : List Statement}
    (hnext : p.next (.execute true) = some q) (hpermits : p.permits (.execute true) = true)
    (htodo : p.session.todo = .setRemoteDescription .answer sdp :: rest)
    (hfault : q.session.fault = none) : Effect p q := by
  have happlied : p.session.applied (.execute true) = some (.remoteAnswer sdp) := by
    rw [Session.applied, htodo]
    rfl
  obtain ⟨hlocal, hcompleted⟩ := peer_applied hnext hfault happlied
  have hmem : .setRemoteDescription .answer sdp ∈ p.session.todo := by simp [htodo]
  have hoffer : p.localOffer.isSome = true := by simpa [Peer.permits, htodo] using hpermits
  obtain ⟨x, hx⟩ := Option.isSome_iff_exists.mp hoffer
  exact .remoteAnswer hmem hlocal (by simp [hcompleted, Peer.settle, hx])

/-- The conductor sets the description that was created last, an offer of its own or an
answer to the offer it holds. -/
theorem effect_of_setLocal {r : Request} {sdp : String}
    (hnext : p.next (.setLocalDescription true) = some q)
    (hpermits : p.permits (.setLocalDescription true) = true)
    (hd : p.session.delivery = some ⟨.tested, r, sdp⟩)
    (hsession : q.session = p.session.apply true ⟨.tested, r, sdp⟩)
    (hfault : p.session.fault = none) : Effect p q := by
  have happlied : p.session.applied (.setLocalDescription true) =
      some (if r.creation = .offer then .localOffer sdp else .localAnswer sdp) := by
    rw [Session.applied, hd]
    rfl
  obtain ⟨hlocal, hcompleted⟩ := peer_applied hnext (by rw [hsession]; exact hfault) happlied
  cases hc : r.creation with
  | offer =>
    rw [if_pos hc] at hlocal hcompleted
    have hfree : p.session.remoteOffer = none := by
      simpa [Peer.permits, hd, hc] using hpermits
    refine .localOffer (by rw [hlocal]; exact Option.some_ne_none _) hcompleted hfree ?_
    simp [hsession, Session.apply, hc, hfree]
  | answer _ _ =>
    have hne : r.creation ≠ .offer := by simp [hc]
    rw [if_neg hne] at hlocal hcompleted
    have hoffer : p.session.remoteOffer.isSome = true := by
      simpa [Peer.permits, hd, hc] using hpermits
    obtain ⟨x, hx⟩ := Option.isSome_iff_exists.mp hoffer
    refine .localAnswer hlocal (by rw [hx]; exact Option.some_ne_none _)
      (by simp [hcompleted, Peer.settle, hx]) ?_
    simp [hsession, Session.apply, hc]

theorem effect_of_next (hnext : p.next a = some q) (hpermits : p.permits a = true) :
    Effect p q := by
  obtain ⟨hs, -⟩ := peer_next hnext
  obtain ⟨t, ht⟩ : ∃ t, q.session = t := ⟨_, rfl⟩
  rw [ht] at hs
  obtain ⟨hfault, hmove⟩ := move_of_next hs
  have hsame (happlied : p.session.applied a = none)
      (hremote : t.remoteOffer = p.session.remoteOffer) : Effect p q :=
    .same (peer_not_applied hnext happlied) (by rw [ht, hremote])
  have hfaulty (hremote : t.remoteOffer = p.session.remoteOffer)
      (hreports : t.reports = p.session.reports) (hfault : t.fault ≠ none) : Effect p q := by
    have hunmoved : Unmoved p.session a t := unmoved_of_fault hremote hreports hfault
    rw [← ht] at hunmoved
    exact .same (peer_unmoved hnext hunmoved) hunmoved.remoteOffer
  cases hmove with
  | call _ | onFailure _ _ | onSuccessReturns _ _ _ | onSuccess _ _ _ _ | report _ =>
    exact hsame rfl rfl
  | executeFaults _ _ | onSuccessFaults _ _ _ | setLocalFaults _ _ | setLocalNull _ _ =>
    exact hfaulty rfl rfl (Option.some_ne_none _)
  | @execute st rest goesOn c accepts htodo _ _ =>
    cases st with
    | testConnection | teardown _ | createOffer | createAnswer _ =>
      exact hsame (applied_execute htodo rfl accepts) rfl
    | setRemoteDescription type sdp =>
      cases accepts with
      | false => exact hsame rfl rfl
      | true =>
        cases type with
        | pranswer => exact hsame (applied_execute htodo rfl true) rfl
        | rollback => exact .rollback (by rw [htodo]; exact List.mem_cons_self)
        | offer =>
          have hfree : p.localOffer = none := by simpa [Peer.permits, htodo] using hpermits
          exact .remoteOffer (peer_not_applied hnext (applied_execute htodo rfl true)) hfree
            (by rw [ht]; exact Option.some_ne_none _)
        | answer =>
          exact effect_of_remoteAnswer hnext hpermits htodo (by rw [ht]; exact hfault)
  | @setLocal r sdp n accepts hd _ =>
    cases accepts with
    | false => exact hsame rfl rfl
    | true => exact effect_of_setLocal hnext hpermits hd ht hfault

/-- Nothing but offers was created and reported, or can be. -/
structure Session.OffersOnly (s : Session) : Prop where
  pending : ∀ r ∈ s.pending, r.creation.possible = true → r.creation = .offer
  delivery : ∀ d ∈ s.delivery, d.request.creation = .offer
  reports : ∀ r ∈ s.reports, r.request.creation = .offer

/-- Without a remote offer there is nothing to answer. -/
theorem offersOnly_next (h : s.OffersOnly) (hremote : s.remoteOffer = none)
    (hnext : s.next a = some t) : t.OffersOnly := by
  have hissue {c : State} {todo : List Statement} {creation : Creation}
      (hcreation : creation.possible = true → creation = .offer) :
      ({ s with conductor := c, todo := todo }.issue creation).OffersOnly := by
    refine ⟨fun r hr => ?_, h.delivery, h.reports⟩
    rcases List.mem_append.mp hr with hr | hr
    · exact h.pending r hr
    · obtain rfl := List.mem_singleton.mp hr
      exact hcreation
  have htake (i : Nat) (r : Request) (hr : r ∈ s.pending.eraseIdx i) :
      r.creation.possible = true → r.creation = .offer :=
    h.pending r (List.mem_of_mem_eraseIdx hr)
  obtain ⟨-, hmove⟩ := move_of_next hnext
  cases hmove with
  | call _ | executeFaults _ _ | setLocalFaults _ _ | setLocalNull _ _ =>
    exact ⟨h.pending, h.delivery, h.reports⟩
  | @execute st rest goesOn c accepts _ _ _ =>
    cases st with
    | testConnection | teardown _ => exact ⟨h.pending, h.delivery, h.reports⟩
    | createOffer => exact hissue fun _ => rfl
    | createAnswer x =>
      refine hissue fun hpossible => ?_
      rw [hremote] at hpossible
      cases hpossible
    | setRemoteDescription type sdp =>
      cases accepts with
      | false => exact ⟨h.pending, h.delivery, h.reports⟩
      | true => cases type <;> exact ⟨h.pending, h.delivery, h.reports⟩
  | onFailure _ _ | onSuccessFaults _ _ _ | onSuccessReturns _ _ _ =>
    exact ⟨htake _, h.delivery, h.reports⟩
  | @onSuccess i sdp r n _ hr hpossible _ =>
    refine ⟨htake _, ?_, h.reports⟩
    rintro d ⟨⟩
    exact h.pending r (List.mem_of_getElem? hr) hpossible
  | @setLocal r sdp n accepts hd _ =>
    have hoffer : ∀ d ∈ some (⟨.applied, r, sdp⟩ : Delivery), d.request.creation = .offer := by
      rintro d ⟨⟩
      exact h.delivery ⟨.tested, r, sdp⟩ hd
    cases accepts <;> exact ⟨h.pending, hoffer, h.reports⟩
  | @report r sdp hd =>
    refine ⟨h.pending, nofun, fun r' hr' => ?_⟩
    rcases List.mem_append.mp hr' with hr' | hr'
    · exact h.reports r' hr'
    · obtain rfl := List.mem_singleton.mp hr'
      exact h.delivery _ hd

theorem reports_next (hnext : s.next a = some t) : s.reports <+: t.reports := by
  obtain ⟨-, hmove⟩ := move_of_next hnext
  cases hmove with
  | @execute st rest goesOn c accepts _ _ _ =>
    obtain ⟨_, remote, heq⟩ | ⟨_, creation, heq⟩ :=
      Ledger.perform_cases { s with conductor := c, todo := if goesOn then rest else [] } accepts st
    · exact ⟨[], by rw [heq, List.append_nil]⟩
    · exact ⟨[], by rw [heq, List.append_nil]; rfl⟩
  | @setLocal r sdp n accepts _ _ => cases accepts <;> exact List.prefix_rfl
  | report _ => exact List.prefix_append _ _
  | _ => exact List.prefix_rfl

/-- Statements come from calls. -/
theorem todo_next (hnext : s.next a = some t) {st : Statement} (hst : st ∈ t.todo) :
    st ∈ s.todo ∨ ∃ c, a = .call c ∧ st ∈ c.body := by
  obtain ⟨-, hmove⟩ := move_of_next hnext
  cases hmove with
  | @call c _ => exact Or.inr ⟨c, rfl, hst⟩
  | @execute st' rest goesOn c accepts htodo _ _ =>
    left
    obtain ⟨-, hrest, -⟩ :=
      perform_frame { s with conductor := c, todo := if goesOn then rest else [] } accepts st'
    rw [hrest] at hst
    rw [htodo]
    cases goesOn with
    | false => cases hst
    | true => exact .tail _ hst
  | @setLocal r sdp n accepts _ _ => cases accepts <;> exact Or.inl hst
  | _ => exact Or.inl hst

/-- Offers of both sides are never in force together, and before the first exchange there are
no answers without a remote offer. -/
structure Peer.Proper (p : Peer) : Prop where
  apart : p.localOffer = none ∨ p.session.remoteOffer = none
  offersOnly : p.completed = [] → p.session.remoteOffer = none → p.session.OffersOnly

theorem Peer.Proper.next (h : p.Proper)
    (hkept : ∀ sdp, .setRemoteDescription .rollback sdp ∉ p.session.todo)
    (hnext : p.next a = some q) (hpermits : p.permits a = true) : q.Proper := by
  have hs := (peer_next hnext).1
  have honly (hcompleted : p.completed = []) (hremote : p.session.remoteOffer = none) :
      q.session.OffersOnly := offersOnly_next (h.offersOnly hcompleted hremote) hremote hs
  cases effect_of_next hnext hpermits with
  | same hpeer hremote =>
    rw [← hpeer.2, ← hremote] at honly
    refine ⟨?_, honly⟩
    rw [hpeer.1, hremote]
    exact h.apart
  | remoteOffer hpeer hfree hremote =>
    exact ⟨Or.inl (hpeer.1.trans hfree), fun _ hnone => (hremote hnone).elim⟩
  | localOffer hlocal hcompleted hfree hremote =>
    exact ⟨Or.inr hremote, fun hnone _ => honly (hcompleted.symm.trans hnone) hfree⟩
  | localAnswer hlocal hoffer hcompleted hremote =>
    exact ⟨Or.inr hremote, fun hnone => (hcompleted hnone).elim⟩
  | remoteAnswer htodo hlocal hcompleted =>
    exact ⟨Or.inl hlocal, fun hnone => (hcompleted hnone).elim⟩
  | rollback htodo => exact (hkept _ htodo).elim

namespace Side

theorem other_ne (side : Side) : side.other ≠ side := by cases side <;> nofun

theorem other_other (side : Side) : side.other.other = side := by cases side <;> rfl

theorem eq_or_eq_other (side side' : Side) : side' = side ∨ side' = side.other := by
  cases side <;> cases side' <;> decide

end Side

/-- Only a reply brings more than an offer. -/
theorem reply_of_mem_body {c : Call} {type : SdpType} {sdp : String} (htype : type ≠ .offer)
    (h : .setRemoteDescription type sdp ∈ c.body) : ∃ parses name,
      c = .onOfferReply parses name sdp ∧ createSessionDescription parses name = some type := by
  cases c with
  | createOffer => simp [Call.body] at h
  | deletePeerConnection order => simp [Call.body] at h
  | onOfferRequest parses x =>
    cases parses with
    | false => simp [Call.body, createSessionDescription] at h
    | true => simp [Call.body, createSessionDescription, sdpTypeFromString, htype] at h
  | onOfferReply parses name x =>
    refine ⟨parses, name, ?_⟩
    cases hd : createSessionDescription parses name with
    | none => simp [Call.body, hd] at h
    | some t =>
      simp only [Call.body, hd, List.mem_cons, List.not_mem_nil, or_false, reduceCtorEq, false_or,
        Statement.setRemoteDescription.injEq] at h
      rw [h.1, h.2]
      exact ⟨rfl, rfl⟩

/-- What is handed over is an offer, or the answer that was reported. -/
theorem answer_of_mem_call {r : Report} {parses : Bool} {type : SdpType} {sdp : String}
    (htype : type ≠ .offer) (h : .setRemoteDescription type sdp ∈ (r.call parses).body) :
    type = .answer ∧ r.request.creation ≠ .offer := by
  obtain ⟨parses', name, hcall, hd⟩ := reply_of_mem_body htype h
  cases hcreation : r.request.creation with
  | offer =>
    rw [Report.call, hcreation] at hcall
    cases hcall
  | answer requested inForce =>
    rw [Report.call, hcreation] at hcall
    cases hcall
    refine ⟨?_, by simp⟩
    unfold createSessionDescription at hd
    split at hd
    · exact (Option.some.inj hd).symm
    · cases hd

namespace Crossing

/-- What is on its way comes from the other side, and whatever is about to be set is an offer
or an answer from there. -/
structure Sound (x : Crossing) : Prop where
  proper : ∀ side, (x.peer side).Proper
  inbox : ∀ side, ∀ r ∈ x.inbox side, r ∈ (x.peer side.other).session.reports
  todo : ∀ side type sdp, .setRemoteDescription type sdp ∈ (x.peer side).session.todo →
    type ≠ .offer → type = .answer ∧
      ∃ r ∈ (x.peer side.other).session.reports, r.request.creation ≠ .offer

variable {x y : Crossing} {side : Side}

theorem Sound.kept (h : x.Sound) (side : Side) (sdp : String) :
    .setRemoteDescription .rollback sdp ∉ (x.peer side).session.todo := by
  intro hmem
  cases (h.todo side _ sdp hmem (by decide)).1

theorem Sound.update (h : x.Sound) (hproper : q.Proper)
    (hreports : (x.peer side).session.reports <+: q.session.reports)
    (htodo : ∀ type sdp, .setRemoteDescription type sdp ∈ q.session.todo → type ≠ .offer →
      type = .answer ∧ ∃ r ∈ (x.peer side.other).session.reports, r.request.creation ≠ .offer)
    {inbox : Side → List Report}
    (hinbox : ∀ r ∈ inbox side, r ∈ (x.peer side.other).session.reports)
    (hother : ∀ r ∈ inbox side.other, r ∈ q.session.reports) :
    Sound ⟨Function.update x.peer side q, inbox⟩ := by
  have hself : Function.update x.peer side q side = q := Function.update_self ..
  have hrest : Function.update x.peer side q side.other = x.peer side.other :=
    Function.update_of_ne side.other_ne ..
  constructor <;> intro side' <;> rcases side.eq_or_eq_other side' with rfl | rfl <;> dsimp only
  · rwa [hself]
  · rw [hrest]
    exact h.proper _
  · rwa [hrest]
  · rwa [side.other_other, hself]
  · rwa [hself, hrest]
  · intro type sdp hsdp htype
    rw [hrest] at hsdp
    rw [side.other_other, hself]
    obtain ⟨hanswer, r, hr, hcreation⟩ := h.todo _ type sdp hsdp htype
    rw [side.other_other] at hr
    exact ⟨hanswer, r, hreports.subset hr, hcreation⟩

theorem sound_own (h : x.Sound) (hpermits : (x.peer side).permits a = true)
    (hnext : x.next (.own side a) = some y) : y.Sound := by
  rw [next] at hnext
  split at hnext
  · cases hnext
  · rename_i hforwards
    obtain ⟨q, hq, ⟨⟩⟩ := Option.bind_eq_some_iff.mp hnext
    have hs := (peer_next hq).1
    have hreports := reports_next hs
    refine h.update ((h.proper side).next (h.kept side) hq hpermits) hreports ?_ ?_ ?_
    · intro type sdp hsdp htype
      rcases todo_next hs hsdp with hsdp | ⟨c, rfl, hsdp⟩
      · exact h.todo side type sdp hsdp htype
      · obtain ⟨_, _, rfl, _⟩ := reply_of_mem_body htype hsdp
        exact (hforwards rfl).elim
    · rw [Function.update_of_ne side.other_ne.symm]
      exact h.inbox side
    · rw [Function.update_self]
      intro r hr
      rcases List.mem_append.mp hr with hr | hr
      · have hold := h.inbox side.other r hr
        rw [side.other_other] at hold
        exact hreports.subset hold
      · exact List.mem_of_mem_drop hr

theorem sound_signal (h : x.Sound) {i : Nat} {parses : Bool}
    (hnext : x.next (.signal side i parses) = some y) : y.Sound := by
  obtain ⟨r, hr, hnext⟩ := Option.bind_eq_some_iff.mp hnext
  obtain ⟨q, hq, ⟨⟩⟩ := Option.bind_eq_some_iff.mp hnext
  have hs := (peer_next hq).1
  have hreports := reports_next hs
  refine h.update ((h.proper side).next (h.kept side) hq rfl) hreports ?_ ?_ ?_
  · intro type sdp hsdp htype
    rcases todo_next hs hsdp with hsdp | ⟨c, hc, hsdp⟩
    · exact h.todo side type sdp hsdp htype
    · cases hc
      obtain ⟨hanswer, hcreation⟩ := answer_of_mem_call htype hsdp
      exact ⟨hanswer, r, h.inbox side r (List.mem_of_getElem? hr), hcreation⟩
  · rw [Function.update_self]
    exact fun r hr => h.inbox side r (List.mem_of_mem_eraseIdx hr)
  · rw [Function.update_of_ne side.other_ne]
    intro r hr
    have hold := h.inbox side.other r hr
    rw [side.other_other] at hold
    exact hreports.subset hold

theorem sound_lose (h : x.Sound) {i : Nat} (hnext : x.next (.lose side i) = some y) : y.Sound := by
  rw [next] at hnext
  split at hnext
  · cases hnext
    refine ⟨h.proper, fun side' r hr => ?_, h.todo⟩
    dsimp only at hr
    by_cases hside : side' = side
    · subst hside
      rw [Function.update_self] at hr
      exact h.inbox _ r (List.mem_of_mem_eraseIdx hr)
    · rw [Function.update_of_ne hside] at hr
      exact h.inbox _ r hr
  · cases hnext

theorem sound_next (x : Crossing) (b : CrossingStep) (y : Crossing) (h : x.Sound)
    (hpermitted : Permitted x b) (hnext : x.next b = some y) : y.Sound := by
  cases b with
  | own side a => exact sound_own h hpermitted hnext
  | signal side i parses => exact sound_signal h hnext
  | lose side i => exact sound_lose h hnext

/-- At most one side takes a step. -/
theorem peer_of_next {b : CrossingStep} (hpermitted : Permitted x b) (hnext : x.next b = some y) :
    y.peer = x.peer ∨
      ∃ side q, Effect (x.peer side) q ∧ y.peer = Function.update x.peer side q := by
  cases b with
  | own side a =>
    rw [next] at hnext
    split at hnext
    · cases hnext
    · obtain ⟨q, hq, ⟨⟩⟩ := Option.bind_eq_some_iff.mp hnext
      exact Or.inr ⟨side, q, effect_of_next hq hpermitted, rfl⟩
  | signal side i parses =>
    obtain ⟨r, hr, hnext⟩ := Option.bind_eq_some_iff.mp hnext
    obtain ⟨q, hq, ⟨⟩⟩ := Option.bind_eq_some_iff.mp hnext
    exact Or.inr ⟨side, q, effect_of_next hq rfl, rfl⟩
  | lose side i =>
    rw [next] at hnext
    split at hnext
    · cases hnext
      exact Or.inl rfl
    · cases hnext

/-- Both sides have offered, and neither has completed an exchange. -/
def Jammed (x : Crossing) : Prop :=
  ∀ side, (x.peer side).localOffer ≠ none ∧ (x.peer side).completed = []

theorem Jammed.offersOnly (hjammed : x.Jammed) (h : x.Sound) (side : Side) :
    (x.peer side).session.OffersOnly := by
  obtain ⟨hlocal, hcompleted⟩ := hjammed side
  exact (h.proper side).offersOnly hcompleted ((h.proper side).apart.resolve_left hlocal)

/-- No remote offer is accepted, so there is nothing to answer, and no answer to accept. -/
theorem Jammed.effect (hjammed : x.Jammed) (h : x.Sound) (heffect : Effect (x.peer side) q) :
    q.localOffer ≠ none ∧ q.completed = [] := by
  obtain ⟨hlocal, hcompleted⟩ := hjammed side
  cases heffect with
  | same hpeer _ =>
    rw [hpeer.1, hpeer.2]
    exact ⟨hlocal, hcompleted⟩
  | remoteOffer _ hfree _ => exact (hlocal hfree).elim
  | localOffer hoffer hsame _ _ => exact ⟨hoffer, hsame.trans hcompleted⟩
  | localAnswer _ hoffer _ _ => exact (hoffer ((h.proper side).apart.resolve_left hlocal)).elim
  | remoteAnswer htodo _ _ =>
    obtain ⟨-, r, hr, hanswer⟩ := h.todo side _ _ htodo (by decide)
    exact (hanswer ((hjammed.offersOnly h side.other).reports r hr)).elim
  | rollback htodo => exact (h.kept side _ htodo).elim

theorem jammed_next (x : Crossing) (b : CrossingStep) (y : Crossing) (h : x.Sound ∧ x.Jammed)
    (hpermitted : Permitted x b) (hnext : x.next b = some y) : y.Sound ∧ y.Jammed := by
  obtain ⟨hsound, hjammed⟩ := h
  refine ⟨sound_next x b y hsound hpermitted hnext, fun side' => ?_⟩
  rcases peer_of_next hpermitted hnext with hpeer | ⟨side, q, heffect, hpeer⟩
  · rw [hpeer]
    exact hjammed side'
  · rw [hpeer]
    by_cases hside : side' = side
    · subst hside
      rw [Function.update_self]
      exact hjammed.effect hsound heffect
    · rw [Function.update_of_ne hside]
      exact hjammed side'

/-- Two sessions in which nothing has been negotiated. -/
def fresh (conductor : Side → State) : Crossing where
  peer side := { session := { conductor := conductor side } }

theorem sound_fresh (conductor : Side → State) : (fresh conductor).Sound where
  proper _ := ⟨Or.inl rfl, fun _ _ => ⟨nofun, nofun, nofun⟩⟩
  inbox _ := nofun
  todo _ _ _ := nofun

end Crossing

/-- Two sides that have both offered before either has answered are stuck for good: whatever
their applications go on to ask for and to pass on, and however all threads and messages
interleave, neither side completes an exchange, and neither application hears of any description
but further offers. -/
theorem glare_never_resolves {conductor : Side → State} {before after : List CrossingStep}
    {x y : Crossing} (hbefore : run Crossing.next (.fresh conductor) before = some x)
    (hpermitted : Along Crossing.next Permitted (.fresh conductor) before)
    (hoffers : ∀ side, (x.peer side).localOffer ≠ none ∧ (x.peer side).completed = [])
    (hafter : run Crossing.next x after = some y)
    (hpermitted' : Along Crossing.next Permitted x after) (side : Side) :
    (y.peer side).localOffer ≠ none ∧ (y.peer side).completed = [] ∧
      ∀ r ∈ (y.peer side).session.reports, r.request.creation = .offer := by
  have hsound : x.Sound := run_invariant_along Crossing.sound_next (Crossing.sound_fresh conductor)
    hbefore hpermitted
  obtain ⟨hsound', hjammed⟩ : y.Sound ∧ y.Jammed :=
    run_invariant_along Crossing.jammed_next ⟨hsound, hoffers⟩ hafter hpermitted'
  exact ⟨(hjammed side).1, (hjammed side).2, (hjammed.offersOnly hsound' side).reports⟩

private def offering (side : Side) (sdp : String) : List CrossingStep :=
  [.own side (.call .createOffer), .own side (.execute true), .own side (.execute true),
    .own side (.onSuccess 0 sdp), .own side (.setLocalDescription true), .own side .report]

/-- The offer of the other side is not accepted, and its answer cannot be created. -/
private def refusing (side : Side) : List CrossingStep :=
  [.signal side 0 true, .own side (.execute true), .own side (.execute false),
    .own side (.execute true), .own side (.onFailure 0)]

private def bothOffer : List CrossingStep := offering .left "l1" ++ offering .right "r1"

private def tryAgain : List CrossingStep :=
  refusing .left ++ refusing .right ++ offering .left "l2" ++ refusing .right

private def crossed : Crossing :=
  (run Crossing.next (.fresh fun _ => .initialized) bothOffer).get rfl

/-- Both sides offer and refuse, and the left one tries again. -/
theorem glare_never_resolves_again :
    run Crossing.next (.fresh fun _ => .initialized) bothOffer = some crossed ∧
    ∃ y, run Crossing.next crossed tryAgain = some y ∧ (y.peer .left).localOffer = some "l2" ∧
      (y.peer .left).completed = [] ∧ (y.peer .right).completed = [] := by
  have hbefore : run Crossing.next (.fresh fun _ => .initialized) bothOffer = some crossed := rfl
  obtain ⟨y, hafter, hagain⟩ : ∃ y, run Crossing.next crossed tryAgain = some y ∧
      (y.peer .left).localOffer = some "l2" := ⟨_, rfl, rfl⟩
  have hstuck (side : Side) := glare_never_resolves hbefore (by decide +kernel)
    (fun side => by cases side <;> exact ⟨nofun, rfl⟩) hafter (by decide +kernel) side
  exact ⟨hbefore, y, hafter, hagain, (hstuck .left).2.1, (hstuck .right).2.1⟩

-- One offer at a time is answered, and both sides complete the exchange.
example : (run Crossing.next (.fresh fun _ => .initialized) (offering .left "l1" ++
    [.signal .right 0 true, .own .right (.execute true), .own .right (.execute true),
      .own .right (.execute true), .own .right (.onSuccess 0 "r1"),
      .own .right (.setLocalDescription true), .own .right .report,
      .signal .left 0 true, .own .left (.execute true), .own .left (.execute true)])).map
        (fun x => ((x.peer .left).completed, (x.peer .right).completed)) =
    some ([⟨"l1", "r1"⟩], [⟨"l1", "r1"⟩]) := rfl

end Spitfire.Conductor
