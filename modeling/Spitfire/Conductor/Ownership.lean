import Spitfire.Conductor.Lifecycle
import Spitfire.Conductor.Session
import Spitfire.Transition.Custody

/-! The session descriptions and candidates that a conductor comes to own. The library hands
them out as raw pointers: its setters take a description over even if they reject it, and its
`AddIceCandidate` leaves the candidate with the caller. -/
namespace Spitfire.Conductor
open Transition

/-- A conductor and what has been done with the objects that became its own, which are
numbered as they come. -/
structure Owner where
  conductor : State := .constructed
  ledger : List (Nat × Handling) := []
  issued : Nat := 0

namespace Owner

def acquire (k : Owner) : Nat × Owner :=
  (k.issued, { k with
    ledger := k.ledger ++ [(k.issued, .acquired)]
    issued := k.issued + 1 })

def handle (k : Owner) (object : Nat) (hs : List Handling) : Owner :=
  { k with ledger := k.ledger ++ hs.map fun h => (object, h) }

def record (k : Owner) (es : List Event) : Owner := { k with conductor := k.conductor.record es }

/-- `if(!peer_observer_->peer_connection_) return;` and then the rest. -/
def withConnection {α : Type} (k : Owner) (early : α) (rest : Owner → Except Fault (α × Owner)) :
    Except Fault (α × Owner) :=
  match k.conductor.peerObserver with
  | none => .error .nullPeerObserver
  | some ⟨none⟩ => .ok (early, k)
  | some ⟨some _⟩ => rest k

def onOfferReply (parses : Bool) (type sdp : String) (k : Owner) : Except Fault (Unit × Owner) :=
  k.withConnection () fun k =>
    match createSessionDescription parses type with
    | none => .ok ((), k)
    | some t =>
      let (sessionDescription, k) := k.acquire
      .ok ((), (k.record [.setRemoteDescription t sdp]).handle sessionDescription [.handedOver])

def onOfferRequest (parses : Bool) (sdp : String) (k : Owner) : Except Fault (Unit × Owner) :=
  k.withConnection () fun k =>
    match createSessionDescription parses "offer" with
    | none => .ok ((), k)
    | some t =>
      let (sessionDescription, k) := k.acquire
      let k := (k.record [.setRemoteDescription t sdp]).handle sessionDescription [.handedOver]
      .ok ((), k.record [.createAnswer])

/-- The library reads the candidate and makes a copy. Nothing is done with it afterwards. -/
def addIceCandidate (parses applied : Bool) (text : CandidateText) (k : Owner) :
    Except Fault (Bool × Owner) :=
  if parses then
    let (candidate, k) := k.acquire
    k.withConnection false fun k =>
      .ok (applied, (k.record [.addIceCandidate text]).handle candidate [.read])
  else .ok (false, k)

/-- `OnSuccess` is given a description. After `SetLocalDescription` it asks it for its text,
for its type if the message is logged, and for its type again if there is a callback. -/
def onSuccess (logs listening : Bool) (k : Owner) : Except Fault (Unit × Owner) :=
  let (desc, k) := k.acquire
  k.withConnection () fun k =>
    if k.conductor.setSessionObserver then
      let k := (k.handle desc [.handedOver]).handle desc [.read]
      let k := if logs then k.handle desc [.read] else k
      .ok ((), if listening then k.handle desc [.read] else k)
    else .error .nullSetSessionObserver

/-- The other operations come to own nothing of the kind. -/
def exec (view : Channel → ChannelView) (op : Operation) (k : Owner) : Except Fault Owner :=
  match op with
  | .onOfferReply parses type sdp => (k.onOfferReply parses type sdp).map Prod.snd
  | .onOfferRequest parses sdp => (k.onOfferRequest parses sdp).map Prod.snd
  | .addIceCandidate parses applied text => (k.addIceCandidate parses applied text).map Prod.snd
  | op => (op.exec view k.conductor).map fun s => { k with conductor := s }

end Owner

/-- A public operation, or a description that the library delivers. -/
inductive OwnerStep where
  | operation (op : Operation)
  | onSuccess (logs listening : Bool)
  deriving DecidableEq, Repr

/-- An operation that goes through a null pointer ends the run. -/
def Owner.next (labelOf : Nat → Label) (view : Channel → ChannelView) (k : Owner) :
    OwnerStep → Option Owner
  | .operation op => if op.Supplied labelOf k.conductor then (k.exec view op).toOption else none
  | .onSuccess logs listening => ((k.onSuccess logs listening).map Prod.snd).toOption

section Forgetting
variable {k : Owner}

/-- What is left of a result without the ledger. -/
def Owner.forget {α : Type} (r : α × Owner) : α × State := (r.1, r.2.conductor)

theorem Owner.withConnection_forget {α : Type} (early : α)
    (rest : Owner → Except Fault (α × Owner)) :
    (k.withConnection early rest).map forget =
      Conductor.withConnection k.conductor early ((rest k).map forget) := by
  unfold Owner.withConnection Conductor.withConnection
  split <;> simp_all [Except.map, forget]

theorem Owner.onOfferReply_forget (parses : Bool) (type sdp : String) :
    (k.onOfferReply parses type sdp).map forget =
      Conductor.onOfferReply parses type sdp k.conductor := by
  rw [onOfferReply, withConnection_forget, Conductor.onOfferReply]
  cases createSessionDescription parses type <;> rfl

theorem Owner.onOfferRequest_forget (parses : Bool) (sdp : String) :
    (k.onOfferRequest parses sdp).map forget =
      Conductor.onOfferRequest parses sdp k.conductor := by
  rw [onOfferRequest, withConnection_forget, Conductor.onOfferRequest]
  cases createSessionDescription parses "offer" with
  | none => rfl
  | some t =>
    simp [Except.map, forget, acquire, record, handle, State.record]

theorem Owner.addIceCandidate_forget (parses applied : Bool) (text : CandidateText) :
    (k.addIceCandidate parses applied text).map forget =
      Conductor.addIceCandidate parses applied text k.conductor := by
  cases parses with
  | false => rfl
  | true =>
    rw [addIceCandidate, if_pos rfl, withConnection_forget, Conductor.addIceCandidate, if_pos rfl]
    rfl

/-- Without the ledger these are the operations. -/
theorem Owner.exec_forget (view : Channel → ChannelView) (op : Operation) :
    (k.exec view op).map Owner.conductor = op.exec view k.conductor := by
  have hdealing {α : Type} (x : Except Fault (α × Owner)) :
      (x.map Prod.snd).map Owner.conductor = (x.map forget).map Prod.snd := by
    cases x <;> rfl
  have hother (x : Except Fault State) :
      (x.map fun s => { k with conductor := s }).map Owner.conductor = x := by
    cases x <;> rfl
  cases op with
  | onOfferReply parses type sdp =>
    rw [exec, hdealing, onOfferReply_forget]
    rfl
  | onOfferRequest parses sdp =>
    rw [exec, hdealing, onOfferRequest_forget]
    rfl
  | addIceCandidate parses applied text =>
    rw [exec, hdealing, addIceCandidate_forget]
    rfl
  | addServerConfig _ | initializePeerConnection _ _ | createOffer | processMessages _ | channel _ =>
    dsimp only [exec]
    rw [hother]

theorem Session.next_setLocalDescription {t : Session} {r : Request} {sdp : String} {n : Nat}
    (hfault : t.fault = none) (htested : t.delivery = some ⟨.tested, r, sdp⟩)
    (hconnection : t.conductor.connection = .ok n) (accepts : Bool) :
    t.next (.setLocalDescription accepts) = some (if t.conductor.setSessionObserver
      then t.apply accepts ⟨.tested, r, sdp⟩
      else t.crash .signaling .nullSetSessionObserver) := by
  have hfault' : t.fault.isSome = false := by simp [hfault]
  simp only [Session.next, hfault', Session.setLocalDescription, htested, hconnection]
  cases t.conductor.setSessionObserver <;> rfl

/-- And a delivery is what the signaling thread does in a session when nothing comes
between: it ends as far as the connection lets it, with the same fault or none. -/
theorem Owner.onSuccess_session {s : Session} {i : Nat} {r : Request} (sdp : String)
    (accepts logs listening : Bool) (hfault : s.fault = none) (hidle : s.delivery = none)
    (hr : s.pending[i]? = some r) (hpossible : r.creation.possible = true)
    (hk : k.conductor = s.conductor) :
    ∃ steps t, steps <+: [.onSuccess i sdp, .setLocalDescription accepts, .report] ∧
      run Session.next s steps = some t ∧
      match k.onSuccess logs listening with
      | .error f => t.fault = some (.signaling, f)
      | .ok (_, k') => t.fault = none ∧ t.delivery = none ∧ k'.conductor = t.conductor := by
  cases hobserver : s.conductor.peerObserver with
  | none =>
    refine ⟨[.onSuccess i sdp], (s.take i).crash .signaling .nullPeerObserver, by simp, ?_, ?_⟩
    · simp [run, Session.next, hfault, Session.onSuccess, hidle, hr, hpossible, hobserver]
    · simp [onSuccess, acquire, withConnection, hk, hobserver, Session.crash]
  | some o =>
    obtain ⟨_ | n⟩ := o
    · refine ⟨[.onSuccess i sdp], s.take i, by simp, ?_, ?_⟩
      · simp [run, Session.next, hfault, Session.onSuccess, hidle, hr, hpossible, hobserver]
      · simp [onSuccess, acquire, withConnection, hk, hobserver, Session.take, hfault, hidle]
    · let tested : Session := { s.take i with delivery := some ⟨.tested, r, sdp⟩ }
      have htested : s.next (.onSuccess i sdp) = some tested := by
        simp [Session.next, hfault, Session.onSuccess, hidle, hr, hpossible, hobserver, tested]
      have hconnection : tested.conductor.connection = .ok n := by
        simp [State.connection, tested, Session.take, hobserver]
      have hfault' : tested.fault = none := hfault
      have hnext := Session.next_setLocalDescription hfault' rfl hconnection accepts
      cases hset : s.conductor.setSessionObserver with
      | false =>
        rw [if_neg (by simp [tested, Session.take, hset])] at hnext
        refine ⟨[.onSuccess i sdp, .setLocalDescription accepts], _, by simp,
          run_cons_eq_some.mpr ⟨_, htested, run_cons_eq_some.mpr ⟨_, hnext, rfl⟩⟩, ?_⟩
        simp [onSuccess, acquire, withConnection, hk, hobserver, hset, Session.crash]
      | true =>
        rw [if_pos (by simp [tested, Session.take, hset])] at hnext
        let applied := tested.apply accepts ⟨.tested, r, sdp⟩
        obtain ⟨hfault', hdelivery, hconductor⟩ : applied.fault = none ∧
            applied.delivery = some ⟨.applied, r, sdp⟩ ∧ applied.conductor = s.conductor := by
          cases accepts <;> exact ⟨hfault, rfl, rfl⟩
        have hreport : applied.next .report = some
            { applied with delivery := none, reports := applied.reports ++ [⟨r, sdp⟩] } := by
          simp [Session.next, hfault', Session.report, hdelivery]
        refine ⟨_, _, List.prefix_rfl, run_cons_eq_some.mpr ⟨_, htested,
          run_cons_eq_some.mpr ⟨_, hnext, run_cons_eq_some.mpr ⟨_, hreport, rfl⟩⟩⟩, ?_⟩
        have hkept : ∃ k', k.onSuccess logs listening = .ok ((), k') ∧
            k'.conductor = k.conductor := by
          simp only [onSuccess, acquire, withConnection, hk, hobserver, hset]
          cases logs <;> cases listening <;> exact ⟨_, rfl, rfl⟩
        obtain ⟨k', hrun, hk'⟩ := hkept
        rw [hrun]
        exact ⟨hfault', rfl, by rw [hk', hk, hconductor]⟩

end Forgetting

section Dealings
variable {k t : Owner} {hs : List Handling}

/-- A step does this with one new object, or nothing with any. -/
structure Deals (k : Owner) (hs : List Handling) (t : Owner) : Prop where
  ledger : t.ledger = k.ledger ++ hs.map fun h => (k.issued, h)
  issued : t.issued = if hs = [] then k.issued else k.issued + 1

theorem deals_nothing (hledger : t.ledger = k.ledger) (hissued : t.issued = k.issued) :
    Deals k [] t :=
  ⟨by simp [hledger], hissued⟩

/-- What a call returns early with, or with the rest. -/
theorem Owner.withConnection_ok {α : Type} {early : α} {rest : Owner → Except Fault (α × Owner)}
    {r : α × Owner} (h : k.withConnection early rest = .ok r) : r = (early, k) ∨ rest k = .ok r := by
  unfold withConnection at h
  split at h
  · cases h
  · cases h
    exact Or.inl rfl
  · exact Or.inr h

/-- A remote description is handed over as soon as there is one. -/
theorem Owner.description_deals {description : Option SdpType} {rest : Owner → SdpType → Owner}
    {r : Unit × Owner} (hrest : ∀ t, Deals k [.acquired, .handedOver] (rest k t))
    (h : (k.withConnection () fun k => match description with
      | none => .ok ((), k)
      | some t => .ok ((), rest k t)) = .ok r) : ∃ hs, Deals k hs r.2 ∧ Discharged hs := by
  rcases withConnection_ok h with rfl | h
  · exact ⟨[], deals_nothing rfl rfl, by decide⟩
  · cases description with
    | none =>
      cases h
      exact ⟨[], deals_nothing rfl rfl, by decide⟩
    | some t =>
      cases h
      exact ⟨_, hrest t, by decide⟩

theorem Owner.onOfferReply_deals {parses : Bool} {type sdp : String} {r : Unit × Owner}
    (h : k.onOfferReply parses type sdp = .ok r) : ∃ hs, Deals k hs r.2 ∧ Discharged hs :=
  description_deals (fun _ => ⟨List.append_assoc _ _ _, rfl⟩) h

theorem Owner.onOfferRequest_deals {parses : Bool} {sdp : String} {r : Unit × Owner}
    (h : k.onOfferRequest parses sdp = .ok r) : ∃ hs, Deals k hs r.2 ∧ Discharged hs :=
  description_deals (fun _ => ⟨List.append_assoc _ _ _, rfl⟩) h

/-- A candidate that was made is never released, whatever becomes of it. -/
theorem Owner.addIceCandidate_deals {parses applied : Bool} {text : CandidateText}
    {r : Bool × Owner} (h : k.addIceCandidate parses applied text = .ok r) :
    ∃ hs, Deals k hs r.2 ∧ (Discharged hs ↔ parses = false) := by
  cases parses with
  | false =>
    cases h
    exact ⟨[], deals_nothing rfl rfl, by decide⟩
  | true =>
    rw [addIceCandidate, if_pos rfl] at h
    dsimp only at h
    rcases withConnection_ok h with rfl | h
    · exact ⟨[.acquired], ⟨rfl, rfl⟩, by decide⟩
    · cases h
      exact ⟨[.acquired, .read], ⟨by simp [handle, record, acquire], rfl⟩, by decide⟩

/-- A description that was delivered is kept without a connection, and with one it is
looked at after it has been handed over. -/
theorem Owner.onSuccess_deals {logs listening : Bool} {r : Unit × Owner}
    (h : k.onSuccess logs listening = .ok r) : ∃ hs, Deals k hs r.2 ∧ ¬ Discharged hs := by
  dsimp only [onSuccess] at h
  rcases withConnection_ok h with rfl | h
  · exact ⟨[.acquired], ⟨rfl, rfl⟩, by decide⟩
  · split at h
    · cases h
      refine ⟨[.acquired, .handedOver, .read] ++ (if logs then [.read] else []) ++
        (if listening then [.read] else []), ⟨?_, ?_⟩, ?_⟩
      · cases logs <;> cases listening <;> simp [handle, acquire]
      · cases logs <;> cases listening <;> rfl
      · cases logs <;> cases listening <;> decide
    · cases h

/-- The objects of the ledger have been issued. -/
def Issued (k : Owner) : Prop := ∀ e ∈ k.ledger, e.1 < k.issued

theorem Issued.deals (h : Issued k) (hdeals : Deals k hs t) : Issued t := by
  intro e he
  rw [hdeals.ledger] at he
  rw [hdeals.issued]
  rcases List.mem_append.mp he with he | he
  · have hlt := h e he
    split <;> omega
  · obtain ⟨h', hh', rfl⟩ := List.mem_map.mp he
    rw [if_neg (List.ne_nil_of_mem hh')]
    exact Nat.lt_succ_self _

theorem Issued.linear_iff (h : Issued k) (hdeals : Deals k hs t) :
    Linear t.ledger ↔ Linear k.ledger ∧ Discharged hs := by
  rw [hdeals.ledger, linear_append_iff, linear_entries_iff]
  intro e he e' he'
  obtain ⟨_, _, rfl⟩ := List.mem_map.mp he'
  exact Nat.ne_of_lt (h e he)

end Dealings

/-- The step owes nothing when it is over. -/
def OwnerStep.Clear : OwnerStep → Prop
  | operation (.addIceCandidate parses _ _) => parses = false
  | onSuccess _ _ => False
  | _ => True

theorem Owner.exec_deals {view : Channel → ChannelView} {k t : Owner} {op : Operation}
    (h : k.exec view op = .ok t) :
    ∃ hs, Deals k hs t ∧ (Discharged hs ↔ (OwnerStep.operation op).Clear) := by
  cases op with
  | onOfferReply parses type sdp =>
    obtain ⟨r, hrun, rfl⟩ := map_eq_ok.mp h
    obtain ⟨hs, hdeals, hdone⟩ := onOfferReply_deals hrun
    exact ⟨hs, hdeals, iff_of_true hdone trivial⟩
  | onOfferRequest parses sdp =>
    obtain ⟨r, hrun, rfl⟩ := map_eq_ok.mp h
    obtain ⟨hs, hdeals, hdone⟩ := onOfferRequest_deals hrun
    exact ⟨hs, hdeals, iff_of_true hdone trivial⟩
  | addIceCandidate parses applied text =>
    obtain ⟨r, hrun, rfl⟩ := map_eq_ok.mp h
    exact addIceCandidate_deals hrun
  | addServerConfig _ | initializePeerConnection _ _ | createOffer | processMessages _ | channel _ =>
    dsimp only [exec] at h
    obtain ⟨s, _, rfl⟩ := map_eq_ok.mp h
    exact ⟨[], deals_nothing rfl rfl, iff_of_true (by decide) trivial⟩

theorem next_deals {labelOf : Nat → Label} {view : Channel → ChannelView} {k t : Owner}
    {a : OwnerStep} (h : k.next labelOf view a = some t) :
    ∃ hs, Deals k hs t ∧ (Discharged hs ↔ a.Clear) := by
  cases a with
  | operation op =>
    dsimp only [Owner.next] at h
    split at h
    · exact Owner.exec_deals (toOption_eq_some.mp h)
    · cases h
  | onSuccess logs listening =>
    obtain ⟨r, hrun, rfl⟩ := map_eq_ok.mp (toOption_eq_some.mp h)
    obtain ⟨hs, hdeals, hopen⟩ := Owner.onSuccess_deals hrun
    exact ⟨hs, hdeals, iff_of_false hopen id⟩

/-- What a step leaves open is never made good by a later one. -/
theorem linear_next {labelOf : Nat → Label} {view : Channel → ChannelView} {k t : Owner}
    {a : OwnerStep} (hissued : Issued k) (h : k.next labelOf view a = some t) :
    Issued t ∧ (Linear t.ledger ↔ Linear k.ledger ∧ a.Clear) := by
  obtain ⟨hs, hdeals, hclear⟩ := next_deals h
  refine ⟨hissued.deals hdeals, ?_⟩
  rw [hissued.linear_iff hdeals, hclear]

/-- For every run of the operations and deliveries: the descriptions and candidates have
each been handed over or released once, and none was looked at afterwards, exactly if no
description was delivered and no candidate could be parsed. -/
theorem ownership_linear_iff (labelOf : Nat → Label) (view : Channel → ChannelView)
    (steps : List OwnerStep) (k : Owner)
    (hrun : run (Owner.next labelOf view) {} steps = some k) :
    Linear k.ledger ↔ ∀ a ∈ steps, a.Clear := by
  have hempty : Issued {} := fun e he => (List.not_mem_nil he).elim
  have hissued : Issued k :=
    run_invariant (fun _ _ _ hs hnext => (linear_next hs hnext).1) hempty hrun
  have hruined : ¬ (Issued k ∧ ¬ Linear k.ledger) ↔
      Along (Owner.next labelOf view) (fun _ a => a.Clear) {} steps := by
    apply along_iff_not_ruined (I := fun k => Issued k ∧ Linear k.ledger)
      (B := fun k => Issued k ∧ ¬ Linear k.ledger)
    · rintro k a t ⟨hk, hlinear⟩ hclear hnext
      obtain ⟨ht, hiff⟩ := linear_next hk hnext
      exact ⟨ht, hiff.mpr ⟨hlinear, hclear⟩⟩
    · rintro k a t ⟨hk, _⟩ hopen hnext
      obtain ⟨ht, hiff⟩ := linear_next hk hnext
      exact ⟨ht, fun hlinear => hopen (hiff.mp hlinear).2⟩
    · rintro k a t ⟨hk, hruined⟩ hnext
      obtain ⟨ht, hiff⟩ := linear_next hk hnext
      exact ⟨ht, fun hlinear => hruined (hiff.mp hlinear).1⟩
    · rintro k ⟨_, hlinear⟩ ⟨_, hruined⟩
      exact hruined hlinear
    · exact ⟨hempty, linear_nil⟩
    · exact hrun
  rw [← along_labels_iff hrun, ← hruined, and_iff_right hissued, not_not]

/-- Two remote descriptions, one of which the library does not understand, and a candidate
that it does not either. -/
theorem ownership_linear_remote : ∃ k, run (Owner.next (fun _ => []) fun _ => .ofState .opened) {}
    [.operation (.onOfferReply true "answer" "v=0"),
      .operation (.initializePeerConnection .succeeds []),
      .operation (.onOfferRequest true "v=0"), .operation (.onOfferReply false "answer" "?"),
      .operation (.onOfferReply true "answer" "v=0"),
      .operation (.addIceCandidate false false ⟨[48], 0, [63]⟩)] = some k ∧ Linear k.ledger ∧
      k.ledger = [(0, .acquired), (0, .handedOver), (1, .acquired), (1, .handedOver)] := by
  obtain ⟨k, hrun, hledger⟩ : ∃ k, run (Owner.next (fun _ => []) fun _ => .ofState .opened) {}
      [.operation (.onOfferReply true "answer" "v=0"),
        .operation (.initializePeerConnection .succeeds []),
        .operation (.onOfferRequest true "v=0"), .operation (.onOfferReply false "answer" "?"),
        .operation (.onOfferReply true "answer" "v=0"),
        .operation (.addIceCandidate false false ⟨[48], 0, [63]⟩)] = some k ∧
      k.ledger = [(0, .acquired), (0, .handedOver), (1, .acquired), (1, .handedOver)] :=
    ⟨_, rfl, rfl⟩
  refine ⟨k, hrun, (ownership_linear_iff _ _ _ k hrun).mpr ?_, hledger⟩
  simp [OwnerStep.Clear]

/-- An offer is delivered and looked at after it was handed over, and a candidate that was
applied is never released. -/
theorem delivered_description_read : ∃ k,
    run (Owner.next (fun _ => []) fun _ => .ofState .opened) {}
      [.operation (.initializePeerConnection .succeeds []), .operation .createOffer,
        .onSuccess true true, .operation (.addIceCandidate true true ⟨[48], 0, [99]⟩)] = some k ∧
      k.ledger = [(0, .acquired), (0, .handedOver), (0, .read), (0, .read), (0, .read),
        (1, .acquired), (1, .read)] ∧ ¬ Linear k.ledger := by
  refine ⟨_, rfl, rfl, fun hlinear => ?_⟩
  have honce := hlinear.once 1 (by decide)
  revert honce
  decide

end Spitfire.Conductor
