import Spitfire.Conductor.Callbacks
import Spitfire.Conductor.Outcomes
import Spitfire.Conductor.TeardownRace

/-! Candidates on their way from one instance to another. The near side gathers them while it
negotiates, its application signals what it is told, and the far side adds them between the
other calls that it makes. -/
namespace Spitfire.Conductor
open Transition

/-- A candidate that was gathered. Writing it can fail. -/
structure Gathered where
  sdpMid : List UInt8
  sdpMLineIndex : Int32
  toString : Option (List UInt8)
  deriving DecidableEq, Repr

def Gathered.text (c : Gathered) : Option CandidateText :=
  c.toString.map fun sdp => ⟨c.sdpMid, c.sdpMLineIndex, sdp⟩

structure SpitfireIceCandidate (M : Type) where
  sdpMid : M
  sdpIndex : Int32
  sdp : M
  deriving DecidableEq, Repr

section
variable {M : Type} (m : Marshalling M)

/-- `HandleIceCandidate` up to the event that `_OnIceCandidate` raises. -/
def handleIceCandidate (candidate : Gathered) : Option (SpitfireIceCandidate M) :=
  candidate.toString.map fun sdp =>
    ⟨m.ofCString candidate.sdpMid, candidate.sdpMLineIndex, m.ofCString sdp⟩

/-- What `SpitfireRtc::AddIceCandidate` passes on. -/
def SpitfireIceCandidate.text (c : SpitfireIceCandidate M) : CandidateText :=
  ⟨m.toNative c.sdpMid, c.sdpIndex, m.toNative c.sdp⟩

/-- A text as it is after two C strings. -/
def CandidateText.cut (c : CandidateText) : CandidateText :=
  ⟨cString c.sdpMid, c.sdpMLineIndex, cString c.sdp⟩

end

theorem text_handleIceCandidate {M : Type} {m : Marshalling M} (hm : m.Lossless) (c : Gathered) :
    (handleIceCandidate m c).map (SpitfireIceCandidate.text m) = c.text.map CandidateText.cut := by
  simp [handleIceCandidate, Gathered.text, SpitfireIceCandidate.text, CandidateText.cut,
    Function.comp_def, hm.toNative_ofCString]

/-- What the near application is told and hands to the far one. -/
inductive Signal (M : Type) where
  | description (r : Report)
  | candidate (c : SpitfireIceCandidate M)

/-- The call for a description: an offer is a request, an answer the reply to one. -/
def Report.call (r : Report) (parses : Bool) : Call :=
  match r.request.creation with
  | .offer => .onOfferRequest parses r.sdp
  | .answer _ _ => .onOfferReply parses "answer" r.sdp

/-- A call of `AddIceCandidate`: the candidate, whether the library would take it once there
has been a remote description, and what was returned. -/
structure Addition where
  text : CandidateText
  fit : Bool
  returned : Bool
  deriving DecidableEq, Repr

/-- The two sides, whether a remote description has come into force on the far one, the
candidates that the near side's library has written, the signals on their way, and the calls
made. -/
structure Trickle (M : Type) where
  near : Session
  far : Session
  described : Bool := false
  gathered : List CandidateText := []
  signals : List (Signal M) := []
  added : List Addition := []

/-- Both applications make all the calls they like, and a signal may overtake others. -/
inductive TrickleStep where
  | near (a : Step)
  | gather (c : Gathered)
  | far (a : Step)
  | setDescription (i : Nat) (parses : Bool)
  | addIceCandidate (i : Nat) (accepts : Bool)
  deriving DecidableEq, Repr

namespace Session

/-- Gathering begins with a local description, and candidates are raised on the signaling
thread, between the deliveries. -/
def gathers (s : Session) : Bool :=
  s.fault.isNone && s.delivery.isNone && !s.accepted.isEmpty &&
    (s.conductor.peerObserver.bind PeerConnectionObserver.peerConnection).isSome

/-- The step puts a remote description into force. -/
def describes (s : Session) (a : Step) : Bool :=
  match a, s.todo with
  | .execute true, .setRemoteDescription type _ :: _ => type ≠ .rollback
  | _, _ => false

end Session

namespace Trickle
variable {M : Type} (m : Marshalling M) (reads : CandidateText → Bool)

/-- `reads` is what `CreateIceCandidate` makes of a text. The library adds no candidate before
there is a remote description; what it has against one later on, as after a rollback, is its own
affair. -/
def next (t : Trickle M) : TrickleStep → Option (Trickle M)
  | .near a => do
    let s ← t.near.next a
    let news := s.reports.drop t.near.reports.length
    return { t with near := s, signals := t.signals ++ news.map .description }
  | .gather c =>
    if t.near.gathers then
      some { t with
        gathered := t.gathered ++ c.text.toList
        signals := t.signals ++ (handleIceCandidate m c).toList.map .candidate }
    else none
  | .far a => do
    let s ← t.far.next a
    return { t with far := s, described := t.described || t.far.describes a && s.fault.isNone }
  | .setDescription i parses =>
    match t.signals[i]? with
    | some (.description r) => do
      let s ← t.far.next (.call (r.call parses))
      return { t with far := s, signals := t.signals.eraseIdx i }
    | _ => none
  | .addIceCandidate i accepts =>
    match t.signals[i]? with
    | some (.candidate c) =>
      if t.far.fault.isNone && t.far.todo.isEmpty then
        let x := c.text m
        match addIceCandidate (reads x) (t.described && accepts) x t.far.conductor with
        | .error f =>
          some { t with far := t.far.crash .application f, signals := t.signals.eraseIdx i }
        | .ok (returned, s) => some { t with
            far := { t.far with conductor := s }
            signals := t.signals.eraseIdx i
            added := t.added ++ [⟨x, reads x && accepts, returned⟩] }
      else none
    | _ => none

end Trickle

def Call.disposes : Call → Bool
  | .deletePeerConnection _ => true
  | _ => false

/-- The signals are taken in order, the far side is not disposed, and its library makes sense
of the descriptions and accepts them. -/
def InOrder : TrickleStep → Prop
  | .far (.call c) => c.disposes = false
  | .far (.execute accepts) => accepts = true
  | .setDescription i parses => i = 0 ∧ parses = true
  | .addIceCandidate i _ => i = 0
  | _ => True

instance : DecidablePred InOrder
  | .far (.call _) => inferInstanceAs (Decidable (_ = false))
  | .far (.execute _) => inferInstanceAs (Decidable (_ = true))
  | .setDescription _ _ => inferInstanceAs (Decidable (_ ∧ _))
  | .addIceCandidate _ _ => inferInstanceAs (Decidable (_ = 0))
  | .near _ | .gather _ | .far (.onFailure _) | .far (.onSuccess _ _)
  | .far (.setLocalDescription _) | .far .report => inferInstanceAs (Decidable True)

/-- A description that is in force has been reported, or is about to be. -/
def Session.Reported (s : Session) : Prop :=
  s.accepted ≠ [] → s.reports ≠ [] ∨ ∃ d, s.delivery = some d ∧ d.stage = .applied

theorem reported_next {s t : Session} {a : Step} (h : s.Reported) (hnext : s.next a = some t) :
    t.Reported := by
  obtain ⟨_, hmove⟩ := move_of_next hnext
  cases hmove with
  | call _ | executeFaults _ _ | setLocalFaults _ _ | setLocalNull _ _ | onFailure _ _
  | onSuccessFaults _ _ _ | onSuccessReturns _ _ _ => exact h
  | @execute st rest goesOn c accepts _ _ _ =>
    obtain ⟨_, remote, heq⟩ | ⟨_, creation, heq⟩ :=
      Ledger.perform_cases { s with conductor := c, todo := if goesOn then rest else [] } accepts st
    · rw [heq]
      exact h
    · rw [heq]
      exact h
  | onSuccess hidle _ _ _ =>
    intro haccepted
    obtain hreports | ⟨d, hd, _⟩ := h haccepted
    · exact Or.inl hreports
    · rw [hidle] at hd
      cases hd
  | @setLocal r sdp n accepts _ _ => cases accepts <;> exact fun _ => Or.inr ⟨_, rfl, rfl⟩
  | report _ => exact fun _ => Or.inl (by simp)

/-- The connection is there and stays there. -/
structure Session.Lasting (s : Session) : Prop where
  connected : Connected s.conductor
  plain : ∀ st ∈ s.todo, ∀ x, st ≠ .teardown x

/-- A remote description is yet to be set by the call in progress. -/
def Session.Describing (s : Session) : Prop :=
  ∃ type sdp, type ≠ .rollback ∧ .setRemoteDescription type sdp ∈ s.todo

theorem describing_call {r : Report} {s : Session} (htodo : s.todo = (r.call true).body) :
    s.Describing := by
  rw [Session.Describing, htodo, Report.call]
  cases r.request.creation with
  | offer =>
    exact ⟨.offer, r.sdp, by decide, by
      simp [Call.body, createSessionDescription, sdpTypeFromString]⟩
  | answer _ _ =>
    exact ⟨.answer, r.sdp, by decide, by
      simp [Call.body, createSessionDescription, sdpTypeFromString]⟩

/-- What an execution on the far side comes to. -/
theorem Session.Lasting.executes {s t : Session} {accepts : Bool} (h : s.Lasting)
    (hnext : s.next (.execute accepts) = some t) : ∃ st, s.todo = st :: t.todo ∧
      Connected t.conductor ∧ t.fault = none := by
  obtain ⟨hfault, hmove⟩ := move_of_next hnext
  cases hmove with
  | executeFaults htodo hexec =>
    obtain ⟨c, hok, _⟩ := h.connected.exec (h.plain _ (by rw [htodo]; exact List.mem_cons_self))
    rw [hexec] at hok
    cases hok
  | @execute st rest goesOn c accepts htodo _ hexec =>
    obtain ⟨c', hok, hc'⟩ := h.connected.exec (h.plain st (by rw [htodo]; exact List.mem_cons_self))
    obtain ⟨rfl, rfl⟩ := Prod.mk.inj (Except.ok.inj (hok.symm.trans hexec))
    obtain ⟨hconductor, hrest, _, hperform⟩ :=
      perform_frame { s with conductor := c', todo := rest } accepts st
    exact ⟨st, htodo.trans (congrArg (st :: ·) hrest.symm), hconductor ▸ hc', hperform.trans hfault⟩

/-- A step of the far side, guarded as above. -/
theorem lasting_next {s t : Session} {a : Step} (h : s.Lasting)
    (hcall : ∀ order, a ≠ .call (.deletePeerConnection order)) (hnext : s.next a = some t) :
    t.Lasting := by
  by_cases hexecute : ∃ accepts, a = .execute accepts
  · obtain ⟨accepts, rfl⟩ := hexecute
    obtain ⟨st, htodo, hconnected, _⟩ := h.executes hnext
    exact ⟨hconnected, fun st' hst' => h.plain st' (by rw [htodo]; exact .tail _ hst')⟩
  · obtain ⟨_, hmove⟩ := move_of_next hnext
    cases hmove with
    | @call c _ =>
      exact ⟨h.connected, (Ledger.body_issues fun order hc => hcall order (by rw [hc])).1⟩
    | executeFaults _ _ | execute _ _ _ => exact absurd ⟨_, rfl⟩ hexecute
    | @setLocal r sdp n accepts _ _ => cases accepts <;> exact ⟨h.connected, h.plain⟩
    | _ => exact ⟨h.connected, h.plain⟩

theorem describing_next {s t : Session} {a : Step} (h : s.Lasting) (haccepts : a ≠ .execute false)
    (hdescribing : s.Describing) (hnext : s.next a = some t) :
    s.describes a = true ∧ t.fault = none ∨ t.Describing := by
  obtain ⟨type, sdp, htype, hmem⟩ := hdescribing
  by_cases hexecute : a = .execute true
  · subst hexecute
    obtain ⟨st, htodo, _, hfault⟩ := h.executes hnext
    rw [htodo] at hmem
    rcases List.mem_cons.mp hmem with rfl | hmem
    · exact Or.inl ⟨by simp [Session.describes, htodo, htype], hfault⟩
    · exact Or.inr ⟨type, sdp, htype, hmem⟩
  · obtain ⟨_, hmove⟩ := move_of_next hnext
    right
    cases hmove with
    | call hidle =>
      rw [hidle] at hmem
      cases hmem
    | @executeFaults _ _ _ accepts _ _ | @execute _ _ _ _ accepts _ _ _ =>
      cases accepts with
      | true => exact absurd rfl hexecute
      | false => exact absurd rfl haccepts
    | @setLocal r sdp n accepts _ _ => cases accepts <;> exact ⟨type, _, htype, hmem⟩
    | _ => exact ⟨type, sdp, htype, hmem⟩

theorem Connected.addIceCandidate {s : State} (h : Connected s) (parses applied : Bool)
    (c : CandidateText) : ∃ t,
      Conductor.addIceCandidate parses applied c s = .ok (parses && applied, t) ∧ Connected t := by
  obtain ⟨⟨n, hn⟩, hset⟩ := h
  cases parses with
  | false => exact ⟨s, rfl, ⟨n, hn⟩, hset⟩
  | true =>
    refine ⟨s.record [.addIceCandidate c], ?_, ⟨n, hn⟩, hset⟩
    rw [Conductor.addIceCandidate, if_pos rfl, withConnection, hn, Bool.true_and]

/-- No candidate is at the head of the signals before the far side has a description to add it
to, or is just about to set it. -/
inductive Led {M : Type} (t : Trickle M) : Prop
  | silent (hreports : t.near.reports = []) (hsignals : t.signals = [])
  | leading {r : Report} {rest : List (Signal M)} (hsignals : t.signals = .description r :: rest)
  | describing (h : t.far.Describing)
  | described (h : t.described = true)

def Signal.text {M : Type} (m : Marshalling M) : Signal M → Option CandidateText
  | .description _ => none
  | .candidate c => some (c.text m)

structure Trickling {M : Type} (m : Marshalling M) (t : Trickle M) : Prop where
  far : t.far.Lasting
  reported : t.near.Reported
  led : Led t
  order : t.added.map Addition.text ++ t.signals.filterMap (Signal.text m) =
    t.gathered.map CandidateText.cut
  returned : ∀ x ∈ t.added, x.returned = x.fit

variable {M : Type} {m : Marshalling M} {reads : CandidateText → Bool} {t u : Trickle M}

/-- More signals behind the first. -/
theorem Led.append (h : Led t) (hreports : t.near.reports ≠ []) (more : List (Signal M))
    (gathered : List CandidateText) :
    Led { t with signals := t.signals ++ more, gathered := gathered } := by
  cases h with
  | silent hnone _ => exact absurd hnone hreports
  | leading hsignals => exact .leading (by rw [hsignals]; rfl)
  | describing h => exact .describing h
  | described h => exact .described h

theorem texts_of_descriptions (rs : List Report) :
    (rs.map (Signal.description (M := M))).filterMap (Signal.text m) = [] := by
  simp [List.filterMap_map, Function.comp_def, Signal.text]

theorem texts_cons (c : SpitfireIceCandidate M) (rest : List (Signal M)) :
    (Signal.candidate c :: rest).filterMap (Signal.text m) =
      c.text m :: rest.filterMap (Signal.text m) := rfl

theorem texts_of_candidate (hm : m.Lossless) (c : Gathered) :
    ((handleIceCandidate m c).toList.map Signal.candidate).filterMap (Signal.text m) =
      c.text.toList.map CandidateText.cut := by
  have htext := text_handleIceCandidate hm c
  cases hc : handleIceCandidate m c with
  | none =>
    rw [hc] at htext
    rw [Option.map_eq_none_iff.mp htext.symm]
    rfl
  | some x =>
    rw [hc] at htext
    obtain ⟨y, hy, hxy⟩ := Option.map_eq_some_iff.mp htext.symm
    rw [hy]
    exact congrArg (fun z => [z]) hxy.symm

theorem trickling_near (h : Trickling m t) {a : Step} (hnext : t.next m reads (.near a) = some u) :
    Trickling m u := by
  obtain ⟨s, hs, ⟨⟩⟩ := Option.bind_eq_some_iff.mp hnext
  refine ⟨h.far, reported_next h.reported hs, ?_, ?_, h.returned⟩
  · cases h.led with
    | silent hreports hsignals =>
      cases hnew : s.reports with
      | nil => exact .silent hnew (by rw [hsignals, List.drop_nil]; rfl)
      | cons r rest => exact .leading (by rw [hsignals, hreports]; rfl)
    | leading hsignals => exact .leading (by rw [hsignals]; rfl)
    | describing h => exact .describing h
    | described h => exact .described h
  · rw [List.filterMap_append, texts_of_descriptions, List.append_nil]
    exact h.order

theorem trickling_gather (hm : m.Lossless) (h : Trickling m t) {c : Gathered}
    (hnext : t.next m reads (.gather c) = some u) : Trickling m u := by
  dsimp only [Trickle.next] at hnext
  split at hnext
  · rename_i hgathers
    cases hnext
    have hreports : t.near.reports ≠ [] := by
      simp only [Session.gathers, Bool.and_eq_true, Option.isNone_iff_eq_none] at hgathers
      obtain ⟨⟨⟨_, hidle⟩, haccepted⟩, _⟩ := hgathers
      obtain hreports | ⟨d, hd, _⟩ := h.reported (by simpa using haccepted)
      · exact hreports
      · rw [hidle] at hd
        cases hd
    refine ⟨h.far, h.reported, h.led.append hreports _ _, ?_, h.returned⟩
    rw [List.filterMap_append, texts_of_candidate hm, ← List.append_assoc, h.order, List.map_append]
  · cases hnext

theorem trickling_far (h : Trickling m t) {a : Step} (hguard : InOrder (.far a))
    (hnext : t.next m reads (.far a) = some u) : Trickling m u := by
  obtain ⟨s, hs, ⟨⟩⟩ := Option.bind_eq_some_iff.mp hnext
  have hcall : ∀ order, a ≠ .call (.deletePeerConnection order) := by
    rintro order rfl
    cases hguard
  have haccepts : a ≠ .execute false := by
    rintro rfl
    cases hguard
  refine ⟨lasting_next h.far hcall hs, h.reported, ?_, h.order, h.returned⟩
  cases h.led with
  | silent hreports hsignals => exact .silent hreports hsignals
  | leading hsignals => exact .leading hsignals
  | describing hdescribing =>
    rcases describing_next h.far haccepts hdescribing hs with ⟨hdescribes, hfault⟩ | hdescribing
    · exact .described (by simp [hdescribes, hfault])
    · exact .describing hdescribing
  | described h => exact .described (by simp [h])

theorem trickling_setDescription (h : Trickling m t) {i : Nat} {parses : Bool}
    (hguard : InOrder (.setDescription i parses))
    (hnext : t.next m reads (.setDescription i parses) = some u) : Trickling m u := by
  obtain ⟨rfl, rfl⟩ := hguard
  dsimp only [Trickle.next] at hnext
  split at hnext
  · rename_i r hr
    obtain ⟨s, hs, ⟨⟩⟩ := Option.bind_eq_some_iff.mp hnext
    rw [← List.head?_eq_getElem?] at hr
    obtain ⟨rest, hsignals⟩ := List.head?_eq_some_iff.mp hr
    have hcall : ∀ order, Step.call (r.call true) ≠ .call (.deletePeerConnection order) := by
      intro order hcall
      unfold Report.call at hcall
      split at hcall <;> cases hcall
    refine ⟨lasting_next h.far hcall hs, h.reported, .describing ?_, ?_, h.returned⟩
    · obtain ⟨_, hmove⟩ := move_of_next hs
      cases hmove
      exact describing_call rfl
    · have horder := h.order
      rw [hsignals, List.filterMap_cons_none rfl] at horder
      simp only [hsignals, List.eraseIdx_cons_zero]
      exact horder
  · cases hnext

theorem trickling_addIceCandidate (h : Trickling m t) {i : Nat} {accepts : Bool}
    (hguard : InOrder (.addIceCandidate i accepts))
    (hnext : t.next m reads (.addIceCandidate i accepts) = some u) : Trickling m u := by
  obtain rfl : i = 0 := hguard
  dsimp only [Trickle.next] at hnext
  split at hnext
  · rename_i c hc
    rw [← List.head?_eq_getElem?] at hc
    obtain ⟨rest, hsignals⟩ := List.head?_eq_some_iff.mp hc
    split at hnext
    · rename_i hidle
      rw [Bool.and_eq_true] at hidle
      have htodo : t.far.todo = [] := by simpa using hidle.2
      -- Only a description could be first otherwise, and no call is in progress.
      have hdescribed : t.described = true := by
        cases h.led with
        | silent _ hnone => cases hnone.symm.trans hsignals
        | leading hfirst => cases hfirst.symm.trans hsignals
        | describing hdescribing =>
          obtain ⟨type, sdp, -, hmem⟩ := hdescribing
          rw [htodo] at hmem
          cases hmem
        | described hdescribed => exact hdescribed
      have horder := h.order
      rw [hsignals, texts_cons] at horder
      obtain ⟨s, hadd, hs⟩ := h.far.connected.addIceCandidate (reads (c.text m)) accepts (c.text m)
      rw [hdescribed, Bool.true_and, hadd] at hnext
      cases hnext
      refine ⟨⟨hs, h.far.plain⟩, h.reported, .described rfl, ?_, ?_⟩
      · simpa [hsignals] using horder
      · intro x hx
        rcases List.mem_append.mp hx with hx | hx
        · exact h.returned x hx
        · cases List.mem_singleton.mp hx
          rfl
    · cases hnext
  · cases hnext

theorem trickling_next (hm : m.Lossless) (t : Trickle M) (a : TrickleStep) (u : Trickle M)
    (h : Trickling m t) (hguard : InOrder a) (hnext : t.next m reads a = some u) :
    Trickling m u := by
  cases a with
  | near a => exact trickling_near h hnext
  | gather c => exact trickling_gather hm h hnext
  | far a => exact trickling_far h hguard hnext
  | setDescription i parses => exact trickling_setDescription h hguard hnext
  | addIceCandidate i accepts => exact trickling_addIceCandidate h hguard hnext

theorem trickling_fresh (c : State) {d : State} (hd : Connected d) :
    Trickling m { near := { conductor := c }, far := { conductor := d } } where
  far := ⟨hd, by simp⟩
  reported := absurd rfl
  led := .silent rfl rfl
  order := rfl
  returned := by simp

/-- Where marshalling loses nothing, an application that passes on what it is told in the order
in which it is told loses no candidate. Each comes to the other side with the text it was
written with, up to a NUL, and not before a remote description, so that `AddIceCandidate`
refuses none that the library has nothing against. What makes this so is that `OnSuccess`
reports a description before its thread can raise the first candidate. -/
theorem candidates_in_order (hm : m.Lossless) {c d : State} (hd : Connected d)
    {steps : List TrickleStep} (hguard : ∀ a ∈ steps, InOrder a)
    (hrun : run (Trickle.next m reads) { near := { conductor := c }, far := { conductor := d } }
      steps = some t) :
    t.added.map Addition.text <+: t.gathered.map CandidateText.cut ∧
      ∀ x ∈ t.added, x.returned = x.fit := by
  have h : Trickling m t :=
    run_invariant_along (P := fun _ => InOrder) (trickling_next hm) (trickling_fresh c hd) hrun
      ((along_labels_iff hrun).mpr hguard)
  exact ⟨⟨_, h.order⟩, h.returned⟩

/-- An offer, and a candidate after it. -/
private def offered : List TrickleStep :=
  [.near (.call .createOffer), .near (.execute true), .near (.execute true),
    .near (.onSuccess 0 "offer"), .near (.setLocalDescription true), .near .report,
    .gather ⟨[48], 0, some [99, 0, 100]⟩]

theorem candidates_in_order_one : ∃ t,
    run (Trickle.next .verbatim fun _ => true)
      { near := { conductor := .initialized }, far := { conductor := .initialized } }
      (offered ++ [.setDescription 0 true, .far (.execute true), .far (.execute true),
        .far (.execute true), .addIceCandidate 0 true]) = some t ∧
      t.added = [⟨⟨[48], 0, [99]⟩, true, true⟩] ∧
      t.added.map Addition.text <+: t.gathered.map CandidateText.cut := by
  obtain ⟨t, hrun, hadded⟩ : ∃ t, run (Trickle.next .verbatim fun _ => true)
      { near := { conductor := .initialized }, far := { conductor := .initialized } }
      (offered ++ [.setDescription 0 true, .far (.execute true), .far (.execute true),
        .far (.execute true), .addIceCandidate 0 true]) = some t ∧
      t.added = [⟨⟨[48], 0, [99]⟩, true, true⟩] := ⟨_, rfl, rfl⟩
  exact ⟨t, hrun, hadded,
    (candidates_in_order Marshalling.verbatim_lossless ⟨⟨_, rfl⟩, rfl⟩ (by decide) hrun).1⟩

-- A candidate that overtakes its description is refused, and is not tried again.
example : (run (Trickle.next .verbatim fun _ => true)
    { near := { conductor := .initialized }, far := { conductor := .initialized } }
    (offered ++ [.addIceCandidate 1 true])).map Trickle.added =
      some [⟨⟨[48], 0, [99]⟩, true, false⟩] := rfl

end Spitfire.Conductor
