import Spitfire.Conductor.Lifecycle

/-! What a teardown owes to the state that it finds, and in which order. Whatever came
before, it does all of that, once, and has nothing left to do the second time. -/
namespace Spitfire.Conductor
open Transition

variable {labelOf : Nat → Label} {s t : State}

/-- The identity of the channel that the map holds under a label, if it holds one. -/
def heldAt (s : State) (l : Label) : List Nat :=
  ((s.dataObservers.lookup l).bind DataChannelObserver.dataChannel).toList.map Channel.id

theorem mem_heldAt {l : Label} {c : Nat} : c ∈ heldAt s l ↔ ∃ ch, Holds s l ch ∧ ch.id = c := by
  simp [heldAt, Holds, Option.bind_eq_some_iff]

theorem heldAt_congr {l : Label} (h : t.dataObservers.lookup l = s.dataObservers.lookup l) :
    heldAt t l = heldAt s l := by
  rw [heldAt, h, heldAt]

/-- What the walk does at one label. -/
def closings (s : State) (l : Label) : List Event :=
  (heldAt s l).flatMap fun c => [.close c, .unregisterObserver c]

/-- What clearing the map does at one label after the walk. -/
def removals (s : State) (l : Label) : List Event := (heldAt s l).map fun c => .removed c false

/-- The walk closes and unregisters what it finds under each label. -/
theorem unregisterObservers_eq {order : List Label} (hnodup : order.Nodup)
    (hall : ∀ l ∈ order, ∃ o ch, s.dataObservers.lookup l = some o ∧ o.dataChannel = some ch) :
    ∃ t, order.foldlM unregisterEntry s = .ok t ∧ t.log = s.log ++ order.flatMap (closings s) ∧
      (∀ l ∉ order, t.dataObservers.lookup l = s.dataObservers.lookup l) ∧
      ∀ l ∈ order, ∃ ch, Holds s l ch ∧ t.dataObservers.lookup l = some ⟨some ch, false⟩ := by
  induction order generalizing s with
  | nil => exact ⟨s, rfl, by simp, fun _ _ => rfl, by simp⟩
  | cons l order ih =>
    obtain ⟨hl, hnodup⟩ := List.nodup_cons.mp hnodup
    obtain ⟨o, ch, ho, hch⟩ := hall l (by simp)
    have hrun := unregisterEntry_of_lookup ho hch
    have hframe (l' : Label) (hl' : l' ≠ l) := unregisterEntry_lookup hrun hl'
    obtain ⟨t, hloop, hlog, hothers, hwalked⟩ := ih hnodup (by
      intro l' hl'
      rw [hframe l' (ne_of_mem_of_not_mem hl' hl)]
      exact hall l' (by simp [hl']))
    refine ⟨t, ?_, ?_, ?_, ?_⟩
    · rw [List.foldlM_cons, hrun]
      exact hloop
    · have htail : order.flatMap (closings ((s.record
          [.close ch.id, .unregisterObserver ch.id]).update l ⟨some ch, false⟩)) =
          order.flatMap (closings s) := by
        apply List.flatMap_congr
        intro l' hl'
        rw [closings, heldAt_congr (hframe l' (ne_of_mem_of_not_mem hl' hl)), closings]
      have hhead : closings s l = [.close ch.id, .unregisterObserver ch.id] := by
        simp [closings, heldAt, ho, hch]
      rw [hlog, htail, List.flatMap_cons, hhead, ← List.append_assoc]
      rfl
    · intro l' hl'
      obtain ⟨hne, hl'⟩ := not_or.mp (List.mem_cons.not.mp hl')
      rw [hothers l' hl', hframe l' hne]
    · intro l' hl'
      rcases List.mem_cons.mp hl' with rfl | hl'
      · exact ⟨ch, ⟨o, ho, hch⟩, (hothers l' hl).trans (AList.lookup_insert _)⟩
      · obtain ⟨ch', ⟨o', ho', hch'⟩, hwalked⟩ := hwalked l' hl'
        rw [hframe l' (ne_of_mem_of_not_mem hl' hl)] at ho'
        exact ⟨ch', ⟨o', ho', hch'⟩, hwalked⟩

/-- What a teardown has to do in a state. -/
def Owed (s : State) : Event → Prop
  | .closeConnection | .destroyConnection => (connectionOf s.peerObserver).isSome = true
  | .releaseFactory => s.pcFactory.isSome = true
  | .releaseSocketFactory => s.socketFactory.isSome = true
  | .releaseNetworkManager => s.networkManager.isSome = true
  | .close c | .unregisterObserver c | .removed c false => ∃ l ch, Holds s l ch ∧ ch.id = c
  | .quit .signaling | .destroyThread .signaling => s.signalingThread.isSome = true
  | .quit .worker | .destroyThread .worker => s.workerThread.isSome = true
  | .quit .network | .destroyThread .network => s.networkThread.isSome = true
  | .quit .current => s.currentThread = true
  | _ => False

/-- What has to come first. A thread is quit only when nothing is left that uses it. -/
def Event.precedes : Event → Event → Bool
  | .closeConnection, .destroyConnection => true
  | .closeConnection, .releaseFactory | .destroyConnection, .releaseFactory => true
  | .close c, .unregisterObserver d | .unregisterObserver c, .removed d _ => c = d
  | .quit name, .destroyThread name' => name = name'
  | .releaseFactory, .quit _ | .releaseSocketFactory, .quit _ | .releaseNetworkManager, .quit _
  | .close _, .quit _ | .unregisterObserver _, .quit _ => true
  | _, _ => false

/-- The four parts of the teardown. -/
def Event.part : Event → Nat
  | .close _ | .unregisterObserver _ => 1
  | .removed _ _ => 2
  | .quit _ | .destroyThread _ => 3
  | _ => 0

theorem Event.part_le_of_precedes {a b : Event} (h : a.precedes b = true) : a.part ≤ b.part := by
  unfold Event.precedes at h
  split at h <;> first | (simp [Event.part]; done) | cases h

/-- The one event may come before the other, and is another one. -/
def Event.Apart (a b : Event) : Prop := a ≠ b ∧ b.precedes a = false

instance (a b : Event) : Decidable (a.Apart b) := inferInstanceAs (Decidable (_ ∧ _))

theorem Event.apart_of_part_lt {a b : Event} (h : a.part < b.part) : a.Apart b := by
  constructor
  · rintro rfl
    exact Nat.lt_irrefl _ h
  · rw [← Bool.not_eq_true]
    intro hprecedes
    exact absurd (part_le_of_precedes hprecedes) (by omega)

/-- What the teardown does before it walks the map. -/
def released (s : State) : List Event :=
  (if (connectionOf s.peerObserver).isSome then [.closeConnection] else []) ++
  letGo (connectionOf s.peerObserver) .destroyConnection ++
  letGo s.pcFactory .releaseFactory ++
  letGo s.socketFactory .releaseSocketFactory ++
  letGo s.networkManager .releaseNetworkManager

/-- What the teardown does after it has cleared the map. -/
def departed (s : State) : List Event :=
  quitThread s.signalingThread .signaling ++ quitThread s.workerThread .worker ++
  quitThread s.networkThread .network ++ (if s.currentThread then [.quit .current] else [])

theorem mem_quitThread {thread : Option Nat} {name : ThreadName} {e : Event} :
    e ∈ quitThread thread name ↔
      thread.isSome = true ∧ (e = .quit name ∨ e = .destroyThread name) := by
  cases thread <;> simp [quitThread]

/-- Different labels hold different channels. -/
theorem Observing.heldAt_disjoint (h : Observing labelOf s) {l l' : Label} (hl : l ≠ l') {c d : Nat}
    (hc : c ∈ heldAt s l) (hd : d ∈ heldAt s l') : c ≠ d := by
  have hlabel {l : Label} {c : Nat} (hc : c ∈ heldAt s l) : labelOf c = l := by
    obtain ⟨ch, hch, rfl⟩ := mem_heldAt.mp hc
    exact (h.holds hch).2
  rintro rfl
  exact hl ((hlabel hc).symm.trans (hlabel hd))

theorem mem_closings {l : Label} {e : Event} : e ∈ closings s l ↔
    ∃ c ∈ heldAt s l, e = .close c ∨ e = .unregisterObserver c := by
  simp [closings]

theorem mem_removals {l : Label} {e : Event} : e ∈ removals s l ↔
    ∃ c ∈ heldAt s l, e = .removed c false := by
  simp [removals, eq_comm]

theorem heldAt_cases (s : State) (l : Label) : heldAt s l = [] ∨ ∃ c, heldAt s l = [c] := by
  unfold heldAt
  cases (s.dataObservers.lookup l).bind DataChannelObserver.dataChannel <;> simp

theorem closings_apart (h : Observing labelOf s) {order : List Label} (hnodup : order.Nodup) :
    (order.flatMap (closings s)).Pairwise Event.Apart := by
  rw [List.pairwise_flatMap]
  constructor
  · intro l _
    rcases heldAt_cases s l with hnone | ⟨c, hc⟩
    · simp [closings, hnone]
    · simp [closings, hc, Event.Apart, Event.precedes]
  · refine hnodup.imp ?_
    intro l l' hl e he e' he'
    obtain ⟨c, hc, he⟩ := mem_closings.mp he
    obtain ⟨d, hd, he'⟩ := mem_closings.mp he'
    have hne := h.heldAt_disjoint hl hc hd
    rcases he with rfl | rfl <;> rcases he' with rfl | rfl <;>
      simp [Event.Apart, Event.precedes, hne, Ne.symm hne]

theorem removals_apart (h : Observing labelOf s) {labels : List Label} (hnodup : labels.Nodup) :
    (labels.flatMap (removals s)).Pairwise Event.Apart := by
  rw [List.pairwise_flatMap]
  constructor
  · intro l _
    rcases heldAt_cases s l with hnone | ⟨c, hc⟩
    · simp [removals, hnone]
    · simp [removals, hc]
  · refine hnodup.imp ?_
    intro l l' hl e he e' he'
    obtain ⟨c, hc, rfl⟩ := mem_removals.mp he
    obtain ⟨d, hd, rfl⟩ := mem_removals.mp he'
    simp [Event.Apart, Event.precedes, h.heldAt_disjoint hl hc hd]

theorem guarded_sublist {p : Prop} [Decidable p] (e : Event) :
    (if p then [e] else []).Sublist [e] := by
  split
  · exact List.Sublist.refl [e]
  · exact List.nil_sublist [e]

theorem quitThread_sublist (thread : Option Nat) (name : ThreadName) :
    (quitThread thread name).Sublist [.quit name, .destroyThread name] := by
  cases thread with
  | none => exact List.nil_sublist _
  | some n => exact List.Sublist.refl _

theorem released_sublist (s : State) : (released s).Sublist [.closeConnection, .destroyConnection,
    .releaseFactory, .releaseSocketFactory, .releaseNetworkManager] :=
  ((((guarded_sublist _).append (guarded_sublist _)).append (guarded_sublist _)).append
    (guarded_sublist _)).append (guarded_sublist _)

theorem departed_sublist (s : State) : (departed s).Sublist
    [.quit .signaling, .destroyThread .signaling, .quit .worker, .destroyThread .worker,
      .quit .network, .destroyThread .network, .quit .current] :=
  (((quitThread_sublist _ _).append (quitThread_sublist _ _)).append
    (quitThread_sublist _ _)).append
    (guarded_sublist _)

theorem released_apart (s : State) : (released s).Pairwise Event.Apart :=
  List.Pairwise.sublist (released_sublist s) (by decide)

theorem departed_apart (s : State) : (departed s).Pairwise Event.Apart :=
  List.Pairwise.sublist (departed_sublist s) (by decide)

/-- Everything that a teardown does, in the order in which it walks and clears the map. -/
def teardownLog (s : State) (order : List Label) : List Event :=
  released s ++ (order.flatMap (closings s) ++ (order.flatMap (removals s) ++ departed s))

theorem part_released {e : Event} (he : e ∈ released s) : e.part = 0 := by
  have hall : ∀ e ∈ [Event.closeConnection, .destroyConnection, .releaseFactory,
      .releaseSocketFactory, .releaseNetworkManager], e.part = 0 := by decide
  exact hall e ((released_sublist s).subset he)

theorem part_departed {e : Event} (he : e ∈ departed s) : e.part = 3 := by
  have hall : ∀ e ∈ [Event.quit .signaling, .destroyThread .signaling, .quit .worker,
      .destroyThread .worker, .quit .network, .destroyThread .network, .quit .current],
      e.part = 3 := by decide
  exact hall e ((departed_sublist s).subset he)

theorem part_closings {labels : List Label} {e : Event} (he : e ∈ labels.flatMap (closings s)) :
    e.part = 1 := by
  obtain ⟨l, _, he⟩ := List.mem_flatMap.mp he
  obtain ⟨c, _, rfl | rfl⟩ := mem_closings.mp he <;> rfl

theorem part_removals {labels : List Label} {e : Event} (he : e ∈ labels.flatMap (removals s)) :
    e.part = 2 := by
  obtain ⟨l, _, he⟩ := List.mem_flatMap.mp he
  obtain ⟨c, _, rfl⟩ := mem_removals.mp he
  rfl

/-- Nothing is done twice, and nothing before what has to come first. -/
theorem teardownLog_apart (h : Observing labelOf s) {order : List Label} (hnodup : order.Nodup) :
    (teardownLog s order).Pairwise Event.Apart := by
  have hlate {e : Event} (he : e ∈ order.flatMap (removals s) ++ departed s) : 2 ≤ e.part := by
    rcases List.mem_append.mp he with he | he
    · exact Nat.le_of_eq (part_removals he).symm
    · rw [part_departed he]
      decide
  rw [teardownLog, List.pairwise_append, List.pairwise_append, List.pairwise_append]
  refine ⟨released_apart s, ⟨closings_apart h hnodup, ⟨removals_apart h hnodup,
    departed_apart s, ?_⟩, ?_⟩, ?_⟩
  · intro a ha b hb
    apply Event.apart_of_part_lt
    rw [part_removals ha, part_departed hb]
    decide
  · intro a ha b hb
    apply Event.apart_of_part_lt
    rw [part_closings ha]
    exact hlate hb
  · intro a ha b hb
    apply Event.apart_of_part_lt
    rw [part_released ha]
    rcases List.mem_append.mp hb with hb | hb
    · rw [part_closings hb]
      decide
    · exact Nat.lt_of_lt_of_le (by decide) (hlate hb)

theorem exists_heldAt {labels : List Label} (hlabels : ∀ l, l ∈ s.dataObservers → l ∈ labels)
    {p : Nat → Prop} : (∃ l ∈ labels, ∃ c ∈ heldAt s l, p c) ↔ ∃ c, Owed s (.close c) ∧ p c := by
  constructor
  · rintro ⟨l, _, c, hc, hp⟩
    obtain ⟨ch, hch⟩ := mem_heldAt.mp hc
    exact ⟨c, ⟨l, ch, hch⟩, hp⟩
  · rintro ⟨c, ⟨l, ch, ⟨o, ho, hch⟩, hid⟩, hp⟩
    have hl : l ∈ s.dataObservers := AList.lookup_isSome.mp (by rw [ho]; rfl)
    exact ⟨l, hlabels l hl, c, mem_heldAt.mpr ⟨ch, ⟨o, ho, hch⟩, hid⟩, hp⟩

/-- Everything owed is done, and nothing else. -/
theorem mem_teardownLog {order : List Label} (horder : ∀ l, l ∈ s.dataObservers → l ∈ order)
    (e : Event) : e ∈ teardownLog s order ↔ Owed s e := by
  simp only [teardownLog, released, departed, List.mem_append, List.mem_flatMap, mem_closings,
    mem_removals, exists_heldAt horder, mem_letGo, mem_quitThread]
  cases e with
  | close c => simp
  | unregisterObserver c =>
    simp
    rfl
  | removed c registered =>
    cases registered with
    | false =>
      simp
      rfl
    | true => simp [Owed]
  | quit thread | destroyThread thread => cases thread <;> simp [Owed]
  | _ => simp [Owed]

/-- Nothing is left. -/
structure Cleared (s : State) : Prop where
  peerObserver : s.peerObserver = none
  detached : s.detached = none
  sessionObserver : s.sessionObserver = false
  setSessionObserver : s.setSessionObserver = false
  dataObservers : s.dataObservers = ∅
  networkThread : s.networkThread = none
  workerThread : s.workerThread = none
  signalingThread : s.signalingThread = none
  networkManager : s.networkManager = none
  socketFactory : s.socketFactory = none
  pcFactory : s.pcFactory = none
  servers : s.servers = []

/-- The teardown of a state has done what it owes, once and in order, and nothing is left. -/
def TornDown (s t : State) : Prop :=
  Cleared t ∧ ∃ es, t.log = s.log ++ es ∧ (∀ e, e ∈ es ↔ Owed s e) ∧ es.Nodup ∧
    es.Pairwise fun a b => b.precedes a = false

theorem deletePeerConnection_cleared {order : List Label}
    (h : deletePeerConnection order s = .ok t) : Cleared t := by
  have hempty := deletePeerConnection_empty h
  rw [deletePeerConnection_eq, map_eq_ok] at h
  obtain ⟨s₁, hloop, rfl⟩ := h
  have houtside := (unregisterObservers_outside hloop).trans (clearObservers_outside order s₁)
  rw [SameOutsideChannels] at houtside
  rw [houtside] at hempty ⊢
  exact ⟨rfl, rfl, rfl, rfl, hempty, rfl, rfl, rfl, rfl, rfl, rfl, rfl⟩

theorem releaseConnection_log (s : State) : (releaseConnection s).log = s.log ++ released s := by
  simp only [releaseConnection, released, List.append_assoc]

theorem releaseThreads_log (s : State) : (releaseThreads s).log = s.log ++ departed s := by
  simp only [releaseThreads, departed, List.append_assoc]

/-- Clearing after the walk removes the channels that the walk has closed. -/
theorem clearObservers_log {order : List Label} (hnodup : order.Nodup)
    (hkeys : t.dataObservers.keys ⊆ order)
    (hwalked : ∀ l ∈ order, ∃ ch, Holds s l ch ∧
      t.dataObservers.lookup l = some ⟨some ch, false⟩) :
    (t.clearObservers order).log = t.log ++ order.flatMap (removals s) := by
  rw [clearObservers_eq hkeys, eraseAll_log hnodup]
  congr 1
  apply List.flatMap_congr
  intro l hl
  obtain ⟨ch, ⟨o, ho, hch⟩, hlookup⟩ := hwalked l hl
  simp [hlookup, DataChannelObserver.removal, removals, heldAt, ho, hch]

/-- In whatever order the map is walked and cleared, the teardown of entries that observe their
channels succeeds, and this is what it does. -/
theorem Observing.deletePeerConnection_log (h : Observing labelOf s) {order : List Label}
    (horder : order.Perm s.dataObservers.keys) :
    ∃ t, deletePeerConnection order s = .ok t ∧ t.log = s.log ++ teardownLog s order := by
  have hnodup : order.Nodup := horder.nodup_iff.mpr s.dataObservers.keys_nodup
  have hentries : ∀ l ∈ order, ∃ o ch, (releaseConnection s).dataObservers.lookup l = some o ∧
      o.dataChannel = some ch := by
    intro l hl
    obtain ⟨o, ho⟩ := Option.isSome_iff_exists.mp
      (AList.lookup_isSome.mpr (AList.mem_keys.mpr (horder.subset hl)))
    obtain ⟨_, ch, hch, _, _⟩ := h l o ho
    exact ⟨o, ch, ho, hch⟩
  obtain ⟨t₁, hloop, hlog₁, hothers, hwalked⟩ := unregisterObservers_eq hnodup hentries
  have hrun : deletePeerConnection order s = .ok (releaseThreads (t₁.clearObservers order)) := by
    rw [deletePeerConnection_eq, hloop]
    rfl
  have houtside := (unregisterObservers_outside hloop).trans (clearObservers_outside order t₁)
  have hdeparted : departed (t₁.clearObservers order) = departed s := by
    rw [SameOutsideChannels] at houtside
    rw [houtside]
    rfl
  have hkeys : t₁.dataObservers.keys ⊆ order := by
    intro l hl
    by_contra hnot
    have hlookup := AList.lookup_isSome.mpr (AList.mem_keys.mpr hl)
    rw [hothers l hnot] at hlookup
    exact hnot (horder.mem_iff.mpr (AList.mem_keys.mp (AList.lookup_isSome.mp hlookup)))
  refine ⟨_, hrun, ?_⟩
  rw [releaseThreads_log, hdeparted, clearObservers_log hnodup hkeys hwalked, hlog₁,
    releaseConnection_log, teardownLog]
  simp only [List.append_assoc]
  rfl

/-- It is complete. -/
theorem Observing.tornDown (h : Observing labelOf s) {order : List Label}
    (horder : order.Perm s.dataObservers.keys) :
    ∃ t, deletePeerConnection order s = .ok t ∧ TornDown s t := by
  have hkeys (l : Label) (hl : l ∈ s.dataObservers) : l ∈ order :=
    horder.mem_iff.mpr (AList.mem_keys.mp hl)
  have hnodup : order.Nodup := horder.nodup_iff.mpr s.dataObservers.keys_nodup
  obtain ⟨t, hrun, hlog⟩ := h.deletePeerConnection_log horder
  have happart := teardownLog_apart h hnodup
  exact ⟨t, hrun, deletePeerConnection_cleared hrun, teardownLog s order, hlog,
    mem_teardownLog hkeys, happart.imp And.left, happart.imp And.right⟩

/-- Nothing is left to do for a second teardown, except that the caller's thread is told to
quit again. -/
theorem Cleared.deletePeerConnection (h : Cleared s) (order : List Label) :
    deletePeerConnection order s =
      .ok (s.record (if s.currentThread then [.quit .current] else [])) := by
  obtain ⟨hpeer, hdetached, hsession, hset, hmap, hnetwork, hworker, hsignaling, hmanager, hsocket,
    hfactory, hservers⟩ := h
  rw [deletePeerConnection_nothing hmap]
  obtain ⟨⟩ := s
  dsimp only at *
  subst_vars
  simp [releaseConnection, releaseThreads, connectionOf, letGo, quitThread, State.record]

/-- An initialization that fails tears down what it has made so far, with all channels. -/
theorem Observing.failed_initialization (h : Observing labelOf s) {outcome : Outcome}
    {order : List Label} (horder : order.Perm s.dataObservers.keys)
    (hfalse : initializePeerConnection outcome order s = .ok (false, t)) :
    ∃ s', s'.dataObservers = s.dataObservers ∧ TornDown s' t := by
  obtain ⟨s', hmap, _, _, ⟨hb, _⟩ | ⟨_, _, hteardown⟩⟩ := initializePeerConnection_ok hfalse
  · cases hb
  · rw [← hmap] at horder
    obtain ⟨t', ht', htorn⟩ := (h.congr hmap).tornDown horder
    obtain rfl := Except.ok.inj (ht'.symm.trans hteardown)
    exact ⟨s', hmap, htorn⟩

/-- From every state that the public operations reach, however often the connection was
initialized and whether or not it ever was: the teardown closes, unregisters, releases and
quits what there is, once and in order, leaves nothing, and done again does none of it. -/
theorem teardown_complete (view : Channel → ChannelView) {ops : List Operation} {t : State}
    (hrun : run (fun s op => op.next labelOf view s) .constructed ops = some t)
    {order : List Label} (horder : order.Perm t.dataObservers.keys) :
    ∃ u, deletePeerConnection order t = .ok u ∧ TornDown t u ∧
      ∀ order', order'.Perm u.dataObservers.keys → deletePeerConnection order' u =
        .ok (u.record (if u.currentThread then [.quit .current] else [])) := by
  have ht : Observing labelOf t := run_invariant (observing_next view) (observing_empty rfl) hrun
  obtain ⟨u, hdelete, htorn⟩ := ht.tornDown horder
  exact ⟨u, hdelete, htorn, fun order' _ => htorn.1.deletePeerConnection order'⟩

private def connectAndOpenTwo : List Operation :=
  [.addServerConfig ⟨"stun:host:3478", "", ""⟩, .initializePeerConnection .succeeds [],
    .channel (.createDataChannel [97] {} (some ⟨0, [97]⟩)),
    .channel (.handleDataChannel ⟨1, [98]⟩),
    .processMessages false]

/-- One channel from each side, and the teardown walks them in the order of the map. -/
theorem teardown_complete_two_channels : ∃ t u,
    run (fun s op => op.next (fun c => [97 + c.toUInt8]) (fun _ => .ofState .opened) s) .constructed
      connectAndOpenTwo = some t ∧ deletePeerConnection [[98], [97]] t = .ok u ∧ TornDown t u ∧
      Owed t (.close 0) ∧ Owed t (.close 1) ∧ Owed t (.quit .signaling) := by
  obtain ⟨t, ht, hkeys, hzero, hone, hthread⟩ : ∃ t,
      run (fun s op => op.next (fun c => [97 + c.toUInt8]) (fun _ => .ofState .opened) s) .constructed
        connectAndOpenTwo = some t ∧ t.dataObservers.keys = [[98], [97]] ∧
        t.dataObservers.lookup [97] = some ⟨some ⟨0, [97]⟩, true⟩ ∧
        t.dataObservers.lookup [98] = some ⟨some ⟨1, [98]⟩, true⟩ ∧
        t.signalingThread.isSome = true := ⟨_, rfl, rfl, rfl, rfl, rfl⟩
  have horder : [[98], [97]].Perm t.dataObservers.keys := by rw [hkeys]
  obtain ⟨u, hdelete, htorn, _⟩ := teardown_complete (fun _ => .ofState .opened) ht horder
  exact ⟨t, u, ht, hdelete, htorn, ⟨_, _, ⟨_, hzero, rfl⟩, rfl⟩, ⟨_, _, ⟨_, hone, rfl⟩, rfl⟩,
    hthread⟩

end Spitfire.Conductor
