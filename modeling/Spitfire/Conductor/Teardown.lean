import Spitfire.Conductor.State
import Spitfire.Transition.Fallible

/-! The teardown as a whole: what it does before, during and after its walk over the
channel map, and what it leaves. -/
namespace Spitfire.Conductor
open Transition

/-- Only the channel map and the log differ. -/
def SameOutsideChannels (s t : State) : Prop :=
  t = { s with dataObservers := t.dataObservers, log := t.log }

theorem SameOutsideChannels.refl (s : State) : SameOutsideChannels s s := rfl

theorem SameOutsideChannels.trans {s t u : State} (h : SameOutsideChannels s t)
    (h' : SameOutsideChannels t u) : SameOutsideChannels s u := by
  rw [SameOutsideChannels] at h h' ⊢
  rw [h', h]

theorem SameOutsideChannels.observers {s t : State} (h : SameOutsideChannels s t) :
    t.peerObserver = s.peerObserver ∧ t.detached = s.detached := by
  rw [SameOutsideChannels] at h
  have hpeer := congrArg State.peerObserver h
  have hdetached := congrArg State.detached h
  exact ⟨hpeer, hdetached⟩

theorem unregisterEntry_outside {s t : State} {l : Label} (h : unregisterEntry s l = .ok t) :
    SameOutsideChannels s t := by
  unfold unregisterEntry at h
  split at h
  · cases h
    rfl
  · rename_i o ho
    obtain ⟨channel, registered⟩ := o
    cases channel with
    | none => cases h
    | some ch =>
      cases h
      rfl

theorem unregisterObservers_outside {order : List Label} {s t : State}
    (h : order.foldlM unregisterEntry s = .ok t) : SameOutsideChannels s t := by
  refine foldlM_keeps (I := SameOutsideChannels s) ?_ (.refl s) h
  intro s₁ l s₂ h₁ h₂
  exact h₁.trans (unregisterEntry_outside h₂)

theorem erase_outside (s : State) (l : Label) : SameOutsideChannels s (s.erase l) := by
  unfold State.erase
  split <;> rfl

theorem clearObservers_outside (order : List Label) (s : State) :
    SameOutsideChannels s (s.clearObservers order) := by
  have hloop (labels : List Label) : SameOutsideChannels s (labels.foldl State.erase s) := by
    induction labels generalizing s with
    | nil => rfl
    | cons l labels ih => exact (erase_outside s l).trans (ih (s.erase l))
  exact hloop _

/-- What the teardown does before it walks the map. -/
def releaseConnection (s : State) : State :=
  { s with
    peerObserver := none
    detached := none
    pcFactory := none
    socketFactory := none
    networkManager := none
    log := s.log ++
      (if (connectionOf s.peerObserver).isSome then [.closeConnection] else []) ++
      letGo (connectionOf s.peerObserver) .destroyConnection ++
      letGo s.pcFactory .releaseFactory ++
      letGo s.socketFactory .releaseSocketFactory ++
      letGo s.networkManager .releaseNetworkManager }

/-- What the teardown does after it has cleared the map. -/
def releaseThreads (s : State) : State :=
  { s with
    servers := []
    signalingThread := none
    workerThread := none
    networkThread := none
    sessionObserver := false
    setSessionObserver := false
    log := s.log ++ quitThread s.signalingThread .signaling ++ quitThread s.workerThread .worker ++
      quitThread s.networkThread .network ++ (if s.currentThread then [.quit .current] else []) }

theorem releases_exec (s : State) : (.closeConnection :: Teardown.releases).foldlM
    (fun s t => Teardown.exec t s) s = .ok (releaseConnection s) := rfl

theorem departures_exec (s : State) : Teardown.departures.foldlM
    (fun s t => Teardown.exec t s) s = .ok (releaseThreads s) := rfl

/-- Only the walk over the map can fault. -/
theorem deletePeerConnection_eq (order : List Label) (s : State) :
    deletePeerConnection order s = (order.foldlM unregisterEntry (releaseConnection s)).map
      fun s => releaseThreads (s.clearObservers order) := by
  rw [deletePeerConnection, teardown_eq, List.foldlM_append, releases_exec, ok_bind,
    List.foldlM_cons, Teardown.exec]
  cases order.foldlM unregisterEntry (releaseConnection s) with
  | error f => rfl
  | ok s₁ => rw [ok_bind, List.foldlM_cons, Teardown.exec, ok_bind, departures_exec, Except.map]

/-- A teardown that returns has released every observer and forgotten the servers. -/
theorem deletePeerConnection_ok {order : List Label} {s t : State}
    (h : deletePeerConnection order s = .ok t) : t.peerObserver = none ∧
      t.sessionObserver = false ∧ t.setSessionObserver = false ∧ t.servers = [] := by
  rw [deletePeerConnection_eq, map_eq_ok] at h
  obtain ⟨s₁, hloop, rfl⟩ := h
  have houtside := (unregisterObservers_outside hloop).trans (clearObservers_outside order s₁)
  exact ⟨houtside.observers.1, rfl, rfl, rfl⟩

/-! Label by label, what the walk and the clearing do to the map. -/

variable {s t : State}

theorem unregisterEntry_of_lookup {l : Label} {o : DataChannelObserver} {ch : Channel}
    (ho : s.dataObservers.lookup l = some o) (hch : o.dataChannel = some ch) :
    unregisterEntry s l =
      .ok ((s.record [.close ch.id, .unregisterObserver ch.id]).update l ⟨some ch, false⟩) := by
  obtain ⟨channel, registered⟩ := o
  cases hch
  rw [unregisterEntry, ho]
  rfl

theorem erase_lookup (s : State) (l l' : Label) :
    (s.erase l).dataObservers.lookup l' = if l' = l then none else s.dataObservers.lookup l' := by
  unfold State.erase
  split
  · rename_i hnone
    split
    · rename_i hl
      rw [hl, hnone]
    · rfl
  · split
    · rename_i hl
      rw [hl]
      exact AList.lookup_erase l s.dataObservers
    · rename_i hl
      exact AList.lookup_erase_ne hl

theorem unregisterEntry_lookup {l : Label} (h : unregisterEntry s l = .ok t) {l' : Label}
    (hl : l' ≠ l) : t.dataObservers.lookup l' = s.dataObservers.lookup l' := by
  unfold unregisterEntry at h
  split at h
  · cases h
    rfl
  · rename_i o ho
    obtain ⟨channel, registered⟩ := o
    cases channel with
    | none => cases h
    | some ch =>
      cases h
      exact AList.lookup_insert_ne hl

theorem eraseAll_lookup (labels : List Label) (s : State) (l : Label) :
    (labels.foldl State.erase s).dataObservers.lookup l =
      if l ∈ labels then none else s.dataObservers.lookup l := by
  induction labels generalizing s with
  | nil => simp
  | cons l' labels ih =>
    rw [List.foldl_cons, ih, erase_lookup]
    by_cases hl : l ∈ labels
    · simp [hl]
    · by_cases hne : l = l'
      · simp [hne]
      · simp [hl, hne]

/-- Erasing removes what is found under each label. -/
theorem eraseAll_log {labels : List Label} (hnodup : labels.Nodup) (s : State) :
    (labels.foldl State.erase s).log = s.log ++ labels.flatMap fun l =>
      (s.dataObservers.lookup l).toList.flatMap DataChannelObserver.removal := by
  induction labels generalizing s with
  | nil => simp
  | cons l labels ih =>
    obtain ⟨hl, hnodup⟩ := List.nodup_cons.mp hnodup
    have htail : labels.flatMap (fun l' =>
        ((s.erase l).dataObservers.lookup l').toList.flatMap DataChannelObserver.removal) =
        labels.flatMap (fun l' =>
          (s.dataObservers.lookup l').toList.flatMap DataChannelObserver.removal) := by
      apply List.flatMap_congr
      intro l' hl'
      rw [erase_lookup, if_neg (ne_of_mem_of_not_mem hl' hl)]
    have hhead : (s.erase l).log = s.log ++
        (s.dataObservers.lookup l).toList.flatMap DataChannelObserver.removal := by
      unfold State.erase
      cases s.dataObservers.lookup l <;> simp
    rw [List.foldl_cons, ih hnodup, htail, hhead, List.flatMap_cons, List.append_assoc]

theorem clearObservers_empty (order : List Label) (s : State) :
    (s.clearObservers order).dataObservers = ∅ := by
  have hnone (l : Label) : (s.clearObservers order).dataObservers.lookup l = none := by
    rw [State.clearObservers, eraseAll_lookup]
    split
    · rfl
    · rename_i hl
      rw [List.mem_append, not_or] at hl
      exact AList.lookup_eq_none.mpr (AList.mem_keys.not.mpr hl.2)
  apply AList.ext
  rw [AList.empty_entries, List.eq_nil_iff_forall_not_mem]
  rintro ⟨l, o⟩ hmem
  have hsome := AList.mem_lookup_iff.mpr hmem
  rw [hnone l] at hsome
  cases hsome

theorem eraseAll_nothing (labels : List Label) {s : State}
    (h : ∀ l ∈ labels, s.dataObservers.lookup l = none) : labels.foldl State.erase s = s := by
  induction labels with
  | nil => rfl
  | cons l labels ih =>
    have hnone : s.erase l = s := by
      rw [State.erase, h l (by simp)]
    rw [List.foldl_cons, hnone]
    exact ih fun l' hl' => h l' (by simp [hl'])

/-- An order that names every label leaves nothing for the end. -/
theorem clearObservers_eq {order : List Label} {s : State} (h : s.dataObservers.keys ⊆ order) :
    s.clearObservers order = order.foldl State.erase s := by
  rw [State.clearObservers, List.foldl_append]
  refine eraseAll_nothing _ fun l hl => ?_
  rw [eraseAll_lookup, if_pos (h hl)]

theorem unregisterObservers_nothing (hmap : s.dataObservers = ∅) (order : List Label) :
    order.foldlM unregisterEntry s = .ok s := by
  induction order with
  | nil => rfl
  | cons l order ih =>
    have hnone : unregisterEntry s l = .ok s := by
      rw [unregisterEntry, hmap, AList.lookup_empty]
    rw [List.foldlM_cons, hnone]
    exact ih

/-- Without channels the teardown always returns. -/
theorem deletePeerConnection_nothing (hmap : s.dataObservers = ∅) (order : List Label) :
    deletePeerConnection order s = .ok (releaseThreads (releaseConnection s)) := by
  have hmap' : (releaseConnection s).dataObservers = ∅ := hmap
  have hclear : (releaseConnection s).clearObservers order = releaseConnection s := by
    refine eraseAll_nothing _ fun l _ => ?_
    rw [hmap', AList.lookup_empty]
  rw [deletePeerConnection_eq, unregisterObservers_nothing hmap', Except.map, hclear]

theorem deletePeerConnection_empty {order : List Label}
    (h : deletePeerConnection order s = .ok t) : t.dataObservers = ∅ := by
  rw [deletePeerConnection_eq, map_eq_ok] at h
  obtain ⟨s₁, _, rfl⟩ := h
  exact clearObservers_empty order s₁

end Spitfire.Conductor
