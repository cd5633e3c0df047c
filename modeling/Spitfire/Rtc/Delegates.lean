import Mathlib.Logic.Function.Iterate
import Mathlib.Logic.Relation
import Spitfire.Transition.Run

/-! The managed side of an instance: delegates that the native conductor calls through bare
function pointers, handles that keep them alive, and a garbage collector that runs whenever
it likes. -/
namespace Spitfire.Rtc
open Transition

/-- The callbacks, in the order in which the constructor sets them up. -/
inductive Callback where
  | onSuccess | onFailure | onMessage | onIceCandidate | onDataChannelState | onIceState
  | onIceGatheringState | onBufferAmount
  deriving DecidableEq, Repr

def Callback.all : List Callback :=
  [onSuccess, onFailure, onMessage, onIceCandidate, onDataChannelState, onIceState,
    onIceGatheringState, onBufferAmount]

/-- The order in which the destructor frees their handles. -/
def Callback.freed : List Callback :=
  [onSuccess, onFailure, onMessage, onIceCandidate, onDataChannelState, onBufferAmount, onIceState,
    onIceGatheringState]

/-- The statements of the constructor, the destructor and the finalizer. -/
inductive WrapperStatement where
  | newConductor
  | newDelegate (c : Callback)
  | allocHandle (c : Callback)
  | setPointer (c : Callback)
  | testDisposed
  | freeHandle (c : Callback)
  | testConductor
  | takeConductor
  | deleteConductor
  | setDisposed
  | suppressFinalize
  deriving DecidableEq, Repr

namespace WrapperStatement

/-- `!SpitfireRtc` -/
def finalizer : List WrapperStatement := [.testConductor, .takeConductor, .deleteConductor]

/-- `~SpitfireRtc`, and what `Dispose` does after it. -/
def destructor : List WrapperStatement :=
  .testDisposed :: Callback.freed.map .freeHandle ++ finalizer ++ [.setDisposed, .suppressFinalize]

end WrapperStatement

inductive Lifetime where
  | absent | alive | gone
  deriving DecidableEq, Repr

/-- `held` says that the application has a reference, `todo` is what is left of the method that
runs. `broken` is set when the conductor calls what is no longer there. -/
structure Wrapper where
  held : Bool := true
  todo : List WrapperStatement := []
  object : Lifetime := .alive
  conductorField : Bool := false
  conductor : Lifetime := .absent
  delegates : Callback → Lifetime := fun _ => .absent
  handles : Callback → Bool := fun _ => false
  pointers : Callback → Bool := fun _ => false
  disposed : Bool := false
  suppressed : Bool := false
  finalized : Bool := false
  deletions : Nat := 0
  broken : Bool := false

namespace Wrapper

def exec (s : Wrapper) (rest : List WrapperStatement) : WrapperStatement → Wrapper
  | .newConductor => { s with todo := rest, conductorField := true, conductor := .alive }
  | .newDelegate c => { s with todo := rest, delegates := Function.update s.delegates c .alive }
  | .allocHandle c => { s with todo := rest, handles := Function.update s.handles c true }
  | .setPointer c => { s with todo := rest, pointers := Function.update s.pointers c true }
  -- The destructor returns, `Dispose` goes on.
  | .testDisposed => { s with todo := if s.disposed then rest.drop (rest.length - 1) else rest }
  | .freeHandle c => { s with todo := rest, handles := Function.update s.handles c false }
  | .testConductor => { s with todo := if s.conductorField then rest else rest.drop 2 }
  | .takeConductor => { s with todo := rest, conductorField := false }
  | .deleteConductor => { s with todo := rest, conductor := .gone, deletions := s.deletions + 1 }
  | .setDisposed => { s with todo := rest, disposed := true }
  | .suppressFinalize => { s with todo := rest, suppressed := true }

/-- The next statement of the method that runs. -/
def step (s : Wrapper) : Wrapper :=
  match s.todo with
  | [] => s
  | st :: rest => s.exec rest st

/-- The managed objects. -/
inductive Object where
  | wrapper
  | delegate (c : Callback)
  deriving DecidableEq

/-- A method that runs refers to its object, a handle to its delegate. -/
def Root (s : Wrapper) : Object → Prop
  | .wrapper => s.held = true ∨ s.todo ≠ []
  | .delegate c => s.handles c = true

/-- The object has its delegates in fields, and they have it as their target. -/
def Refers (s : Wrapper) : Object → Object → Prop
  | .wrapper, .delegate c => s.delegates c ≠ .absent
  | .delegate _, .wrapper => True
  | _, _ => False

def Reachable (s : Wrapper) (o : Object) : Prop :=
  ∃ r, s.Root r ∧ Relation.ReflTransGen s.Refers r o

/-- Whether the object is reachable; its delegates then are as well. -/
def reachable (s : Wrapper) : Bool :=
  s.held || !s.todo.isEmpty || Callback.all.any s.handles

/-- An object that cannot be reached is finalized, unless that was suppressed, and goes with
its delegates in the next collection. -/
def collect (s : Wrapper) : Wrapper :=
  if s.reachable then s
  else if s.suppressed then
    { s with
      object := .gone
      delegates := fun c => if s.delegates c = .absent then .absent else .gone }
  else { s with todo := WrapperStatement.finalizer, suppressed := true, finalized := true }

/-- The conductor calls through a function pointer. -/
def call (s : Wrapper) (c : Callback) : Wrapper :=
  { s with broken := s.broken || s.delegates c != .alive }

end Wrapper

inductive WrapperStep where
  | execute
  | dispose
  | release
  | callback (c : Callback)
  | collect
  deriving DecidableEq, Repr

/-- The collector and the conductor run whenever they like; a callback can come as long as the
conductor exists, also while it is being deleted. -/
def Wrapper.next (s : Wrapper) : WrapperStep → Option Wrapper
  | .execute => if s.todo = [] then none else some s.step
  | .dispose => if s.held && s.todo.isEmpty then
      some { s with todo := WrapperStatement.destructor } else none
  | .release => if s.held && s.todo.isEmpty then some { s with held := false } else none
  | .callback c => if s.pointers c && s.conductor == .alive then some (s.call c) else none
  | .collect => if s.object = .alive then some s.collect else none

theorem Callback.mem_all (c : Callback) : c ∈ Callback.all := by
  cases c <;> decide

namespace Wrapper
variable {s t : Wrapper}

/-- What the collector computes is what it is meant to. -/
theorem reachable_iff : s.reachable = true ↔ s.Reachable .wrapper := by
  have hall : Callback.all.any s.handles = true ↔ ∃ c, s.handles c = true := by
    simp [List.any_eq_true, Callback.mem_all]
  have hclosed : s.reachable = true ↔
      (s.held = true ∨ s.todo ≠ []) ∨ ∃ c, s.handles c = true := by
    rw [reachable, Bool.or_eq_true, hall]
    simp
  rw [hclosed]
  constructor
  · rintro (hroot | ⟨c, hc⟩)
    · exact ⟨.wrapper, hroot, .refl⟩
    · exact ⟨.delegate c, hc, .single trivial⟩
  · rintro ⟨_ | c, hroot, -⟩
    · exact Or.inl hroot
    · exact Or.inr ⟨c, hroot⟩

/-- Nothing that can be reached is collected: a delegate that is kept keeps its object, and
this all other delegates. -/
theorem collect_of_reachable {o : Object} (h : s.Reachable o) : s.collect = s := by
  obtain ⟨r, hroot, hpath⟩ := h
  have hwrapper : s.Reachable .wrapper := by
    cases o with
    | wrapper => exact ⟨r, hroot, hpath⟩
    | delegate c => exact ⟨r, hroot, hpath.tail trivial⟩
  rw [collect, if_pos (reachable_iff.mpr hwrapper)]

/-- Between two methods: all is set up, or all has been disposed of. -/
structure Ready (s : Wrapper) : Prop where
  todo : s.todo = []
  conductorField : s.conductorField = true
  conductor : s.conductor = .alive
  handles : ∀ c, s.handles c = true
  disposed : s.disposed = false
  deletions : s.deletions = 0

structure Disposed (s : Wrapper) : Prop where
  todo : s.todo = []
  conductor : s.conductor = .gone
  disposed : s.disposed = true
  suppressed : s.suppressed = true
  deletions : s.deletions = 1

/-- As long as there is a conductor, its function pointers lead to delegates. -/
def Linked (s : Wrapper) : Prop :=
  s.conductor = .alive → ∀ c, s.pointers c = true → s.delegates c = .alive

instance (s : Wrapper) : Decidable (Linked s) :=
  decidable_of_iff (s.conductor = .alive → ∀ c ∈ Callback.all, s.pointers c = true →
    s.delegates c = .alive) ⟨fun h ha c => h ha c c.mem_all, fun h ha c _ => h ha c⟩

/-- The method that runs will have ended well, whatever else happens meanwhile. -/
def Ends (Q : Wrapper → Prop) (s : Wrapper) : Prop :=
  ∃ n, Q (step^[n] s) ∧ ∀ k ≤ n, Linked (step^[k] s)

section
variable {Q : Wrapper → Prop} (hQ : ∀ s, Q s → s.todo = [])

theorem step_idle (h : s.todo = []) : s.step = s := by
  rw [step, h]

theorem iterate_idle (h : s.todo = []) (n : Nat) : step^[n] s = s :=
  Function.iterate_fixed (step_idle h) n

theorem Ends.linked (h : Ends Q s) : Linked s := by
  obtain ⟨n, _, hlinked⟩ := h
  exact hlinked 0 n.zero_le

theorem ends_idle (h : s.todo = []) : Ends Q s ↔ Q s ∧ Linked s := by
  constructor
  · rintro ⟨n, hq, hlinked⟩
    rw [iterate_idle h] at hq
    exact ⟨hq, hlinked 0 n.zero_le⟩
  · rintro ⟨hq, hlinked⟩
    exact ⟨0, hq, fun k hk => by rw [Nat.le_zero.mp hk]; exact hlinked⟩

include hQ in
theorem Ends.step (h : Ends Q s) (htodo : s.todo ≠ []) : Ends Q s.step := by
  obtain ⟨n, hq, hlinked⟩ := h
  cases n with
  | zero => exact (htodo (hQ s hq)).elim
  | succ n =>
    refine ⟨n, by rw [← Function.iterate_succ_apply]; exact hq, fun k hk => ?_⟩
    rw [← Function.iterate_succ_apply]
    exact hlinked (k + 1) (Nat.succ_le_succ hk)

/-- The conductor finds the delegate that it calls. -/
theorem call_linked (h : Linked s) {c : Callback} (hc : s.pointers c = true)
    (hconductor : s.conductor = .alive) : s.call c = s := by
  rw [call, h hconductor c hc]
  simp

theorem reachable_of_todo (h : s.todo ≠ []) : s.reachable = true :=
  reachable_iff.mpr ⟨.wrapper, Or.inr h, .refl⟩

theorem Ready.reachable (h : Ready s) : s.reachable = true :=
  reachable_iff.mpr ⟨.delegate .onSuccess, h.handles _, .single trivial⟩

end

/-- The statements of the destructor do not touch the function pointers. -/
theorem linked_step (h : Linked s) (hnew : .newConductor ∉ s.todo)
    (hset : ∀ c, .setPointer c ∉ s.todo) : Linked s.step := by
  rw [step]
  cases htodo : s.todo with
  | nil => exact h
  | cons st rest =>
    rw [htodo] at hnew hset
    cases st with
    | newConductor => exact (hnew (by simp)).elim
    | setPointer c => exact (hset c (by simp)).elim
    | newDelegate c =>
      intro hconductor c' hc'
      by_cases hcc : c' = c
      · subst hcc
        exact Function.update_self ..
      · exact (Function.update_of_ne hcc ..).trans (h hconductor c' hc')
    | deleteConductor => nofun
    | _ => exact h

theorem todo_step_subset (s : Wrapper) : s.step.todo ⊆ s.todo := by
  rw [step]
  cases htodo : s.todo with
  | nil => simp [htodo]
  | cons st rest =>
    have hrest : rest ⊆ st :: rest := List.subset_cons_self st rest
    have hdrop (n : Nat) : rest.drop n ⊆ st :: rest :=
      List.Subset.trans (List.drop_subset n rest) hrest
    cases st with
    | testDisposed =>
      dsimp only [exec]
      split
      · exact hdrop _
      · exact hrest
    | testConductor =>
      dsimp only [exec]
      split
      · exact hrest
      · exact hdrop 2
    | _ => exact hrest

theorem linked_iterate (h : Linked s) (hnew : .newConductor ∉ s.todo)
    (hset : ∀ c, .setPointer c ∉ s.todo) (k : Nat) : Linked (step^[k] s) := by
  induction k generalizing s with
  | zero => exact h
  | succ k ih =>
    rw [Function.iterate_succ_apply]
    exact ih (linked_step h hnew hset) (fun h => hnew (todo_step_subset s h))
      fun c h => hset c (todo_step_subset s h)

theorem destructor_sets_nothing : .newConductor ∉ WrapperStatement.destructor ∧
    ∀ c, .setPointer c ∉ WrapperStatement.destructor := by
  refine ⟨by decide, fun c => ?_⟩
  cases c <;> decide

/-- The destructor runs through. -/
theorem Ready.dispose (h : Ready s) :
    Disposed (step^[14] { s with todo := WrapperStatement.destructor }) := by
  obtain ⟨-, hfield, -, -, hdisposed, hdeletions⟩ := h
  cases s
  subst hfield hdisposed hdeletions
  exact ⟨rfl, rfl, rfl, rfl, rfl⟩

/-- The second time it returns at once. -/
theorem Disposed.dispose (h : Disposed s) :
    Disposed (step^[2] { s with todo := WrapperStatement.destructor }) := by
  obtain ⟨-, hconductor, hdisposed, hsuppressed, hdeletions⟩ := h
  cases s
  subst hconductor hdisposed hsuppressed hdeletions
  exact ⟨rfl, rfl, rfl, rfl, rfl⟩

def Quiescent (s : Wrapper) : Prop := Ready s ∨ Disposed s

theorem Quiescent.todo (h : Quiescent s) : s.todo = [] := h.elim Ready.todo Disposed.todo

theorem Quiescent.dispose (h : Quiescent s) (hlinked : Linked s) :
    Ends Quiescent { s with todo := WrapperStatement.destructor } := by
  obtain ⟨hnew, hset⟩ := destructor_sets_nothing
  have hall := linked_iterate (s := { s with todo := WrapperStatement.destructor }) hlinked hnew hset
  rcases h with h | h
  · exact ⟨14, Or.inr h.dispose, fun k _ => hall k⟩
  · exact ⟨2, Or.inr h.dispose, fun k _ => hall k⟩

theorem Disposed.linked (h : Disposed s) : Linked s := by
  intro hconductor
  rw [h.conductor] at hconductor
  cases hconductor

theorem Disposed.collect (h : Disposed s) : Disposed s.collect ∧
    s.collect.broken = s.broken ∧ s.collect.finalized = s.finalized := by
  rw [Wrapper.collect]
  split
  · exact ⟨h, rfl, rfl⟩
  · rw [if_pos h.suppressed]
    exact ⟨⟨h.todo, h.conductor, h.disposed, h.suppressed, h.deletions⟩, rfl, rfl⟩

theorem step_same (s : Wrapper) : s.step.broken = s.broken ∧ s.step.finalized = s.finalized ∧
    s.step.object = s.object ∧ s.deletions ≤ s.step.deletions := by
  rw [step]
  cases s.todo with
  | nil => exact ⟨rfl, rfl, rfl, Nat.le_refl _⟩
  | cons st rest => cases st <;> exact ⟨rfl, rfl, rfl, by simp [exec]⟩

/-- What no interleaving breaks. -/
structure Sound (Q : Wrapper → Prop) (s : Wrapper) : Prop where
  ends : Ends Q s
  broken : s.broken = false
  finalized : s.finalized = false

/-- What has to hold between two methods so that it always does. -/
structure Resting (Q : Wrapper → Prop) : Prop where
  todo : ∀ s, Q s → s.todo = []
  release : ∀ s, Q s → Q { s with held := false }
  /-- A collection that does more than nothing. -/
  collect : ∀ s, Q s → s.reachable = false → Sound Q s → Sound Q s.collect

theorem Ready.release (h : Ready s) : Ready { s with held := false } :=
  ⟨h.todo, h.conductorField, h.conductor, h.handles, h.disposed, h.deletions⟩

theorem Disposed.release (h : Disposed s) : Disposed { s with held := false } :=
  ⟨h.todo, h.conductor, h.disposed, h.suppressed, h.deletions⟩

theorem sound_next {Q : Wrapper → Prop} (hQ : Resting Q) {a : WrapperStep} (h : Sound Q s)
    (hdispose : a = .dispose → Q s → Linked s →
      Ends Q { s with todo := WrapperStatement.destructor })
    (hnext : s.next a = some t) : Sound Q t := by
  have hidle (hcond : (s.held && s.todo.isEmpty) = true) : s.todo = [] := by
    simpa using (Bool.and_eq_true_iff.mp hcond).2
  cases a with
  | execute =>
    dsimp only [Wrapper.next] at hnext
    split at hnext
    · cases hnext
    · rename_i htodo
      cases hnext
      obtain ⟨hbroken, hfinalized, -⟩ := step_same s
      exact ⟨h.ends.step hQ.todo htodo, hbroken.trans h.broken, hfinalized.trans h.finalized⟩
  | dispose =>
    dsimp only [Wrapper.next] at hnext
    split at hnext
    · rename_i hcond
      cases hnext
      obtain ⟨hq, hlinked⟩ := (ends_idle (hidle hcond)).mp h.ends
      exact ⟨hdispose rfl hq hlinked, h.broken, h.finalized⟩
    · cases hnext
  | release =>
    dsimp only [Wrapper.next] at hnext
    split at hnext
    · rename_i hcond
      cases hnext
      obtain ⟨hq, hlinked⟩ := (ends_idle (hidle hcond)).mp h.ends
      exact ⟨(ends_idle (s := { s with held := false }) (hidle hcond)).mpr
        ⟨hQ.release s hq, hlinked⟩, h.broken, h.finalized⟩
    · cases hnext
  | callback c =>
    dsimp only [Wrapper.next] at hnext
    split at hnext
    · rename_i hcond
      cases hnext
      obtain ⟨hpointer, hconductor⟩ := Bool.and_eq_true_iff.mp hcond
      rw [call_linked h.ends.linked hpointer (eq_of_beq hconductor)]
      exact h
    · cases hnext
  | collect =>
    dsimp only [Wrapper.next] at hnext
    split at hnext
    · cases hnext
      cases hreachable : s.reachable with
      | true =>
        rw [collect_of_reachable (reachable_iff.mp hreachable)]
        exact h
      | false =>
        have htodo : s.todo = [] := by
          by_contra htodo
          rw [reachable_of_todo htodo] at hreachable
          cases hreachable
        exact hQ.collect s ((ends_idle htodo).mp h.ends).1 hreachable h
    · cases hnext

end Wrapper

end Spitfire.Rtc
