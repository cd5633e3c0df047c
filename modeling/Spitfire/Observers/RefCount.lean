import Mathlib.Data.BitVec
import Spitfire.Transition.Run

/-! The reference counts of the two session description observers. `Release` tests for the
last reference and drops its own in two steps, so that two calls can each see the other's
reference and neither deletes the object. -/
namespace Spitfire.Observers
open Transition

inductive RefCountReleaseStatus where
  | droppedLastRef | otherRefsRemained
  deriving DecidableEq, Repr

/-- The counter is an `int`; its operations are atomic and wrap around. -/
structure RefCounter where
  refCount : BitVec 32
  deriving DecidableEq, Repr

namespace RefCounter

def incRef (c : RefCounter) : RefCounter := ⟨c.refCount + 1⟩

def decRef (c : RefCounter) : RefCountReleaseStatus × RefCounter :=
  (if c.refCount - 1 = 0 then .droppedLastRef else .otherRefsRemained, ⟨c.refCount - 1⟩)

def hasOneRef (c : RefCounter) : Bool := c.refCount = 1

end RefCounter

/-- How far a holder has come: it takes one reference and releases it, and inside `Release`
it has seen others or itself alone. -/
inductive Holder where
  | waiting
  | holding
  | sawOthers
  | sawItself
  | released (status : RefCountReleaseStatus)
  deriving DecidableEq, Repr

def Holder.hasReference : Holder → Bool
  | .holding | .sawOthers | .sawItself => true
  | .waiting | .released _ => false

/-- Who executed `delete this`, and how many other references there were. -/
structure Deletion where
  holder : Nat
  others : Nat
  deriving DecidableEq, Repr

/-- An observer and its holders. -/
structure Observer where
  counter : RefCounter := ⟨0⟩
  holders : List Holder
  deletions : List Deletion := []
  deriving DecidableEq, Repr

namespace Observer

/-- A new object that `n` holders are going to use. -/
def created (n : Nat) : Observer := { holders := List.replicate n .waiting }

def references (o : Observer) : Nat := o.holders.countP Holder.hasReference

/-- Some holder has taken a reference. -/
def taken (o : Observer) : Bool := o.holders.any fun h => h ≠ .waiting

/-- A reference is taken from the new object, or from a holder that keeps its own. -/
def addRef (o : Observer) (i : Nat) : Option Observer :=
  match o.holders[i]? with
  | some .waiting =>
    if o.taken = false ∨ .holding ∈ o.holders then
      some { o with counter := o.counter.incRef, holders := o.holders.set i .holding }
    else none
  | _ => none

/-- `Release`, its test. -/
def hasOneRef (o : Observer) (i : Nat) : Option Observer :=
  match o.holders[i]? with
  | some .holding =>
    some { o with
      holders := o.holders.set i (if o.counter.hasOneRef then .sawItself else .sawOthers) }
  | _ => none

/-- `Release` after a test that succeeded. -/
def deleteThis (o : Observer) (i : Nat) : Option Observer :=
  match o.holders[i]? with
  | some .sawItself =>
    some { o with
      holders := o.holders.set i (.released .droppedLastRef)
      deletions := o.deletions ++ [⟨i, o.references - 1⟩] }
  | _ => none

/-- `Release` after a test that failed. The result of `DecRef` is ignored. -/
def decRef (o : Observer) (i : Nat) : Option Observer :=
  match o.holders[i]? with
  | some .sawOthers =>
    some { o with
      counter := o.counter.decRef.2
      holders := o.holders.set i (.released .otherRefsRemained) }
  | _ => none

end Observer

/-- The atomic steps, each by one of the holders. -/
inductive RefStep where
  | addRef (i : Nat)
  | hasOneRef (i : Nat)
  | deleteThis (i : Nat)
  | decRef (i : Nat)
  deriving DecidableEq, Repr

def Observer.next (o : Observer) : RefStep → Option Observer
  | .addRef i => o.addRef i
  | .hasOneRef i => o.hasOneRef i
  | .deleteThis i => o.deleteThis i
  | .decRef i => o.decRef i

/-- The object is deleted once, when the last reference is dropped and not earlier, and the
call that deletes it is the one that says so. -/
structure Sound (o : Observer) : Prop where
  once : o.deletions.length ≤ 1
  last : ∀ d ∈ o.deletions, d.others = 0
  complete : o.taken = true → o.references = 0 → o.deletions.length = 1
  status : ∀ i, o.holders[i]? = some (.released .droppedLastRef) ↔ ∃ d ∈ o.deletions, d.holder = i

/-- When a `DecRef` is executed, its reference is not the only one left. -/
def Shared (o : Observer) : RefStep → Prop
  | .decRef _ => 2 ≤ o.references
  | _ => True

instance (o : Observer) : (a : RefStep) → Decidable (Shared o a)
  | .decRef _ => inferInstanceAs (Decidable (2 ≤ _))
  | .addRef _ | .hasOneRef _ | .deleteThis _ => inferInstanceAs (Decidable True)

/-- No more references are held at one time than the counter can tell apart. -/
def Few (o : Observer) (_ : RefStep) : Prop := o.references < 2 ^ 32

instance (o : Observer) (a : RefStep) : Decidable (Few o a) :=
  inferInstanceAs (Decidable (_ < _))

/-- The steps as rules, with the two ways that the test can go. -/
inductive RefMove (o : Observer) : RefStep → Observer → Prop
  | addRef {i : Nat} (hi : o.holders[i]? = some .waiting)
      (hmay : o.taken = false ∨ .holding ∈ o.holders) :
      RefMove o (.addRef i)
        { o with counter := o.counter.incRef, holders := o.holders.set i .holding }
  | seesItself {i : Nat} (hi : o.holders[i]? = some .holding) (hone : o.counter.refCount = 1) :
      RefMove o (.hasOneRef i) { o with holders := o.holders.set i .sawItself }
  | seesOthers {i : Nat} (hi : o.holders[i]? = some .holding) :
      RefMove o (.hasOneRef i) { o with holders := o.holders.set i .sawOthers }
  | deletes {i : Nat} (hi : o.holders[i]? = some .sawItself) :
      RefMove o (.deleteThis i) { o with
        holders := o.holders.set i (.released .droppedLastRef)
        deletions := o.deletions ++ [⟨i, o.references - 1⟩] }
  | drops {i : Nat} (hi : o.holders[i]? = some .sawOthers) :
      RefMove o (.decRef i) { o with
        counter := ⟨o.counter.refCount - 1⟩
        holders := o.holders.set i (.released .otherRefsRemained) }

theorem refMove_of_next {o o' : Observer} {a : RefStep} (h : o.next a = some o') :
    RefMove o a o' := by
  cases a with
  | addRef i =>
    dsimp only [Observer.next, Observer.addRef] at h
    split at h
    · rename_i hi
      split at h
      · rename_i hmay
        cases h
        exact .addRef hi hmay
      · cases h
    · cases h
  | hasOneRef i =>
    dsimp only [Observer.next, Observer.hasOneRef] at h
    split at h
    · rename_i hi
      cases hone : o.counter.hasOneRef with
      | true =>
        rw [hone] at h
        cases h
        exact .seesItself hi (by simpa [RefCounter.hasOneRef] using hone)
      | false =>
        rw [hone] at h
        cases h
        exact .seesOthers hi
    · cases h
  | deleteThis i =>
    dsimp only [Observer.next, Observer.deleteThis] at h
    split at h
    · rename_i hi
      cases h
      exact .deletes hi
    · cases h
  | decRef i =>
    dsimp only [Observer.next, Observer.decRef] at h
    split at h
    · rename_i hi
      cases h
      exact .drops hi
    · cases h

section
variable {hs : List Holder} {i j : Nat} {h h' : Holder}

/-- One holder moves on, and the number of references changes with it. -/
theorem countP_set_add (hi : hs[i]? = some h) :
    (hs.set i h').countP Holder.hasReference + h.hasReference.toNat =
      hs.countP Holder.hasReference + h'.hasReference.toNat := by
  obtain ⟨hlt, rfl⟩ := List.getElem?_eq_some_iff.mp hi
  have hpos : hs[i].hasReference = true → 0 < hs.countP Holder.hasReference := fun hr =>
    List.countP_pos_iff.mpr ⟨hs[i], List.getElem_mem hlt, hr⟩
  rw [List.countP_set hlt]
  cases hr : hs[i].hasReference with
  | false => cases h'.hasReference <;> simp
  | true =>
    have := hpos hr
    cases h'.hasReference <;> simp <;> omega

theorem one_reference (hi : hs[i]? = some h) (hr : h.hasReference = true) :
    1 ≤ hs.countP Holder.hasReference :=
  List.countP_pos_iff.mpr ⟨h, List.mem_of_getElem? hi, hr⟩

theorem two_references (hij : i ≠ j) (hi : hs[i]? = some h) (hr : h.hasReference = true)
    (hj : hs[j]? = some h') (hr' : h'.hasReference = true) :
    2 ≤ hs.countP Holder.hasReference := by
  -- Without the first holder there is still the second.
  have hset : (hs.set i .waiting).countP Holder.hasReference + h.hasReference.toNat =
      hs.countP Holder.hasReference + Holder.waiting.hasReference.toNat := countP_set_add hi
  have hone : 1 ≤ (hs.set i .waiting).countP Holder.hasReference := by
    refine one_reference (i := j) ?_ hr'
    rw [List.getElem?_set_ne hij, hj]
  rw [hr] at hset
  simp only [Bool.toNat_true, Holder.hasReference, Bool.toNat_false] at hset
  omega

/-- Whoever is in a stage after a holder has moved was in it before or is that holder. -/
theorem of_getElem?_set (hj : (hs.set i h)[j]? = some h') :
    (j = i ∧ h' = h) ∨ (i ≠ j ∧ hs[j]? = some h') := by
  by_cases hij : i = j
  · subst hij
    left
    obtain ⟨hlt, he⟩ := List.getElem?_eq_some_iff.mp hj
    exact ⟨rfl, by simpa using he.symm⟩
  · right
    rw [List.getElem?_set_ne hij] at hj
    exact ⟨hij, hj⟩

end

/-- The counter counts the references until the object is deleted, and it is deleted by a
holder that is alone with it. -/
structure Counted (o : Observer) : Prop where
  counter : o.deletions = [] → o.counter.refCount = BitVec.ofNat 32 o.references
  alone : ∀ i : Nat, o.holders[i]? = some .sawItself → o.references = 1
  gone : o.deletions ≠ [] → o.taken = true ∧ o.references = 0
  once : o.deletions.length ≤ 1
  last : ∀ d ∈ o.deletions, d.others = 0
  status : ∀ i, o.holders[i]? = some (.released .droppedLastRef) ↔ ∃ d ∈ o.deletions, d.holder = i

/-- All references are dropped and the object is still there. -/
def Leaked (o : Observer) : Prop := o.taken = true ∧ o.references = 0 ∧ o.deletions = []

section
variable {o : Observer} {i : Nat} {h h' : Holder}

theorem taken_set (hi : o.holders[i]? = some h) (hne : h' ≠ .waiting) :
    (o.holders.set i h').any (fun h => h ≠ .waiting) = true := by
  obtain ⟨hlt, -⟩ := List.getElem?_eq_some_iff.mp hi
  refine List.any_eq_true.mpr ⟨h', List.mem_set hlt h', ?_⟩
  simpa using hne

theorem taken_of_stage (hi : o.holders[i]? = some h) (hne : h ≠ .waiting) : o.taken = true :=
  List.any_eq_true.mpr ⟨h, List.mem_of_getElem? hi, by simpa using hne⟩

/-- As long as there is a reference the object is there. -/
theorem Counted.alive (ho : Counted o) (hr : 1 ≤ o.references) : o.deletions = [] := by
  by_contra hne
  have := (ho.gone hne).2
  omega

/-- A holder that moves on without deleting does not disturb the record of the deletion. -/
theorem Counted.status_set (ho : Counted o) (hi : o.holders[i]? = some h)
    (hh : h ≠ .released .droppedLastRef) (hh' : h' ≠ .released .droppedLastRef) (k : Nat) :
    (o.holders.set i h')[k]? = some (.released .droppedLastRef) ↔
      ∃ d ∈ o.deletions, d.holder = k := by
  rw [← ho.status k]
  by_cases hk : i = k
  · subst hk
    obtain ⟨hlt, -⟩ := List.getElem?_eq_some_iff.mp hi
    rw [List.getElem?_set_self hlt, hi]
    simp [hh, hh']
  · rw [List.getElem?_set_ne hk]

/-- The test succeeds for a holder that is alone. -/
theorem Counted.references_eq_one (ho : Counted o) (hfew : o.references < 2 ^ 32)
    (hi : o.holders[i]? = some .holding) (hone : o.counter.refCount = 1) : o.references = 1 := by
  have hcounter := ho.counter (ho.alive (one_reference hi rfl))
  rw [hone] at hcounter
  have hmod := congrArg BitVec.toNat hcounter
  rw [BitVec.toNat_ofNat, Nat.mod_eq_of_lt hfew] at hmod
  exact hmod.symm

/-- One more reference: no holder can be about to delete the object. -/
theorem counted_addRef (ho : Counted o) (hi : o.holders[i]? = some .waiting)
    (hmay : o.taken = false ∨ .holding ∈ o.holders) :
    Counted { o with counter := o.counter.incRef, holders := o.holders.set i .holding } := by
  have hcount : Observer.references { o with
      counter := o.counter.incRef, holders := o.holders.set i .holding } = o.references + 1 :=
    (countP_set_add hi :
      (o.holders.set i .holding).countP Holder.hasReference + 0 = o.references + 1)
  have halive : o.deletions = [] := by
    by_contra hne
    obtain ⟨htaken, hnone⟩ := ho.gone hne
    rcases hmay with hfresh | hholding
    · rw [htaken] at hfresh
      cases hfresh
    · obtain ⟨j, hj⟩ := List.mem_iff_getElem?.mp hholding
      have : 1 ≤ o.references := one_reference hj rfl
      omega
  have hnobody (j : Nat) : o.holders[j]? ≠ some .sawItself := by
    intro hj
    rcases hmay with hfresh | hholding
    · rw [taken_of_stage hj (by decide)] at hfresh
      cases hfresh
    · obtain ⟨k, hk⟩ := List.mem_iff_getElem?.mp hholding
      have hne : j ≠ k := by
        rintro rfl
        rw [hj] at hk
        cases hk
      have htwo : 2 ≤ o.references := two_references hne hj rfl hk rfl
      have hone := ho.alone j hj
      omega
  refine ⟨?_, ?_, fun hne => (hne halive).elim, ho.once, ho.last,
    ho.status_set hi (by decide) (by decide)⟩
  · intro _
    rw [hcount, BitVec.ofNat_add, ← ho.counter halive]
    rfl
  · intro j hj
    rcases of_getElem?_set hj with ⟨_, hstage⟩ | ⟨_, hj⟩
    · cases hstage
    · exact (hnobody j hj).elim

/-- The test of `Release` changes no count. -/
theorem counted_test (ho : Counted o) (hi : o.holders[i]? = some .holding)
    (hr : h'.hasReference = true) (hself : h' = .sawItself → o.references = 1) :
    Counted { o with holders := o.holders.set i h' } := by
  have hcount : Observer.references { o with holders := o.holders.set i h' } = o.references := by
    have hset : (o.holders.set i h').countP Holder.hasReference + 1 =
        o.references + h'.hasReference.toNat := countP_set_add hi
    rw [hr] at hset
    exact Nat.add_right_cancel hset
  have hnew : h' ≠ .released .droppedLastRef := by
    rintro rfl
    cases hr
  refine ⟨?_, ?_, ?_, ho.once, ho.last, ho.status_set hi (by decide) hnew⟩
  · rw [hcount]
    exact ho.counter
  · intro j hj
    rw [hcount]
    rcases of_getElem?_set hj with ⟨_, hstage⟩ | ⟨_, hj⟩
    · exact hself hstage.symm
    · exact ho.alone j hj
  · intro hne
    have hone : 1 ≤ o.references := one_reference hi rfl
    exact (hne (ho.alive hone)).elim

/-- A holder that is alone deletes the object. -/
theorem counted_delete (ho : Counted o) (hi : o.holders[i]? = some .sawItself) :
    Counted { o with
      holders := o.holders.set i (.released .droppedLastRef)
      deletions := o.deletions ++ [⟨i, o.references - 1⟩] } := by
  have hone := ho.alone i hi
  have halive := ho.alive (by omega)
  have hcount : Observer.references { o with
      holders := o.holders.set i (.released .droppedLastRef)
      deletions := o.deletions ++ [⟨i, o.references - 1⟩] } = 0 := by
    have hset : (o.holders.set i (.released .droppedLastRef)).countP Holder.hasReference + 1 =
        o.references + 0 := countP_set_add hi
    rw [hone] at hset
    exact Nat.add_right_cancel hset
  refine ⟨?_, ?_, fun _ => ⟨taken_set hi (by decide), hcount⟩, ?_, ?_, ?_⟩
  · intro hnone
    simp at hnone
  · intro j hj
    rcases of_getElem?_set hj with ⟨_, hstage⟩ | ⟨hne, hj⟩
    · cases hstage
    · have htwo : 2 ≤ o.references := two_references hne hi rfl hj rfl
      omega
  · simp [halive]
  · simp [halive, hone]
  · intro k
    have hbefore := ho.status k
    rw [halive] at hbefore ⊢
    by_cases hk : i = k
    · subst hk
      obtain ⟨hlt, -⟩ := List.getElem?_eq_some_iff.mp hi
      simp [List.getElem?_set_self hlt]
    · rw [List.getElem?_set_ne hk, hbefore]
      simp [hk]

/-- A holder that saw others drops its reference. -/
theorem counted_drop (ho : Counted o) (hi : o.holders[i]? = some .sawOthers) :
    Counted { o with
      counter := ⟨o.counter.refCount - 1⟩
      holders := o.holders.set i (.released .otherRefsRemained) } := by
  have hone : 1 ≤ o.references := one_reference hi rfl
  have halive := ho.alive hone
  have hcount : Observer.references { o with
      counter := ⟨o.counter.refCount - 1⟩
      holders := o.holders.set i (.released .otherRefsRemained) } + 1 = o.references :=
    (countP_set_add hi : (o.holders.set i (.released .otherRefsRemained)).countP
      Holder.hasReference + 1 = o.references + 0)
  refine ⟨?_, ?_, fun hne => (hne halive).elim, ho.once, ho.last,
    ho.status_set hi (by decide) (by decide)⟩
  · intro _
    have hcounter := ho.counter halive
    rw [← hcount, BitVec.ofNat_add] at hcounter
    dsimp only
    rw [hcounter]
    exact BitVec.add_sub_cancel _ _
  · intro j hj
    rcases of_getElem?_set hj with ⟨_, hstage⟩ | ⟨hne, hj⟩
    · cases hstage
    · have htwo : 2 ≤ o.references := two_references hne hi rfl hj rfl
      have halone := ho.alone j hj
      omega

end

theorem counted_next {o o' : Observer} {a : RefStep} (ho : Counted o) (hfew : Few o a)
    (hnext : o.next a = some o') : Counted o' := by
  cases refMove_of_next hnext with
  | addRef hi hmay => exact counted_addRef ho hi hmay
  | seesItself hi hone => exact counted_test ho hi rfl fun _ => ho.references_eq_one hfew hi hone
  | seesOthers hi => exact counted_test ho hi rfl fun h => (by cases h)
  | deletes hi => exact counted_delete ho hi
  | drops hi => exact counted_drop ho hi

theorem Counted.sound_iff {o : Observer} (ho : Counted o) : Sound o ↔ ¬ Leaked o := by
  constructor
  · rintro hsound ⟨htaken, hnone, hdeletions⟩
    have hone := hsound.complete htaken hnone
    rw [hdeletions] at hone
    cases hone
  · intro hkept
    refine ⟨ho.once, ho.last, ?_, ho.status⟩
    intro htaken hnone
    have hne : o.deletions ≠ [] := fun hdeletions => hkept ⟨htaken, hnone, hdeletions⟩
    have hpos := List.length_pos_iff.mpr hne
    have hle := ho.once
    omega

/-- Nothing can be done with an object that has leaked. -/
theorem leaked_next {o o' : Observer} {a : RefStep} (h : Leaked o) : o.next a ≠ some o' := by
  obtain ⟨htaken, hnone, _⟩ := h
  have hnobody {i : Nat} {h : Holder} (hi : o.holders[i]? = some h) : h.hasReference = false := by
    by_contra hr
    have : 1 ≤ o.references := one_reference hi (by simpa using hr)
    omega
  intro hnext
  cases refMove_of_next hnext with
  | addRef hi hmay =>
    rcases hmay with hfresh | hholding
    · rw [htaken] at hfresh
      cases hfresh
    · obtain ⟨j, hj⟩ := List.mem_iff_getElem?.mp hholding
      cases hnobody hj
  | seesItself hi hone => cases hnobody hi
  | seesOthers hi => cases hnobody hi
  | deletes hi => cases hnobody hi
  | drops hi => cases hnobody hi

/-- Only a `DecRef` that drops the last reference makes the object leak. -/
theorem leaked_iff {o o' : Observer} {a : RefStep} (ho : Counted o) (hnext : o.next a = some o') :
    Leaked o' ↔ ¬ Shared o a := by
  have hheld {o : Observer} {i : Nat} {h h' : Holder} (hi : o.holders[i]? = some h)
      (hr : h'.hasReference = true) : (o.holders.set i h').countP Holder.hasReference ≠ 0 := by
    have hset := List.getElem?_set_self (a := h') (List.getElem?_eq_some_iff.mp hi).1
    have := one_reference hset hr
    omega
  cases refMove_of_next hnext with
  | addRef hi hmay =>
    refine iff_of_false ?_ (not_not_intro trivial)
    exact fun hleaked => hheld hi rfl hleaked.2.1
  | seesItself hi hone =>
    refine iff_of_false ?_ (not_not_intro trivial)
    exact fun hleaked => hheld hi rfl hleaked.2.1
  | seesOthers hi =>
    refine iff_of_false ?_ (not_not_intro trivial)
    exact fun hleaked => hheld hi rfl hleaked.2.1
  | deletes hi =>
    refine iff_of_false ?_ (not_not_intro trivial)
    rintro ⟨_, _, hdeletions⟩
    simp at hdeletions
  | @drops i hi =>
    have hcount : (o.holders.set i (.released .otherRefsRemained)).countP Holder.hasReference + 1 =
        o.references + 0 := countP_set_add hi
    have hone : 1 ≤ o.references := one_reference hi rfl
    rw [Shared, Leaked, Observer.references]
    dsimp only
    constructor
    · rintro ⟨_, hnone, _⟩
      omega
    · intro hlast
      exact ⟨taken_set hi (by decide), by omega, ho.alive hone⟩

/-- However many holders there are in the course of a run and however their steps interleave,
as long as not too many hold a reference at one time: the object is deleted exactly once, by the
`Release` that drops the last reference, if and only if no `DecRef` finds its own reference to be
the only one left. -/
theorem released_once_iff {n : Nat} {steps : List RefStep} {t : Observer}
    (hrun : run Observer.next (.created n) steps = some t)
    (hfew : Along Observer.next Few (.created n) steps) :
    Sound t ↔ Along Observer.next Shared (.created n) steps := by
  have hnone : (Observer.created n).references = 0 := by
    simp [Observer.references, Observer.created, List.countP_replicate, Holder.hasReference]
  have hstart : Counted (.created n) := by
    refine ⟨?_, ?_, fun h => (h rfl).elim, Nat.zero_le 1, fun d h => (by cases h), ?_⟩
    · intro _
      rw [hnone]
      rfl
    · intro i hi
      cases List.eq_of_mem_replicate (List.mem_of_getElem? hi)
    · intro i
      refine iff_of_false ?_ (by simp [Observer.created])
      intro hi
      cases List.eq_of_mem_replicate (List.mem_of_getElem? hi)
  have hfresh : ¬ Leaked (.created n) := by
    rintro ⟨htaken, _⟩
    obtain ⟨h, hh, hne⟩ := List.any_eq_true.mp htaken
    simp [List.eq_of_mem_replicate hh] at hne
  have hcounted : Counted t := run_invariant_along (fun o a o' h => counted_next h) hstart hrun hfew
  rw [hcounted.sound_iff]
  refine along_iff_not_ruined_within (I := fun o => Counted o ∧ ¬ Leaked o) ?_ ?_ ?_
    (fun o h => h.2) ⟨hstart, hfresh⟩ hrun hfew
  · rintro o a o' ⟨ho, _⟩ hfew hshared hnext
    exact ⟨counted_next ho hfew hnext, fun hleaked => (leaked_iff ho hnext).mp hleaked hshared⟩
  · rintro o a o' ⟨ho, _⟩ _ hlast hnext
    exact (leaked_iff ho hnext).mpr hlast
  · intro o a o' hleaked hnext
    exact (leaked_next hleaked hnext).elim

/-- Two holders that release one after the other. -/
theorem released_once_in_turn : ∃ t,
    run Observer.next (.created 2) [.addRef 0, .addRef 1, .hasOneRef 1, .decRef 1, .hasOneRef 0,
      .deleteThis 0] = some t ∧
      t.holders = [.released .droppedLastRef, .released .otherRefsRemained] ∧
      t.deletions = [⟨0, 0⟩] ∧ Sound t := by
  obtain ⟨t, ht, hholders, hdeletions⟩ : ∃ t,
      run Observer.next (.created 2) [.addRef 0, .addRef 1, .hasOneRef 1, .decRef 1, .hasOneRef 0,
        .deleteThis 0] = some t ∧
        t.holders = [.released .droppedLastRef, .released .otherRefsRemained] ∧
        t.deletions = [⟨0, 0⟩] := ⟨_, rfl, rfl, rfl⟩
  exact ⟨t, ht, hholders, hdeletions, (released_once_iff ht (by decide)).mpr (by decide)⟩

/-- Two holders that test before either of them drops its reference: nobody deletes the
object, and both calls say that other references remained. -/
theorem released_together : ∃ t,
    run Observer.next (.created 2) [.addRef 0, .addRef 1, .hasOneRef 0, .hasOneRef 1, .decRef 0,
      .decRef 1] = some t ∧
      t.holders = [.released .otherRefsRemained, .released .otherRefsRemained] ∧
      t.references = 0 ∧ t.deletions = [] ∧ ¬ Sound t := by
  refine ⟨_, rfl, rfl, rfl, rfl, ?_⟩
  intro hsound
  cases hsound.complete rfl rfl

end Spitfire.Observers
