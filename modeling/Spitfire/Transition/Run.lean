import Mathlib.Logic.Relation

/-! Runs of a partial labelled step function. A label is disabled where the step
function is undefined, and a run is defined only when each of its labels is enabled. -/
namespace Spitfire.Transition
variable {σ α : Type}

/-- Execute the labels from left to right. -/
def run (next : σ → α → Option σ) : σ → List α → Option σ
  | s, [] => some s
  | s, a :: as => (next s a).bind fun t => run next t as

/-- Every label of the run meets `P` in the state it is executed in. -/
def Along (next : σ → α → Option σ) (P : σ → α → Prop) : σ → List α → Prop
  | _, [] => True
  | s, a :: as => P s a ∧ ∀ t, next s a = some t → Along next P t as

variable {next : σ → α → Option σ} {P : σ → α → Prop} {I : σ → Prop}

/-- Whether a run is guarded can be decided by executing it. -/
instance Along.decidable [∀ s a, Decidable (P s a)] :
    (s : σ) → (as : List α) → Decidable (Along next P s as)
  | _, [] => .isTrue trivial
  | s, a :: as =>
    have : Decidable (∀ t, next s a = some t → Along next P t as) :=
      match h : next s a with
      | none => .isTrue fun t ht => nomatch ht
      | some m =>
        have := Along.decidable m as
        decidable_of_iff (Along next P m as) (by simp)
    inferInstanceAs (Decidable (P s a ∧ _))

@[simp] theorem run_nil (s : σ) : run next s [] = some s := rfl

theorem run_cons_eq_some {s t : σ} {a : α} {as : List α} :
    run next s (a :: as) = some t ↔ ∃ m, next s a = some m ∧ run next m as = some t := by
  simp [run, Option.bind_eq_some_iff]

/-- A property kept by every guarded step holds at the end of every guarded run. -/
theorem run_invariant_along
    (keep : ∀ s a t, I s → P s a → next s a = some t → I t)
    {s t : σ} {as : List α} (hs : I s) (hr : run next s as = some t) (hp : Along next P s as) :
    I t := by
  induction as generalizing s with
  | nil =>
    obtain rfl : s = t := by simpa using hr
    exact hs
  | cons a as ih =>
    obtain ⟨m, hm, hr⟩ := run_cons_eq_some.mp hr
    exact ih (keep s a m hs hp.1 hm) hr (hp.2 m hm)

theorem along_true (s : σ) (as : List α) : Along next (fun _ _ => True) s as := by
  induction as generalizing s with
  | nil => exact trivial
  | cons a as ih => exact ⟨trivial, fun t _ => ih t⟩

/-- A property kept by every step holds at the end of every run. -/
theorem run_invariant (keep : ∀ s a t, I s → next s a = some t → I t)
    {s t : σ} {as : List α} (hs : I s) (hr : run next s as = some t) : I t :=
  run_invariant_along (fun s a t h _ => keep s a t h) hs hr (along_true s as)

/-- Where the first unguarded step ruins the run for good, a run is guarded exactly if
it has not been ruined. Both may rest on a second guard that is met all along. -/
theorem along_iff_not_ruined_within {B : σ → Prop} {Q : σ → α → Prop}
    (keep : ∀ s a t, I s → Q s a → P s a → next s a = some t → I t)
    (ruin : ∀ s a t, I s → Q s a → ¬ P s a → next s a = some t → B t)
    (lasting : ∀ s a t, B s → next s a = some t → B t) (sound : ∀ s, I s → ¬ B s)
    {s t : σ} {as : List α} (hs : I s) (hr : run next s as = some t) (hq : Along next Q s as) :
    ¬ B t ↔ Along next P s as := by
  induction as generalizing s with
  | nil =>
    obtain rfl : s = t := by simpa using hr
    exact iff_of_true (sound s hs) trivial
  | cons a as ih =>
    obtain ⟨m, hm, hr⟩ := run_cons_eq_some.mp hr
    have hcons : Along next P s (a :: as) ↔ P s a ∧ Along next P m as := by
      simp [Along, hm]
    rw [hcons]
    by_cases hp : P s a
    · rw [ih (keep s a m hs hq.1 hp hm) hr (hq.2 m hm)]
      exact (and_iff_right hp).symm
    · have ht : B t := run_invariant lasting (ruin s a m hs hq.1 hp hm) hr
      exact iff_of_false (fun h => h ht) fun h => hp h.1

theorem along_iff_not_ruined {B : σ → Prop}
    (keep : ∀ s a t, I s → P s a → next s a = some t → I t)
    (ruin : ∀ s a t, I s → ¬ P s a → next s a = some t → B t)
    (lasting : ∀ s a t, B s → next s a = some t → B t) (sound : ∀ s, I s → ¬ B s)
    {s t : σ} {as : List α} (hs : I s) (hr : run next s as = some t) :
    ¬ B t ↔ Along next P s as :=
  along_iff_not_ruined_within (fun s a t h _ => keep s a t h) (fun s a t h _ => ruin s a t h)
    lasting sound hs hr (along_true s as)

/-- Two guards that agree wherever the guarded runs lead are met by the same runs. -/
theorem along_congr {Q : σ → α → Prop} (keep : ∀ s a t, I s → P s a → next s a = some t → I t)
    (agree : ∀ s a, I s → (Q s a ↔ P s a)) {s : σ} (hs : I s) (as : List α) :
    Along next Q s as ↔ Along next P s as := by
  induction as generalizing s with
  | nil => exact Iff.rfl
  | cons a as ih =>
    rw [Along, Along, agree s a hs]
    refine and_congr_right fun hp => forall_congr' fun t => ?_
    exact imp_congr_right fun ht => ih (keep s a t hs hp ht)

/-- A condition on the labels alone is met along a run if all its labels meet it. -/
theorem along_labels_iff {Q : α → Prop} {s t : σ} {as : List α} (hr : run next s as = some t) :
    Along next (fun _ a => Q a) s as ↔ ∀ a ∈ as, Q a := by
  induction as generalizing s with
  | nil => simp [Along]
  | cons a as ih =>
    obtain ⟨m, hm, hr⟩ := run_cons_eq_some.mp hr
    simp [Along, hm, ih hr]

end Spitfire.Transition
