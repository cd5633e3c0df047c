/-! Computations that may fail: how a result is traced back through a sequence, and the
invariant rules for a loop whose body may fail. -/
namespace Spitfire.Transition
variable {ε σ τ α : Type}

theorem bind_eq_ok {x : Except ε σ} {f : σ → Except ε τ} {t : τ} :
    x >>= f = .ok t ↔ ∃ s, x = .ok s ∧ f s = .ok t := by
  cases x with
  | error e =>
    constructor
    · intro h
      cases h
    · rintro ⟨s, h, _⟩
      cases h
  | ok s =>
    constructor
    · exact fun h => ⟨s, rfl, h⟩
    · rintro ⟨s', h, ht⟩
      cases h
      exact ht

theorem ok_bind (a : σ) (f : σ → Except ε τ) : Except.ok a >>= f = f a := rfl

theorem toOption_eq_some {x : Except ε σ} {s : σ} : x.toOption = some s ↔ x = .ok s := by
  cases x <;> simp [Except.toOption]

theorem map_eq_ok {x : Except ε σ} {f : σ → τ} {t : τ} :
    x.map f = .ok t ↔ ∃ s, x = .ok s ∧ f s = t := by
  cases x with
  | error e => simp [Except.map]
  | ok s => simp [Except.map]

theorem exists_map_eq_ok {x : Except ε σ} {f : σ → τ} :
    (∃ t, x.map f = .ok t) ↔ ∃ s, x = .ok s := by
  cases x <;> simp [Except.map]

/-- A loop that returns keeps what every body that returns keeps. -/
theorem foldlM_keeps {I : σ → Prop} {f : σ → α → Except ε σ}
    (keep : ∀ s a t, I s → f s a = .ok t → I t) {as : List α} {s t : σ} (hs : I s)
    (h : as.foldlM f s = .ok t) : I t := by
  induction as generalizing s with
  | nil =>
    cases h
    exact hs
  | cons a as ih =>
    rw [List.foldlM_cons, bind_eq_ok] at h
    obtain ⟨m, hm, h⟩ := h
    exact ih (keep s a m hs hm) h

/-- A loop returns if its body does wherever the invariant holds. -/
theorem foldlM_returns {I : σ → Prop} {f : σ → α → Except ε σ} {as : List α}
    (step : ∀ a ∈ as, ∀ s, I s → ∃ t, f s a = .ok t ∧ I t) {s : σ} (hs : I s) :
    ∃ t, as.foldlM f s = .ok t ∧ I t := by
  induction as generalizing s with
  | nil => exact ⟨s, rfl, hs⟩
  | cons a as ih =>
    obtain ⟨m, hm, hi⟩ := step a (by simp) s hs
    obtain ⟨t, ht, hi⟩ := ih (fun b hb => step b (by simp [hb])) hi
    refine ⟨t, ?_, hi⟩
    rw [List.foldlM_cons, hm]
    exact ht

/-- A loop that undoes nothing has achieved in the end what each of its bodies achieves. -/
theorem foldlM_collects {I : σ → Prop} {D : σ → α → Prop} {f : σ → α → Except ε σ} {as : List α}
    (step : ∀ a ∈ as, ∀ s, I s → ∃ t, f s a = .ok t ∧ I t ∧ D t a ∧ ∀ b, D s b → D t b)
    {s : σ} (hs : I s) :
    ∃ t, as.foldlM f s = .ok t ∧ I t ∧ (∀ a ∈ as, D t a) ∧ ∀ b, D s b → D t b := by
  induction as generalizing s with
  | nil => exact ⟨s, rfl, hs, by simp, fun b hb => hb⟩
  | cons a as ih =>
    obtain ⟨m, hm, hi, hdone, hkept⟩ := step a (by simp) s hs
    obtain ⟨t, ht, hi, hall, hkept'⟩ := ih (fun b hb => step b (by simp [hb])) hi
    refine ⟨t, ?_, hi, ?_, fun b hb => hkept' b (hkept b hb)⟩
    · rw [List.foldlM_cons, hm]
      exact ht
    · intro b hb
      rcases List.mem_cons.mp hb with rfl | hb
      · exact hkept' b hdone
      · exact hall b hb

end Spitfire.Transition
