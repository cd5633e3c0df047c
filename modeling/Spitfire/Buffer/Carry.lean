import Spitfire.Buffer.Patch

/-! Copying a block inside one list, element by element from its start. Where the target
begins inside the source the copy reads back what it has written, and the elements between
the two starts repeat. -/
namespace Spitfire.Buffer
variable {α : Type}

/-- The `n` elements from `s` on are copied to the places from `t` on, one after the other. -/
def carry (s t : Nat) : Nat → List α → List α
  | 0, xs => xs
  | n + 1, xs =>
    match xs[s]? with
    | some x => carry (s + 1) (t + 1) n (xs.set t x)
    | none => xs

theorem carry_succ {xs : List α} {s t n : Nat} {x : α} (h : xs[s]? = some x) :
    carry s t (n + 1) xs = carry (s + 1) (t + 1) n (xs.set t x) := by
  rw [carry, h]

@[simp] theorem length_carry (s t n : Nat) (xs : List α) : (carry s t n xs).length = xs.length := by
  induction n generalizing s t xs with
  | zero => rfl
  | succ n ih =>
    rw [carry]
    cases xs[s]? with
    | none => rfl
    | some x => exact (ih _ _ _).trans List.length_set

theorem getElem?_carry_outside {s t n : Nat} (xs : List α) {i : Nat} (hi : i < t ∨ t + n ≤ i) :
    (carry s t n xs)[i]? = xs[i]? := by
  induction n generalizing s t xs with
  | zero => rfl
  | succ n ih =>
    rw [carry]
    cases xs[s]? with
    | none => rfl
    | some x =>
      have hne : t ≠ i := by omega
      exact (ih _ (by omega)).trans (List.getElem?_set_ne hne)

/-- Toward the start of the list nothing is overwritten before it is read. -/
theorem getElem?_carry_back {s t n : Nat} (hts : t ≤ s) {xs : List α} (hs : s + n ≤ xs.length)
    {i : Nat} (hi : i < n) : (carry s t n xs)[t + i]? = xs[s + i]? := by
  induction n generalizing s t xs i with
  | zero => cases hi
  | succ n ih =>
    have hx : xs[s]? = some xs[s] := List.getElem?_eq_getElem (by omega)
    rw [carry_succ hx]
    cases i with
    | zero =>
      change (carry (s + 1) (t + 1) n (xs.set t xs[s]))[t]? = xs[s]?
      rw [getElem?_carry_outside _ (by omega), List.getElem?_set_self (by omega), hx]
    | succ i =>
      have hlength : s + 1 + n ≤ (xs.set t xs[s]).length := by
        rw [List.length_set]
        omega
      rw [show t + (i + 1) = t + 1 + i by omega, ih (by omega) hlength (Nat.lt_of_succ_lt_succ hi),
        List.getElem?_set_ne (by omega)]
      congr 1
      omega

/-- Toward its end the elements between the two starts repeat. -/
theorem getElem?_carry_forward {s t n : Nat} (hst : s < t) {xs : List α} (ht : t + n ≤ xs.length)
    {i : Nat} (hi : i < n) : (carry s t n xs)[t + i]? = xs[s + i % (t - s)]? := by
  induction n generalizing s t xs i with
  | zero => cases hi
  | succ n ih =>
    have hx : xs[s]? = some xs[s] := List.getElem?_eq_getElem (by omega)
    rw [carry_succ hx]
    cases i with
    | zero =>
      rw [Nat.zero_mod]
      change (carry (s + 1) (t + 1) n (xs.set t xs[s]))[t]? = xs[s]?
      rw [getElem?_carry_outside _ (by omega), List.getElem?_set_self (by omega), hx]
    | succ i =>
      have hlength : t + 1 + n ≤ (xs.set t xs[s]).length := by
        rw [List.length_set]
        omega
      rw [show t + (i + 1) = t + 1 + i by omega, ih (by omega) hlength (Nat.lt_of_succ_lt_succ hi),
        show t + 1 - (s + 1) = t - s by omega, ← Nat.mod_add_mod i (t - s) 1]
      have hmod := Nat.mod_lt i (show 0 < t - s by omega)
      -- At the end of a period the element at `t` is read, and it is the one that stood at `s`.
      by_cases hwrap : i % (t - s) + 1 = t - s
      · rw [hwrap, Nat.mod_self, Nat.add_zero, show s + 1 + i % (t - s) = t by omega,
          List.getElem?_set_self (by omega)]
        exact hx.symm
      · rw [Nat.mod_eq_of_lt (show i % (t - s) + 1 < t - s by omega),
          List.getElem?_set_ne (by omega)]
        congr 1
        omega

/-- The copy is that of a snapshot unless the target begins inside the source. -/
theorem carry_eq_patch {s t n : Nat} {xs : List α} (hs : s + n ≤ xs.length)
    (ht : t + n ≤ xs.length) (h : n = 0 ∨ t ≤ s ∨ s + n ≤ t) :
    carry s t n xs = patch xs t (window xs s n) := by
  apply List.ext_getElem?
  intro i
  by_cases hi : i < xs.length
  · rw [getElem?_patch_window hs hi]
    by_cases hin : t ≤ i ∧ i < t + n
    · rw [if_pos hin]
      obtain ⟨k, rfl⟩ := Nat.exists_eq_add_of_le hin.1
      rw [show t + k - t = k by omega]
      by_cases hts : t ≤ s
      · exact getElem?_carry_back hts hs (by omega)
      · rw [getElem?_carry_forward (by omega) ht (by omega), Nat.mod_eq_of_lt (by omega)]
    · rw [if_neg hin]
      exact getElem?_carry_outside xs (by omega)
  · rw [List.getElem?_eq_none (by simp; omega), List.getElem?_eq_none (by simp; omega)]

/-- Where it does, some list of every length shows the difference. -/
theorem exists_carry_ne_patch {a b : α} (hab : a ≠ b) {s t n len : Nat} (hst : s < t)
    (hts : t < s + n) (ht : t + n ≤ len) :
    ∃ xs : List α, xs.length = len ∧ carry s t n xs ≠ patch xs t (window xs s n) := by
  have hlength : ((List.replicate len a).set t b).length = len := by simp
  refine ⟨(List.replicate len a).set t b, hlength, ?_⟩
  intro heq
  -- At twice the distance from the source the copy finds its own first element.
  have hcarry : (carry s t n ((List.replicate len a).set t b))[t + (t - s)]? = some a := by
    rw [getElem?_carry_forward hst (by omega) (by omega), Nat.mod_self, Nat.add_zero,
      List.getElem?_set_ne (by omega), List.getElem?_replicate_of_lt (by omega)]
  have hpatch : (patch ((List.replicate len a).set t b) t
      (window ((List.replicate len a).set t b) s n))[t + (t - s)]? = some b := by
    rw [getElem?_patch_window (by omega) (by omega), if_pos (by omega),
      show s + (t + (t - s) - t) = t by omega, List.getElem?_set_self (by simp; omega)]
  rw [heq, hpatch] at hcarry
  exact hab (Option.some.inj hcarry).symm

end Spitfire.Buffer
