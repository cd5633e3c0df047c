import Mathlib.Algebra.BigOperators.Group.List.Basic
import Mathlib.Algebra.Ring.Nat

/-! Writing a block over a list at an offset, and lists cut into consecutive parts. What
lies outside the list is dropped, so the length never changes. -/
namespace Spitfire.Buffer
variable {α : Type}

/-- `xs` with `ys` written over it from position `off` on. -/
def patch (xs : List α) (off : Nat) (ys : List α) : List α :=
  xs.mapIdx fun i x => if off ≤ i then ys[i - off]?.getD x else x

@[simp] theorem length_patch (xs : List α) (off : Nat) (ys : List α) :
    (patch xs off ys).length = xs.length := by
  simp [patch]

theorem getElem?_patch (xs : List α) (off : Nat) (ys : List α) (i : Nat) :
    (patch xs off ys)[i]? = xs[i]?.map fun x => if off ≤ i then ys[i - off]?.getD x else x := by
  simp [patch]

@[simp] theorem patch_nil (xs : List α) (off : Nat) : patch xs off [] = xs := by
  apply List.ext_getElem?
  intro i
  simp [getElem?_patch]

/-- Writing the first element and then the others is writing all of them. -/
theorem patch_set (xs : List α) (off : Nat) (y : α) (ys : List α) :
    patch (xs.set off y) (off + 1) ys = patch xs off (y :: ys) := by
  apply List.ext_getElem?
  intro i
  rw [getElem?_patch, getElem?_patch]
  by_cases hi : off = i
  · subst hi
    have hlast : ¬ off + 1 ≤ off := by omega
    by_cases hlt : off < xs.length
    · simp [hlt, hlast]
    · simp [hlt]
  · rw [List.getElem?_set_ne hi]
    by_cases hle : off ≤ i
    · have hsub : i - off = i - (off + 1) + 1 := by omega
      simp [hle, show off + 1 ≤ i by omega, hsub]
    · simp [hle, show ¬ off + 1 ≤ i by omega]

/-- The part of `xs` that starts at `off` and has `n` elements. -/
def window (xs : List α) (off n : Nat) : List α := (xs.drop off).take n

theorem getElem?_window (xs : List α) (off n i : Nat) :
    (window xs off n)[i]? = if i < n then xs[off + i]? else none := by
  rw [window, List.getElem?_take, List.getElem?_drop]

theorem window_succ {xs : List α} {off n : Nat} {x : α} (h : xs[off]? = some x) :
    window xs off (n + 1) = x :: window xs (off + 1) n := by
  obtain ⟨hlt, rfl⟩ := List.getElem?_eq_some_iff.mp h
  rw [window, List.drop_eq_getElem_cons hlt, List.take_succ_cons]
  rfl

/-- Position by position: inside the written part the block is found, elsewhere what was
there before. -/
theorem getElem?_patch_window {xs zs : List α} {off start n : Nat} (hzs : start + n ≤ zs.length)
    {i : Nat} (hi : i < xs.length) :
    (patch xs off (window zs start n))[i]? =
      if off ≤ i ∧ i < off + n then zs[start + (i - off)]? else xs[i]? := by
  rw [getElem?_patch, getElem?_window]
  have hx : xs[i]? = some xs[i] := List.getElem?_eq_getElem hi
  by_cases hle : off ≤ i
  · by_cases hlt : i < off + n
    · have hz : start + (i - off) < zs.length := by omega
      simp [hle, hlt, hx, show i - off < n by omega, hz]
    · simp [hle, hlt, hx, show ¬ i - off < n by omega]
  · simp [hle]

/-- A list into which its own parts are copied agrees with the list they were taken from
on more and more positions. -/
theorem patch_window_agrees {xs zs : List α} {off n : Nat} (hlength : xs.length = zs.length)
    (hn : off + n ≤ zs.length) {i : Nat} (h : xs[i]? = zs[i]? ∨ off ≤ i ∧ i < off + n) :
    (patch xs off (window zs off n))[i]? = zs[i]? := by
  by_cases hi : i < xs.length
  · rw [getElem?_patch_window hn hi]
    split
    · rename_i hin
      rw [show off + (i - off) = i by omega]
    · rename_i hout
      exact h.resolve_right hout
  · rw [List.getElem?_eq_none (by simp; omega), List.getElem?_eq_none (by omega)]

/-- A block as long as the list replaces it. -/
theorem patch_all {xs ys : List α} (h : ys.length = xs.length) : patch xs 0 ys = ys := by
  apply List.ext_getElem?
  intro i
  rw [getElem?_patch]
  by_cases hi : i < xs.length
  · have hy : i < ys.length := by omega
    simp [hi, hy]
  · have hy : ¬ i < ys.length := by omega
    simp [hi, hy]

theorem length_window {xs : List α} {off n : Nat} (h : off + n ≤ xs.length) :
    (window xs off n).length = n := by
  rw [window, List.length_take, List.length_drop]
  omega

theorem window_all {xs : List α} {n : Nat} (h : xs.length = n) : window xs 0 n = xs := by
  rw [window, List.drop_zero, ← h, List.take_length]

/-- A list is cut at its first element of a class in one way only. -/
theorem split_unique {p : α → Bool} {w w' u u' : List α} {b b' : α}
    (hw : ∀ c ∈ w, p c = false) (hw' : ∀ c ∈ w', p c = false) (hb : p b = true)
    (hb' : p b' = true) (h : w ++ b :: u = w' ++ b' :: u') : w = w' ∧ b = b' ∧ u = u' := by
  induction w generalizing w' with
  | nil =>
    cases w' with
    | nil => simpa using h
    | cons c w' =>
      have hc := hw' c (by simp)
      rw [← (List.cons.inj h).1, hb] at hc
      cases hc
  | cons c w ih =>
    cases w' with
    | nil =>
      have hc := hw c (by simp)
      rw [(List.cons.inj h).1, hb'] at hc
      cases hc
    | cons c' w' =>
      obtain ⟨rfl, ht⟩ := List.cons.inj h
      obtain ⟨rfl, hu⟩ := ih (fun x hx => hw x (by simp [hx])) (fun x hx => hw' x (by simp [hx])) ht
      exact ⟨rfl, hu⟩

/-- Two occurrences of a word whose first element does not come again in it do not
overlap. -/
theorem occurrences_apart {c : α} {w z r r' : List α} (hc : c ∉ w)
    (h : z ++ (c :: w ++ r) = c :: w ++ r') : z = [] ∨ c :: w <+: z := by
  cases z with
  | nil => exact Or.inl rfl
  | cons x z =>
    refine Or.inr ?_
    obtain ⟨rfl, h⟩ := List.cons.inj h
    rcases List.append_eq_append_iff.mp h with ⟨a, rfl, ha⟩ | ⟨b, rfl, _⟩
    · cases a with
      | nil => simp
      | cons y a =>
        obtain ⟨rfl, _⟩ := List.cons.inj ha
        exact absurd (by simp) hc
    · exact List.prefix_append _ _

/-- A word that ends with an element that is not in the second part lies in the first. -/
theorem infix_of_append {d : α} {w p q : List α} (hd : d ∉ q) (h : w ++ [d] <:+: p ++ q) :
    w ++ [d] <:+: p := by
  obtain ⟨a, b, hab⟩ := h
  rcases List.append_eq_append_iff.mp hab with ⟨e, rfl, _⟩ | ⟨e, he, rfl⟩
  · exact ⟨a, e, rfl⟩
  · rcases List.eq_nil_or_concat e with rfl | ⟨e, x, rfl⟩
    · exact ⟨a, [], by simpa using he⟩
    · -- The last element of the word would be one of the second part.
      rw [List.concat_eq_append, ← List.append_assoc, ← List.append_assoc] at he
      obtain ⟨_, hx⟩ := List.append_inj' he rfl
      obtain rfl : d = x := by simpa using hx
      exact absurd (by simp) hd

/-- Where part `j` begins when the parts have these sizes. -/
def offsetOf (sizes : List Nat) (j : Nat) : Nat := (sizes.take j).sum

theorem offsetOf_add_le {sizes : List Nat} {j n : Nat} (h : sizes[j]? = some n) :
    offsetOf sizes j + n ≤ sizes.sum := by
  obtain ⟨hlt, rfl⟩ := List.getElem?_eq_some_iff.mp h
  have hsplit : sizes.sum = (sizes.take j).sum + (sizes.drop j).sum := by
    rw [← List.sum_append, List.take_append_drop]
  rw [List.drop_eq_getElem_cons hlt, List.sum_cons] at hsplit
  rw [offsetOf]
  omega

/-- Every position lies in some part. -/
theorem exists_part {sizes : List Nat} {i : Nat} (h : i < sizes.sum) :
    ∃ j n, sizes[j]? = some n ∧ offsetOf sizes j ≤ i ∧ i < offsetOf sizes j + n := by
  induction sizes generalizing i with
  | nil => cases h
  | cons k sizes ih =>
    by_cases hi : i < k
    · refine ⟨0, k, rfl, Nat.zero_le i, ?_⟩
      simpa [offsetOf] using hi
    · rw [List.sum_cons] at h
      obtain ⟨j, n, hj, hle, hlt⟩ := ih (i := i - k) (by omega)
      refine ⟨j + 1, n, hj, ?_, ?_⟩
      · simp only [offsetOf, List.take_succ_cons, List.sum_cons] at hle ⊢
        omega
      · simp only [offsetOf, List.take_succ_cons, List.sum_cons] at hlt ⊢
        omega

end Spitfire.Buffer
