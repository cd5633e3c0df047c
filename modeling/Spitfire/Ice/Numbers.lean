import Mathlib.Data.List.Induction
import Mathlib.Data.List.TakeWhile
import Mathlib.Tactic.ByContra
import Spitfire.Ice.Runtime

/-! When the integer conversions of the class library succeed, and on what value, for
texts without white space, minus signs and NULs. -/
namespace Spitfire.Ice

/-- Neither skipped nor read as a minus sign or an end of text. -/
def Plain (c : CodeUnit) : Prop := isNumberWhite c = false ∧ c ≠ unit '-' ∧ c ≠ 0

theorem isNumberWhite_le {c : CodeUnit} (h : isWhiteSpace c = false) : isNumberWhite c = false := by
  rw [← Bool.not_eq_true] at h ⊢
  rw [isWhiteSpace_iff] at h
  simp only [isNumberWhite, Bool.or_eq_true, Bool.and_eq_true, decide_eq_true_eq]
  omega

theorem unit_toNat_ne {c d : CodeUnit} (h : c.toNat ≠ d.toNat) : c ≠ d :=
  fun he => h (congrArg UInt16.toNat he)

/-- A digit in any script; the minus sign and NUL are not among them. -/
theorem plain_of_decimalDigit {c : CodeUnit} (h : isDecimalDigit c = true) : Plain c := by
  refine ⟨isNumberWhite_le (not_isWhiteSpace_of_decimalDigit h), ?_⟩
  obtain ⟨z, hz, hc⟩ := List.any_eq_true.mp h
  simp only [Bool.and_eq_true, decide_eq_true_eq] at hc
  have hmin : ∀ z ∈ decimalZeros, 48 ≤ z := by decide
  have hle := hmin z hz
  constructor
  · apply unit_toNat_ne
    have : (unit '-').toNat = 45 := by decide
    omega
  · apply unit_toNat_ne
    have : (0 : CodeUnit).toNat = 0 := by decide
    omega

theorem plain_of_digit {c : CodeUnit} (h : isAsciiDigit c = true) : Plain c :=
  plain_of_decimalDigit (isDecimalDigit_of_ascii h)

private theorem dropWhile_white {w : Text} (h : ∀ c ∈ w, Plain c) : w.dropWhile isNumberWhite = w := by
  cases w with
  | nil => rfl
  | cons c w => rw [List.dropWhile_cons, if_neg (by rw [(h c (by simp)).1]; decide)]

theorem readDigits_eq_some_iff {w d : Text} (h : ∀ c ∈ w, Plain c) :
    readDigits w = some d ↔ w = d ∧ d ≠ [] ∧ ∀ c ∈ d, isAsciiDigit c = true := by
  have htail : ∀ c ∈ w.dropWhile isAsciiDigit, Plain c :=
    fun c hc => h c ((List.dropWhile_sublist _).subset hc)
  have hall : (w.dropWhile isAsciiDigit).all (fun c => c = 0) = true ↔
      ∀ c ∈ w, isAsciiDigit c = true := by
    rw [← List.dropWhile_eq_nil_iff]
    constructor
    · intro ha
      by_contra hne
      obtain ⟨c, hc⟩ := List.exists_mem_of_ne_nil _ hne
      have hz : c = 0 := by simpa using List.all_eq_true.mp ha c hc
      exact (htail c hc).2.2 hz
    · intro he
      simp [he]
  unfold readDigits
  dsimp only
  rw [dropWhile_white htail]
  constructor
  · intro he
    split at he
    · cases he
    · rename_i hne
      split at he
      · rename_i ha
        have hd := hall.mp ha
        have htake : w.takeWhile isAsciiDigit = w := List.takeWhile_eq_self_iff.mpr hd
        obtain rfl : w = d := by simpa [htake] using he
        exact ⟨rfl, by simpa [htake] using hne, hd⟩
      · cases he
  · rintro ⟨rfl, hne, hd⟩
    have htake : w.takeWhile isAsciiDigit = w := List.takeWhile_eq_self_iff.mpr hd
    rw [htake, if_neg (by simpa using hne), if_pos (hall.mpr hd)]

/-- No minus sign is read, and only one plus sign. -/
private theorem readSign_plain {w : Text} (h : ∀ c ∈ w, Plain c) :
    (∃ t, w = unit '+' :: t ∧ readSign w = (false, t)) ∨
      ((∀ t, w ≠ unit '+' :: t) ∧ readSign w = (false, w)) := by
  cases w with
  | nil => exact Or.inr ⟨by simp, rfl⟩
  | cons c t =>
    by_cases hp : c = unit '+'
    · subst hp
      exact Or.inl ⟨t, rfl, by simp [readSign]⟩
    · refine Or.inr ⟨by simp [hp], ?_⟩
      simp [readSign, hp, (h c (by simp)).2.1]

theorem integerStyle_eq_some_iff {w d : Text} {b : Bool} (h : ∀ c ∈ w, Plain c) :
    integerStyle w = some (b, d) ↔ b = false ∧ (w = d ∨ w = unit '+' :: d) ∧ d ≠ [] ∧
      ∀ c ∈ d, isAsciiDigit c = true := by
  have hplus : isAsciiDigit (unit '+') = false := by decide
  unfold integerStyle
  rw [dropWhile_white h]
  rcases readSign_plain h with ⟨t, rfl, hs⟩ | ⟨hne, hs⟩
  · rw [hs]
    have ht : ∀ c ∈ t, Plain c := fun c hc => h c (by simp [hc])
    simp only [Option.map_eq_some_iff, readDigits_eq_some_iff ht, Prod.mk.injEq]
    constructor
    · rintro ⟨d, ⟨rfl, hd⟩, rfl, rfl⟩
      exact ⟨rfl, Or.inr rfl, hd⟩
    · rintro ⟨rfl, rfl | he, hd⟩
      · have := hd.2 (unit '+') (by simp)
        rw [hplus] at this
        cases this
      · obtain rfl : t = d := by simpa using he
        exact ⟨t, ⟨rfl, hd⟩, rfl, rfl⟩
  · rw [hs]
    simp only [Option.map_eq_some_iff, readDigits_eq_some_iff h, Prod.mk.injEq]
    constructor
    · rintro ⟨d, ⟨rfl, hd⟩, rfl, rfl⟩
      exact ⟨rfl, Or.inl rfl, hd⟩
    · rintro ⟨rfl, rfl | he, hd⟩
      · exact ⟨w, ⟨rfl, hd⟩, rfl, rfl⟩
      · exact absurd he (hne d)

/-- A conversion of plain text succeeds exactly on an optional plus sign and digits
whose value is in range, and returns that value. -/
theorem parseInteger_eq_ok_iff {name : String} {min max : Int} (hmin : min ≤ 0) {w : Text}
    (h : ∀ c ∈ w, Plain c) {n : Int} :
    parseInteger name min max w = .ok n ↔ ∃ d, (w = d ∨ w = unit '+' :: d) ∧ d ≠ [] ∧
      (∀ c ∈ d, isAsciiDigit c = true) ∧ (decimalValue d : Int) ≤ max ∧ n = decimalValue d := by
  unfold parseInteger
  constructor
  · intro he
    split at he
    · cases he
    · rename_i b d hs
      obtain ⟨rfl, hw, hne, hd⟩ := (integerStyle_eq_some_iff h).mp hs
      simp only [Bool.false_eq_true, if_false] at he
      split at he
      · rename_i hr
        exact ⟨d, hw, hne, hd, hr.2, by simpa using he.symm⟩
      · cases he
  · rintro ⟨d, hw, hne, hd, hmax, rfl⟩
    rw [(integerStyle_eq_some_iff h).mpr ⟨rfl, hw, hne, hd⟩]
    simp only [Bool.false_eq_true, if_false]
    rw [if_pos ⟨by omega, hmax⟩]

theorem parseInteger_digits {name : String} {min max : Int} (hmin : min ≤ 0) {w : Text}
    (hne : w ≠ []) (hw : ∀ c ∈ w, isAsciiDigit c = true) {n : Int} :
    parseInteger name min max w = .ok n ↔ (decimalValue w : Int) ≤ max ∧ n = decimalValue w := by
  rw [parseInteger_eq_ok_iff hmin fun c hc => plain_of_digit (hw c hc)]
  constructor
  · rintro ⟨d, rfl | rfl, -, -, hmax, hn⟩
    · exact ⟨hmax, hn⟩
    · have : isAsciiDigit (unit '+') = true := hw _ (by simp)
      cases (by decide : isAsciiDigit (unit '+') = false).symm.trans this
  · rintro ⟨hmax, hn⟩
    exact ⟨w, Or.inl rfl, hne, hw, hmax, hn⟩

theorem decimalValue_snoc (w : Text) (c : CodeUnit) :
    decimalValue (w ++ [c]) = 10 * decimalValue w + (c.toNat - 48) := by
  simp [decimalValue]

/-- Digit counts bound values. -/
theorem decimalValue_lt {w : Text} (hw : ∀ c ∈ w, isAsciiDigit c = true) :
    decimalValue w < 10 ^ w.length := by
  induction w using List.reverseRecOn with
  | nil => decide
  | append_singleton w c ih =>
    have hc := isAsciiDigit_iff.mp (hw c (by simp))
    have := ih fun x hx => hw x (by simp [hx])
    rw [decimalValue_snoc, List.length_append, List.length_singleton, Nat.pow_succ]
    omega

end Spitfire.Ice
