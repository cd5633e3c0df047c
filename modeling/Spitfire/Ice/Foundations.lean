import Mathlib.Data.Nat.Digits.Defs
import Spitfire.Ice.Candidate

/-! Foundations. The expression admits any text of letters, digits, plus signs and slashes,
the field is a number, and what a number does not keep is lost. -/
namespace Spitfire.Ice
open Regex Pattern

/-- The leftmost match is accepted but for its foundation. -/
def OtherwiseAccepted (s : Text) (g : Groups CodeUnit) : Prop :=
  search masterRegex s = some g ∧ ∀ i < 14, i ≠ 1 → Passes g i

/-- The digits of a foundation after its sign and its leading zeros. -/
def significant (w : Text) : Text := (readSign w).2.dropWhile (· = unit '0')

theorem decimalValue_eq_ofDigits (w : Text) :
    decimalValue w = Nat.ofDigits 10 (w.reverse.map fun c => c.toNat - 48) := by
  induction w using List.reverseRecOn with
  | nil => rfl
  | append_singleton w c ih =>
    rw [decimalValue_snoc, ih, List.reverse_append, List.reverse_singleton, List.singleton_append,
      List.map_cons, Nat.ofDigits_cons]
    omega

theorem decimalValue_dropWhile_zero (w : Text) :
    decimalValue (w.dropWhile (· = unit '0')) = decimalValue w := by
  induction w with
  | nil => rfl
  | cons c w ih =>
    by_cases hc : c = unit '0'
    · subst hc
      rw [List.dropWhile_cons_of_pos (by simp), ih]
      rfl
    · rw [List.dropWhile_cons_of_neg (by simpa using hc)]

/-- Without leading zeros the digits of a text are the digits of its value. -/
theorem digits_decimalValue {w : Text} (hw : ∀ c ∈ w, isAsciiDigit c = true)
    (hhead : ∀ c ∈ w.head?, c ≠ unit '0') :
    Nat.digits 10 (decimalValue w) = w.reverse.map fun c => c.toNat - 48 := by
  rw [decimalValue_eq_ofDigits]
  apply Nat.digits_ofDigits 10 (by decide)
  · intro n hn
    obtain ⟨c, hc, rfl⟩ := List.mem_map.mp hn
    have hdigit := isAsciiDigit_iff.mp (hw c (List.mem_reverse.mp hc))
    omega
  · intro hne
    cases w with
    | nil => exact absurd rfl hne
    | cons c w =>
      have hdigit := isAsciiDigit_iff.mp (hw c (by simp))
      have hzero : c.toNat ≠ 48 := fun h => hhead c rfl (UInt16.toNat.inj h)
      simp only [List.reverse_cons, List.map_append, List.map_singleton,
        List.getLast_append_singleton]
      omega

theorem digits_unique {w w' : Text} (hw : ∀ c ∈ w, isAsciiDigit c = true)
    (hw' : ∀ c ∈ w', isAsciiDigit c = true) (hhead : ∀ c ∈ w.head?, c ≠ unit '0')
    (hhead' : ∀ c ∈ w'.head?, c ≠ unit '0') (h : decimalValue w = decimalValue w') : w = w' := by
  have hback {w : Text} (hw : ∀ c ∈ w, isAsciiDigit c = true) :
      (w.reverse.map fun c => c.toNat - 48).map (fun n => UInt16.ofNat (n + 48)) = w.reverse := by
    rw [List.map_map]
    refine Eq.trans (List.map_congr_left ?_) (List.map_id _)
    intro c hc
    have hdigit := isAsciiDigit_iff.mp (hw c (List.mem_reverse.mp hc))
    change UInt16.ofNat (c.toNat - 48 + 48) = c
    rw [Nat.sub_add_cancel hdigit.1, UInt16.ofNat_toNat]
  have heq : w.reverse.map (fun c => c.toNat - 48) = w'.reverse.map fun c => c.toNat - 48 := by
    rw [← digits_decimalValue hw hhead, h, digits_decimalValue hw' hhead']
  rw [← List.reverse_inj, ← hback hw, heq, hback hw']

theorem head_dropWhile_ne (w : Text) : ∀ c ∈ (w.dropWhile (· = unit '0')).head?, c ≠ unit '0' := by
  intro c hc
  have hfalse := List.head?_dropWhile_not (· = unit '0') w
  rw [Option.mem_def.mp hc] at hfalse
  simpa using hfalse

/-- Two digit texts have one value exactly when they differ in leading zeros only. -/
theorem decimalValue_eq_iff {w w' : Text} (hw : ∀ c ∈ w, isAsciiDigit c = true)
    (hw' : ∀ c ∈ w', isAsciiDigit c = true) : decimalValue w = decimalValue w' ↔
      w.dropWhile (· = unit '0') = w'.dropWhile (· = unit '0') := by
  constructor
  · intro h
    apply digits_unique
    · exact fun c hc => hw c (List.dropWhile_subset _ hc)
    · exact fun c hc => hw' c (List.dropWhile_subset _ hc)
    · exact head_dropWhile_ne w
    · exact head_dropWhile_ne w'
    · rw [decimalValue_dropWhile_zero, decimalValue_dropWhile_zero, h]
  · intro h
    rw [← decimalValue_dropWhile_zero w, h, decimalValue_dropWhile_zero]

theorem sign_digits {w : Text} (h : ReadsAsULong w) :
    ∀ c ∈ (readSign w).2, isAsciiDigit c = true := by
  obtain ⟨d, hd, _, hall, _⟩ := h
  rcases hd with rfl | rfl
  · rw [readSign_digits hall]
    exact hall
  · simpa [readSign] using hall

/-- Of the lines that are otherwise accepted those are accepted whose foundation is a sign
and digits in range, and the foundation that is returned is the value of the digits. -/
theorem parse_of_otherwiseAccepted {s : Text} {g : Groups CodeUnit} (h : OtherwiseAccepted s g) :
    ((∃ c, parse s = .ok c) ↔ ReadsAsULong (groupValue g 1)) ∧
      ∀ c, parse s = .ok c → c.foundation = decimalValue (readSign (groupValue g 1)).2 := by
  obtain ⟨hsearch, hothers⟩ := h
  obtain ⟨l, _, t, hl, _, rfl, _⟩ := reading_of_search hsearch
  have hpasses : (∀ i < 14, Passes (l.groups t) i) ↔ Passes (l.groups t) 1 := by
    constructor
    · exact fun h => h 1 (by decide)
    · intro h i hi
      by_cases h1 : i = 1
      · exact h1 ▸ h
      · exact hothers i hi h1
  refine ⟨?_, ?_⟩
  · rw [parse_of_search hsearch, convertGroups_ok_iff, hpasses]
    exact passes_foundation hl t
  · intro c hc
    rw [parse_of_search hsearch] at hc
    obtain ⟨_, rfl⟩ := (convertGroups_eq_ok_iff hl).mp hc
    rfl

/-- Two lines that are otherwise accepted are both accepted, and with the same foundation
only if the foundations are written alike, exactly when both foundations are an optional
plus sign and digits below 2 ^ 64, and are one text if they are the same number. -/
theorem foundations_distinguishable_iff {s s' : Text} {g g' : Groups CodeUnit}
    (h : OtherwiseAccepted s g) (h' : OtherwiseAccepted s' g') :
    (∃ c c', parse s = .ok c ∧ parse s' = .ok c' ∧
      (c.foundation = c'.foundation → groupValue g 1 = groupValue g' 1)) ↔
    ReadsAsULong (groupValue g 1) ∧ ReadsAsULong (groupValue g' 1) ∧
      (significant (groupValue g 1) = significant (groupValue g' 1) →
        groupValue g 1 = groupValue g' 1) := by
  obtain ⟨hparse, hvalue⟩ := parse_of_otherwiseAccepted h
  obtain ⟨hparse', hvalue'⟩ := parse_of_otherwiseAccepted h'
  constructor
  · rintro ⟨c, c', hc, hc', hinj⟩
    have hnum := hparse.mp ⟨c, hc⟩
    have hnum' := hparse'.mp ⟨c', hc'⟩
    refine ⟨hnum, hnum', ?_⟩
    rw [hvalue c hc, hvalue' c' hc', decimalValue_eq_iff (sign_digits hnum) (sign_digits hnum')]
      at hinj
    exact hinj
  · rintro ⟨hnum, hnum', hinj⟩
    obtain ⟨c, hc⟩ := hparse.mpr hnum
    obtain ⟨c', hc'⟩ := hparse'.mpr hnum'
    refine ⟨c, c', hc, hc', ?_⟩
    rw [hvalue c hc, hvalue' c' hc', decimalValue_eq_iff (sign_digits hnum) (sign_digits hnum')]
    exact hinj

theorem otherwiseAccepted_of_parse {s : Text} {c : IceCandidate} (h : parse s = .ok c) :
    ∃ g, OtherwiseAccepted s g := by
  obtain ⟨g, hg, hc⟩ := parse_eq_ok_iff.mp h
  exact ⟨g, hg, fun i hi _ => convertGroups_ok_iff.mp ⟨c, hc⟩ i hi⟩

/-- A host candidate with this foundation. -/
def hostLine (foundation : String) : Text :=
  text "candidate:" ++ text foundation ++ text " 1 udp 1 :: 5 typ host"

theorem foundations_one_two : ∃ g g', OtherwiseAccepted (hostLine "1") g ∧
    OtherwiseAccepted (hostLine "2") g' ∧ ∃ c c', parse (hostLine "1") = .ok c ∧
      parse (hostLine "2") = .ok c' ∧
      (c.foundation = c'.foundation → groupValue g 1 = groupValue g' 1) := by
  have hparse : ∃ c, parse (hostLine "1") = .ok c :=
    ⟨{ raw := some (hostLine "1"), foundation := 1, componentId := 1, transport := .udp
       priority := 1, localIp := some (text "::"), localPort := 5 }, by decide +kernel⟩
  have hparse' : ∃ c, parse (hostLine "2") = .ok c :=
    ⟨{ raw := some (hostLine "2"), foundation := 2, componentId := 1, transport := .udp
       priority := 1, localIp := some (text "::"), localPort := 5 }, by decide +kernel⟩
  obtain ⟨c, hc⟩ := hparse
  obtain ⟨c', hc'⟩ := hparse'
  obtain ⟨g, hg⟩ := otherwiseAccepted_of_parse hc
  obtain ⟨g', hg'⟩ := otherwiseAccepted_of_parse hc'
  have hdigits : significant (groupValue g 1) ≠ significant (groupValue g' 1) := by
    have hone : (search masterRegex (hostLine "1")).map (significant <| groupValue · 1) =
        some (text "1") := by decide +kernel
    have htwo : (search masterRegex (hostLine "2")).map (significant <| groupValue · 1) =
        some (text "2") := by decide +kernel
    rw [hg.1, Option.map_some, Option.some_inj] at hone
    rw [hg'.1, Option.map_some, Option.some_inj] at htwo
    rw [hone, htwo]
    decide
  refine ⟨g, g', hg, hg', (foundations_distinguishable_iff hg hg').mpr ⟨?_, ?_, ?_⟩⟩
  · exact (parse_of_otherwiseAccepted hg).1.mp ⟨c, hc⟩
  · exact (parse_of_otherwiseAccepted hg').1.mp ⟨c', hc'⟩
  · exact fun h => absurd h hdigits

/-- Letters are refused, and a leading zero or a sign is not seen. -/
theorem foundations_lost :
    parse (hostLine "a1") =
      .error (.dataException (text "Input string was not in a correct format.")) ∧
    (parse (hostLine "1")).map IceCandidate.foundation = .ok 1 ∧
    (parse (hostLine "01")).map IceCandidate.foundation = .ok 1 ∧
    (parse (hostLine "+1")).map IceCandidate.foundation = .ok 1 := by
  decide +kernel

end Spitfire.Ice
