import Spitfire.Ice.Line
import Spitfire.Ice.Numbers
import Spitfire.Transition.Fallible

/-! Exactly which strings the parser accepts. A match decides the captured texts, the
conversions decide the rest, and nothing but a `DataException` leaves the parser. -/
namespace Spitfire.Ice
open Regex Pattern Transition

theorem groupsCount_eq : groupsCount = 14 := by decide

/-- The group is skipped or its conversion succeeds. -/
def Passes (g : Groups CodeUnit) (i : Nat) : Prop :=
  isNullOrWhiteSpace (groupValue g i) = true ∨ ∃ f, convert i (groupValue g i) = .ok f

theorem convertGroup_ok_iff {g : Groups CodeUnit} {c : IceCandidate} {i : Nat} :
    (∃ c', convertGroup g c i = .ok c') ↔ Passes g i := by
  unfold convertGroup Passes
  dsimp only
  by_cases hb : isNullOrWhiteSpace (groupValue g i) = true
  · simp [hb]
  · rw [if_neg hb]
    cases convert i (groupValue g i) <;> simp [hb]

theorem convertGroup_error {g : Groups CodeUnit} {c : IceCandidate} {i : Nat} {e : Exception}
    (h : convertGroup g c i = .error e) : ∃ m, e = .dataException m := by
  unfold convertGroup at h
  dsimp only at h
  split at h
  · cases h
  · split at h
    · cases h
    · cases h
      exact ⟨_, rfl⟩

private theorem foldlM_ok_iff {g : Groups CodeUnit} {l : List Nat} {c : IceCandidate} :
    (∃ c', l.foldlM (convertGroup g) c = .ok c') ↔ ∀ i ∈ l, Passes g i := by
  induction l generalizing c with
  | nil => simp [pure, Except.pure]
  | cons i l ih =>
    rw [List.foldlM_cons, List.forall_mem_cons, ← convertGroup_ok_iff (c := c)]
    cases h : convertGroup g c i with
    | error e => simp [bind, Except.bind]
    | ok c' => simpa [bind, Except.bind] using ih

private theorem foldlM_error {g : Groups CodeUnit} {l : List Nat} {c : IceCandidate} {e : Exception}
    (h : l.foldlM (convertGroup g) c = .error e) : ∃ m, e = .dataException m := by
  induction l generalizing c with
  | nil => cases h
  | cons i l ih =>
    rw [List.foldlM_cons] at h
    cases hc : convertGroup g c i with
    | error e' =>
      rw [hc] at h
      cases h
      exact convertGroup_error hc
    | ok c' =>
      rw [hc] at h
      exact ih h

theorem convertGroups_ok_iff {g : Groups CodeUnit} :
    (∃ c, convertGroups g = .ok c) ↔ ∀ i < 14, Passes g i := by
  unfold convertGroups
  rw [foldlM_ok_iff, groupsCount_eq]
  simp only [List.mem_range]

/-- The count of groups never keeps a match from being converted. -/
theorem parse_of_search {s : Text} {g : Groups CodeUnit} (h : search masterRegex s = some g) :
    parse s = convertGroups g := by
  unfold parse
  rw [h]
  exact if_neg (by simp [groupsCount_eq])

theorem parse_eq_ok_iff {s : Text} {c : IceCandidate} :
    parse s = .ok c ↔ ∃ g, search masterRegex s = some g ∧ convertGroups g = .ok c := by
  cases h : search masterRegex s with
  | none => simp [parse, h]
  | some g => simp [parse_of_search h]

/-- Nothing but a `DataException` leaves the parser. -/
theorem parse_error {s : Text} {e : Exception} (h : parse s = .error e) :
    ∃ m, e = .dataException m := by
  unfold parse at h
  split at h
  · cases h
    exact ⟨_, rfl⟩
  · rw [if_neg (by simp [groupsCount_eq])] at h
    exact foldlM_error h

theorem line_of_search {s : Text} {g : Groups CodeUnit} (h : search masterRegex s = some g) :
    ∃ (l : Line) (p t : Text), l.WellFormed ∧ s = p ++ l.write t ∧ g = l.groups t := by
  obtain ⟨p, u, rfl, hm, _⟩ := search_eq_some h
  obtain ⟨t, ht⟩ := exists_path_of_matchHere hm
  obtain ⟨l, hl, hw, hg⟩ := line_of_mem_paths ht
  exact ⟨l, p, t, hl, by rw [hw], hg⟩

theorem tokenChar_ascii {c : CodeUnit} (h : isTokenChar c = true) :
    33 ≤ c.toNat ∧ c.toNat ≤ 126 := by
  have hlist : (text "-.!%*_+`'~").all (fun x => 33 ≤ x.toNat ∧ x.toNat ≤ 126) = true := by decide
  simp only [isTokenChar, Bool.or_eq_true, List.contains_iff_mem] at h
  rcases h with ((h | h) | h) | h
  · simp [within] at h; omega
  · simp [within] at h; omega
  · simp [within] at h; omega
  · exact of_decide_eq_true (List.all_eq_true.mp hlist c h)

theorem iceChar_ascii {c : CodeUnit} (h : isIceChar c = true) :
    43 ≤ c.toNat ∧ c.toNat ≤ 122 ∧ c.toNat ≠ 45 := by
  have hplus : (unit '+').toNat = 43 := by decide
  have hslash : (unit '/').toNat = 47 := by decide
  simp only [isIceChar, within, Bool.or_eq_true, Bool.and_eq_true, decide_eq_true_eq] at h
  rcases h with (((h | h) | h) | rfl) | rfl
  · simp at h; omega
  · simp at h; omega
  · simp at h; omega
  · omega
  · omega

theorem iceChar_plain {c : CodeUnit} (h : isIceChar c = true) : Plain c := by
  have ha := iceChar_ascii h
  refine ⟨isNumberWhite_le (not_isWhiteSpace_of_ascii (by omega)), ?_, ?_⟩
  · apply unit_toNat_ne
    have : (unit '-').toNat = 45 := by decide
    omega
  · apply unit_toNat_ne
    have : (0 : CodeUnit).toNat = 0 := by decide
    omega

/-- A text of at least one character of a class without white space is not blank. -/
theorem not_blank_of_loop {p : CodeUnit → Bool} {max : Option Nat} {w : Text}
    (hp : ∀ c, p c = true → isWhiteSpace c = false)
    (hw : w ∈ (setLoop p 1 max).language) : isNullOrWhiteSpace w = false := by
  obtain ⟨hall, hlen, _⟩ := hw
  cases w with
  | nil => simp at hlen
  | cons c w =>
    have := hp c (hall c (by simp))
    simp [isNullOrWhiteSpace, this]

theorem trim_token {w : Text} (hw : w ∈ tokenRegex.language) : trim w = w := by
  have hno : ∀ c ∈ w, isWhiteSpace c = false :=
    fun c hc => not_isWhiteSpace_of_ascii (tokenChar_ascii (hw.1 c hc))
  have hdrop (v : Text) (hv : ∀ c ∈ v, isWhiteSpace c = false) : v.dropWhile isWhiteSpace = v := by
    cases v with
    | nil => rfl
    | cons c v => rw [List.dropWhile_cons, if_neg (by rw [hv c (by simp)]; decide)]
  unfold trim
  rw [hdrop w hno, hdrop w.reverse (by simpa using hno), List.reverse_reverse]

theorem lookupOrThrow_ok_iff {α : Type} {table : List (Text × α)} {key : Text} {message : String} :
    (∃ t, lookupOrThrow table key message = .ok t) ↔ key ∈ table.map Prod.fst := by
  have hkey : (table.lookup key).isSome = true ↔ key ∈ table.map Prod.fst := by
    rw [List.lookup_isSome_iff, List.mem_map]
    apply exists_congr
    intro p
    rw [beq_iff_eq, eq_comm]
  rw [← hkey, lookupOrThrow]
  cases table.lookup key <;> simp

theorem getTransportType_ok_iff {w : Text} (hw : w ∈ tokenRegex.language) :
    (∃ t, getTransportType w = .ok t) ↔ toLower w = text "udp" ∨ toLower w = text "tcp" := by
  unfold getTransportType
  rw [trim_token hw, lookupOrThrow_ok_iff]
  simp [iceTransportMap]

theorem getIceType_ok_iff {w : Text} : (∃ t, getIceType w = .ok t) ↔
    toLower w ∈ [text "host", text "srflx", text "prflx", text "relay"] :=
  lookupOrThrow_ok_iff

/-- What a text must be for `ulong.Parse`: an optional plus sign and digits in range. -/
def ReadsAsULong (w : Text) : Prop :=
  ∃ d, (w = d ∨ w = unit '+' :: d) ∧ d ≠ [] ∧ (∀ c ∈ d, isAsciiDigit c = true) ∧
    decimalValue d < 2 ^ 64

/-- The conversions that can fail, on the groups of a match. -/
structure Acceptable (g : Groups CodeUnit) : Prop where
  foundation : ReadsAsULong (groupValue g 1)
  transport : toLower (groupValue g 3) = text "udp" ∨ toLower (groupValue g 3) = text "tcp"
  port : decimalValue (groupValue g 6) ≤ 65535
  type : toLower (groupValue g 7) ∈ [text "host", text "srflx", text "prflx", text "relay"]
  rport : ∀ c ∈ g 9, decimalValue c.value ≤ 65535
  generation : ∀ c ∈ g 10, (∀ a ∈ c.value, isAsciiDigit a = true) ∧ decimalValue c.value < 2 ^ 32
  networkId : ∀ c ∈ g 12, decimalValue c.value ≤ 2 ^ 31 - 1
  networkCost : ∀ c ∈ g 13, decimalValue c.value ≤ 2 ^ 31 - 1

theorem iceChar_not_space (c : CodeUnit) (h : isIceChar c = true) : isWhiteSpace c = false :=
  not_isWhiteSpace_of_ascii (by have := iceChar_ascii h; omega)

theorem tokenChar_not_space (c : CodeUnit) (h : isTokenChar c = true) : isWhiteSpace c = false :=
  not_isWhiteSpace_of_ascii (tokenChar_ascii h)

theorem digit_not_space (c : CodeUnit) (h : isAsciiDigit c = true) : isWhiteSpace c = false :=
  not_isWhiteSpace_of_decimalDigit (isDecimalDigit_of_ascii h)

/-- A group that takes part with a text that is not blank passes by its conversion. -/
theorem passes_of_value {g : Groups CodeUnit} {i : Nat} {w : Text} (hv : groupValue g i = w)
    (hw : isNullOrWhiteSpace w = false) : Passes g i ↔ ∃ f, convert i w = .ok f := by
  unfold Passes
  rw [hv, hw]
  simp

theorem passes_of_absent {g : Groups CodeUnit} {i : Nat} (h : g i = none) : Passes g i := by
  apply Or.inl
  simp [groupValue, h, isNullOrWhiteSpace]

theorem ulongParse_ok_iff {w : Text} (hw : w ∈ iceRegex.language) :
    (∃ n, ulongParse w = .ok n) ↔ ReadsAsULong w := by
  unfold ulongParse
  rw [exists_map_eq_ok]
  simp only [parseInteger_eq_ok_iff (le_refl 0) fun c hc => iceChar_plain (hw.1 c hc)]
  constructor
  · intro ⟨n, d, h1, h2, h3, h4, _⟩
    exact ⟨d, h1, h2, h3, by omega⟩
  · intro ⟨d, h1, h2, h3, h4⟩
    exact ⟨_, d, h1, h2, h3, by omega, rfl⟩

/-- On digits only the range of the target type can be missed. -/
theorem parseInteger_ok_iff_of_digits {name : String} {min bound : Int} (hmin : min ≤ 0)
    {max : Option Nat} {w : Text} (hw : w ∈ (setLoop isAsciiDigit 1 max).language) :
    (∃ n, parseInteger name min bound w = .ok n) ↔ (decimalValue w : Int) ≤ bound := by
  have hne : w ≠ [] := List.ne_nil_of_length_pos hw.2.1
  simp only [parseInteger_digits hmin hne hw.1]
  constructor
  · intro ⟨n, h, _⟩
    exact h
  · intro h
    exact ⟨_, h, rfl⟩

theorem generation_ok_iff {w : Text} (hw : w ∈ generationRegex.language) :
    (∃ n, uintParse w = .ok n) ↔ (∀ c ∈ w, isAsciiDigit c = true) ∧ decimalValue w < 2 ^ 32 := by
  have hne : w ≠ [] := List.ne_nil_of_length_pos hw.2.1
  have hplus : isDecimalDigit (unit '+') = false := by decide
  unfold uintParse
  rw [exists_map_eq_ok]
  simp only [parseInteger_eq_ok_iff (le_refl 0) fun c hc => plain_of_decimalDigit (hw.1 c hc)]
  constructor
  · intro ⟨n, d, hd, _, hall, hmax, _⟩
    rcases hd with rfl | rfl
    · exact ⟨hall, by omega⟩
    · have := hw.1 (unit '+') (by simp)
      rw [hplus] at this
      cases this
  · intro ⟨hall, hmax⟩
    exact ⟨_, w, Or.inl rfl, hne, hall, by omega, rfl⟩

/-- The two network attributes are converted alike. -/
private theorem passes_network {g : Groups CodeUnit} {i : Nat} {a : Attribute} {rest : Text}
    (ha : a.Fits priorityRegex) (hg : g i = some ⟨a.value, rest⟩)
    (hi : ∀ v, (∃ f, convert i v = .ok f) ↔ ∃ n, intParse v = .ok n) :
    Passes g i ↔ ∀ c ∈ g i, decimalValue c.value ≤ 2 ^ 31 - 1 := by
  have hw := ha.2.2
  have hv : groupValue g i = a.value := by simp [groupValue, hg]
  rw [passes_of_value hv (not_blank_of_loop digit_not_space hw), hg]
  refine (hi a.value).trans ((parseInteger_ok_iff_of_digits (by decide) hw).trans ?_)
  simp only [Option.mem_some_iff, forall_eq']
  omega

section
variable {l : Line} (hl : l.WellFormed) (t : Text)
include hl

theorem passes_foundation : Passes (l.groups t) 1 ↔ ReadsAsULong l.foundation.value := by
  have hb := not_blank_of_loop iceChar_not_space hl.foundation.1
  rw [passes_of_value (w := l.foundation.value) rfl hb]
  exact exists_map_eq_ok.trans (ulongParse_ok_iff hl.foundation.1)

theorem passes_componentId : Passes (l.groups t) 2 := by
  have hw := hl.componentId.1
  have hb := not_blank_of_loop digit_not_space hw
  rw [passes_of_value (w := l.componentId.value) rfl hb]
  apply exists_map_eq_ok.mpr
  apply exists_map_eq_ok.mpr
  apply (parseInteger_ok_iff_of_digits (le_refl 0) hw).mpr
  have hlt := decimalValue_lt hw.1
  have hlen : 10 ^ l.componentId.value.length ≤ 10 ^ 5 :=
    Nat.pow_le_pow_right (by decide) (hw.2.2 5 rfl)
  omega

theorem passes_transport : Passes (l.groups t) 3 ↔
    toLower l.transport.value = text "udp" ∨ toLower l.transport.value = text "tcp" := by
  have hb := not_blank_of_loop tokenChar_not_space hl.transport.1
  rw [passes_of_value (w := l.transport.value) rfl hb]
  exact exists_map_eq_ok.trans (getTransportType_ok_iff hl.transport.1)

theorem passes_priority : Passes (l.groups t) 4 := by
  have hw := hl.priority.1
  have hb := not_blank_of_loop digit_not_space hw
  rw [passes_of_value (w := l.priority.value) rfl hb]
  apply exists_map_eq_ok.mpr
  apply exists_map_eq_ok.mpr
  apply (parseInteger_ok_iff_of_digits (le_refl 0) hw).mpr
  have hlt := decimalValue_lt hw.1
  have hlen : 10 ^ l.priority.value.length ≤ 10 ^ 10 :=
    Nat.pow_le_pow_right (by decide) (hw.2.2 10 rfl)
  omega

theorem passes_port : Passes (l.groups t) 6 ↔ decimalValue l.port.value ≤ 65535 := by
  have hb := not_blank_of_loop digit_not_space hl.port.1
  rw [passes_of_value (w := l.port.value) rfl hb]
  refine exists_map_eq_ok.trans (exists_map_eq_ok.trans
    ((parseInteger_ok_iff_of_digits (le_refl 0) hl.port.1).trans ?_))
  omega

theorem passes_type : Passes (l.groups t) 7 ↔
    toLower l.type ∈ [text "host", text "srflx", text "prflx", text "relay"] := by
  have hb := not_blank_of_loop tokenChar_not_space hl.type
  rw [passes_of_value (w := l.type) rfl hb]
  exact exists_map_eq_ok.trans getIceType_ok_iff

theorem passes_rport : Passes (l.groups t) 9 ↔
    ∀ c ∈ l.groups t 9, decimalValue c.value ≤ 65535 := by
  cases hr : l.remote with
  | none =>
    have hg : l.groups t 9 = none := by simp [Line.groups, hr]
    simp [passes_of_absent hg, hg]
  | some p =>
    have hg : l.groups t 9 = some ⟨p.2.value, l.afterRemote t⟩ := by simp [Line.groups, hr]
    have hw := (hl.remote p hr).2.2.2
    have hv : groupValue (l.groups t) 9 = p.2.value := by simp [groupValue, hg]
    rw [passes_of_value hv (not_blank_of_loop digit_not_space hw), hg]
    refine exists_map_eq_ok.trans (exists_map_eq_ok.trans
      ((parseInteger_ok_iff_of_digits (le_refl 0) hw).trans ?_))
    simp only [Option.mem_some_iff, forall_eq']
    omega

theorem passes_generation : Passes (l.groups t) 10 ↔ ∀ c ∈ l.groups t 10,
    (∀ a ∈ c.value, isAsciiDigit a = true) ∧ decimalValue c.value < 2 ^ 32 := by
  cases hr : l.generation with
  | none =>
    have hg : l.groups t 10 = none := by simp [Line.groups, hr]
    simp [passes_of_absent hg, hg]
  | some a =>
    have hg : l.groups t 10 = some ⟨a.value, l.afterGeneration t⟩ := by simp [Line.groups, hr]
    have hw := (hl.generation a hr).2.2
    have hv : groupValue (l.groups t) 10 = a.value := by simp [groupValue, hg]
    have hb := not_blank_of_loop (fun _ => not_isWhiteSpace_of_decimalDigit) hw
    rw [passes_of_value hv hb, hg]
    refine exists_map_eq_ok.trans ((generation_ok_iff hw).trans ?_)
    simp

theorem passes_networkId : Passes (l.groups t) 12 ↔
    ∀ c ∈ l.groups t 12, decimalValue c.value ≤ 2 ^ 31 - 1 := by
  cases hr : l.networkId with
  | none =>
    have hg : l.groups t 12 = none := by simp [Line.groups, hr]
    simp [passes_of_absent hg, hg]
  | some a =>
    have hg : l.groups t 12 = some ⟨a.value, l.afterNetworkId t⟩ := by simp [Line.groups, hr]
    exact passes_network (hl.networkId a hr) hg fun _ => exists_map_eq_ok

theorem passes_networkCost : Passes (l.groups t) 13 ↔
    ∀ c ∈ l.groups t 13, decimalValue c.value ≤ 2 ^ 31 - 1 := by
  cases hr : l.networkCost with
  | none =>
    have hg : l.groups t 13 = none := by simp [Line.groups, hr]
    simp [passes_of_absent hg, hg]
  | some a =>
    have hg : l.groups t 13 = some ⟨a.value, t⟩ := by simp [Line.groups, hr]
    exact passes_network (hl.networkCost a hr) hg fun _ => exists_map_eq_ok

/-- Group by group, the loop accepts a match exactly when the conversions that can
fail do not. -/
theorem passes_iff_acceptable : (∀ i < 14, Passes (l.groups t) i) ↔ Acceptable (l.groups t) := by
  constructor
  · intro h
    exact ⟨(passes_foundation hl t).mp (h 1 (by decide)),
      (passes_transport hl t).mp (h 3 (by decide)), (passes_port hl t).mp (h 6 (by decide)),
      (passes_type hl t).mp (h 7 (by decide)), (passes_rport hl t).mp (h 9 (by decide)),
      (passes_generation hl t).mp (h 10 (by decide)),
      (passes_networkId hl t).mp (h 12 (by decide)),
      (passes_networkCost hl t).mp (h 13 (by decide))⟩
  · intro h i hi
    match i with
    | 0 | 5 | 8 | 11 => exact Or.inr ⟨_, rfl⟩
    | 1 => exact (passes_foundation hl t).mpr h.foundation
    | 2 => exact passes_componentId hl t
    | 3 => exact (passes_transport hl t).mpr h.transport
    | 4 => exact passes_priority hl t
    | 6 => exact (passes_port hl t).mpr h.port
    | 7 => exact (passes_type hl t).mpr h.type
    | 9 => exact (passes_rport hl t).mpr h.rport
    | 10 => exact (passes_generation hl t).mpr h.generation
    | 12 => exact (passes_networkId hl t).mpr h.networkId
    | 13 => exact (passes_networkCost hl t).mpr h.networkCost
    | i + 14 => omega

end

/-- The parser returns or throws a `DataException`. It returns exactly when the text
contains a match and, on the groups of the leftmost one, the conversions that can fail
succeed; those of the component and the priority and the count of groups never fail. -/
theorem parse_returns_iff (s : Text) :
    ((∃ c, parse s = .ok c) ∨ ∃ m, parse s = .error (.dataException m)) ∧
    ((∃ c, parse s = .ok c) ↔ (∃ w ∈ masterRegex.language, w <:+: s) ∧
      ∃ g, search masterRegex s = some g ∧ Acceptable g) ∧
    (∀ g, search masterRegex s = some g → (∃ n, uintParse (groupValue g 2) = .ok n) ∧
      ∃ n, ulongParse (groupValue g 4) = .ok n) ∧
    groupsCount = 14 := by
  refine ⟨?_, ?_, ?_, groupsCount_eq⟩
  · cases h : parse s with
    | ok c => exact Or.inl ⟨c, rfl⟩
    | error e =>
      obtain ⟨m, rfl⟩ := parse_error h
      exact Or.inr ⟨m, rfl⟩
  · have hconv {g : Groups CodeUnit} (hg : search masterRegex s = some g) :
        (∃ c, convertGroups g = .ok c) ↔ Acceptable g := by
      obtain ⟨l, _, t, hl, _, rfl⟩ := line_of_search hg
      exact convertGroups_ok_iff.trans (passes_iff_acceptable hl t)
    constructor
    · intro ⟨c, h⟩
      obtain ⟨g, hg, hc⟩ := parse_eq_ok_iff.mp h
      exact ⟨search_isSome_iff.mp (by rw [hg]; rfl), g, hg, (hconv hg).mp ⟨c, hc⟩⟩
    · intro ⟨_, g, hg, ha⟩
      obtain ⟨c, hc⟩ := (hconv hg).mpr ha
      exact ⟨c, parse_eq_ok_iff.mpr ⟨g, hg, hc⟩⟩
  · intro g hg
    obtain ⟨l, _, t, hl, _, rfl⟩ := line_of_search hg
    have h2 := (passes_of_value (w := l.componentId.value) rfl
      (not_blank_of_loop digit_not_space hl.componentId.1)).mp (passes_componentId hl t)
    have h4 := (passes_of_value (w := l.priority.value) rfl
      (not_blank_of_loop digit_not_space hl.priority.1)).mp (passes_priority hl t)
    exact ⟨exists_map_eq_ok.mp h2, exists_map_eq_ok.mp h4⟩

end Spitfire.Ice
