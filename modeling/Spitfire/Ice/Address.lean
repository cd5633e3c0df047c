import Mathlib.Data.List.Flatten
import Spitfire.Ice.Parser
import Spitfire.Regex.Language

/-! The three written forms of an address, and what the three address expressions
accept. The dots of the first expression match any character and the second one
accepts the empty text, so the expressions accept more than the forms. -/
namespace Spitfire.Ice
open Regex Pattern

/-- One to three digits. -/
def Octet (w : Text) : Prop := w ∈ (setLoop isAsciiDigit 1 (some 3)).language

def DottedQuad (w : Text) : Prop :=
  ∃ a b c d, (Octet a ∧ Octet b ∧ Octet c ∧ Octet d) ∧
    w = a ++ unit '.' :: (b ++ unit '.' :: (c ++ unit '.' :: d))

/-- One to four hexadecimal digits. -/
def Hextet (w : Text) : Prop := w ∈ (setLoop isHexDigit 1 (some 4)).language

def colons (gs : List Text) : Text := [unit ':'].intercalate gs

/-- Eight groups, or fewer with one double colon in place of at least one of them. -/
def Ipv6Text (w : Text) : Prop :=
  (∃ gs, (∀ g ∈ gs, Hextet g) ∧ gs.length = 8 ∧ w = colons gs) ∨
    ∃ gs hs, (∀ g ∈ gs ++ hs, Hextet g) ∧ gs.length + hs.length ≤ 7 ∧
      w = colons gs ++ (text "::" ++ colons hs)

def isLetterOrDigit (c : CodeUnit) : Bool := isDomainChar c || within 'A' 'Z' c

/-- A label of a host name: letters, digits and inner hyphens. -/
def HostLabel (w : Text) : Prop :=
  (∀ c ∈ w, isLetterOrDigit c = true ∨ c = unit '-') ∧ w.length ≤ 63 ∧
    (∃ c ∈ w.head?, isLetterOrDigit c = true) ∧ ∃ c ∈ w.getLast?, isLetterOrDigit c = true

/-- At least two labels with dots between them. -/
def HostName (w : Text) : Prop :=
  ∃ l m ls, (∀ x ∈ l :: m :: ls, HostLabel x) ∧ w = [unit '.'].intercalate (l :: m :: ls)

def AddressText (w : Text) : Prop := DottedQuad w ∨ Ipv6Text w ∨ HostName w

def isHexOrColon (c : CodeUnit) : Bool := isHexDigit c || c = unit ':'

theorem mem_language_ipv4 {w : Text} : w ∈ ipv4AddressRegex.language ↔
    ∃ a x b y c z d, (Octet a ∧ Octet b ∧ Octet c ∧ Octet d) ∧
      (isAnyChar x = true ∧ isAnyChar y = true ∧ isAnyChar z = true) ∧
      w = a ++ x :: (b ++ y :: (c ++ z :: d)) := by
  unfold ipv4AddressRegex Octet
  simp only [mem_language_seqs_cons, mem_language_seqs_nil, mem_language_set]
  constructor
  · rintro ⟨a, ha, _, ⟨_, ⟨x, hx, rfl⟩, _, ⟨b, hb, _, ⟨_, ⟨y, hy, rfl⟩, _, ⟨c, hc, _,
      ⟨_, ⟨z, hz, rfl⟩, _, ⟨d, hd, _, rfl, rfl⟩, rfl⟩, rfl⟩, rfl⟩, rfl⟩, rfl⟩, rfl⟩
    exact ⟨a, x, b, y, c, z, d, ⟨ha, hb, hc, hd⟩, ⟨hx, hy, hz⟩, by simp⟩
  · rintro ⟨a, x, b, y, c, z, d, ⟨ha, hb, hc, hd⟩, ⟨hx, hy, hz⟩, rfl⟩
    exact ⟨a, ha, _, ⟨_, ⟨x, hx, rfl⟩, _, ⟨b, hb, _, ⟨_, ⟨y, hy, rfl⟩, _, ⟨c, hc, _,
      ⟨_, ⟨z, hz, rfl⟩, _, ⟨d, hd, _, rfl, rfl⟩, rfl⟩, rfl⟩, rfl⟩, rfl⟩, rfl⟩, by simp⟩

/-- One pass of the loop takes a single hexadecimal digit or a single colon, so the
second expression accepts every text of these characters. -/
theorem mem_language_ipv6 {w : Text} :
    w ∈ ipv6AdresssRegex.language ↔ ∀ c ∈ w, isHexOrColon c = true := by
  have hcolon : ∀ u ∈ (opt (set (· = unit ':'))).language, ∀ c ∈ u, isHexOrColon c = true := by
    intro u hu c hc
    rcases mem_language_opt.mp hu with ⟨a, ha, rfl⟩ | rfl
    · obtain rfl := List.mem_singleton.mp hc
      simp [isHexOrColon, of_decide_eq_true ha]
    · cases hc
  have hbody : ∀ u ∈ (seq (setLoop isHexDigit 0 (some 4)) (opt (set (· = unit ':')))).language,
      ∀ c ∈ u, isHexOrColon c = true := by
    intro u hu c hc
    obtain ⟨x, hx, y, hy, rfl⟩ := mem_language_seq.mp hu
    rcases List.mem_append.mp hc with hc | hc
    · simp [isHexOrColon, hx.1 c hc]
    · exact hcolon y hy c hc
  unfold ipv6AdresssRegex
  rw [mem_language_seqs_cons]
  constructor
  · rintro ⟨u, hu, v, ⟨v, hv, _, rfl, rfl⟩, rfl⟩ c hc
    obtain ⟨p, ps, hps, rfl⟩ := mem_language_plus.mp hv
    rcases List.mem_append.mp hc with hc | hc
    · exact hcolon u hu c hc
    · rw [show c ∈ (p :: ps).flatten ++ [] ↔ c ∈ (p :: ps).flatten by simp] at hc
      obtain ⟨x, hx, hc⟩ := List.mem_flatten.mp hc
      exact hbody x (hps x hx) c hc
  · intro hw
    have hsplit : w = ([] :: w.map ([·])).flatten := by
      rw [List.flatten_cons, ← List.flatMap_def, List.flatMap_singleton', List.nil_append]
    refine ⟨[], Or.inr rfl, w, mem_language_seqs_cons.mpr
      ⟨w, mem_language_plus.mpr ⟨[], w.map ([·]), ?_, hsplit⟩, [], rfl, List.append_nil w⟩, rfl⟩
    intro v hv
    rcases List.mem_cons.mp hv with rfl | hv
    · exact mem_language_seq.mpr ⟨[], by simp, [], Or.inr rfl, rfl⟩
    · obtain ⟨c, hc, rfl⟩ := List.mem_map.mp hv
      have h : isHexDigit c = true ∨ c = unit ':' := by simpa [isHexOrColon] using hw c hc
      rcases h with h | h
      · exact mem_language_seq.mpr ⟨[c], by simp [h], [], Or.inr rfl, rfl⟩
      · exact mem_language_seq.mpr
          ⟨[], by simp, [c], mem_language_opt.mpr (Or.inl ⟨c, by simpa using h, rfl⟩), rfl⟩

/-- The shape of the labels that the third expression accepts. -/
private theorem hostLabel_of_parts {a c : CodeUnit} {m : Text} (ha : isDomainChar a = true)
    (hm : ∀ x ∈ m, isDomainInner x = true) (hlen : m.length ≤ 61) (hc : isDomainChar c = true) :
    HostLabel (a :: (m ++ [c])) := by
  have hup {x : CodeUnit} (hx : isDomainChar x = true) : isLetterOrDigit x = true := by
    simp [isLetterOrDigit, hx]
  have hend : (a :: (m ++ [c])).getLast? = some c := by
    rw [← List.cons_append, List.getLast?_concat]
  refine ⟨?_, by simp; omega, ⟨a, rfl, hup ha⟩, ⟨c, hend, hup hc⟩⟩
  intro x hx
  rcases List.mem_cons.mp hx with rfl | hx
  · exact Or.inl (hup ha)
  · rcases List.mem_append.mp hx with hx | hx
    · have hin : isDomainChar x = true ∨ x = unit '-' := by simpa [isDomainInner] using hm x hx
      exact hin.imp_left hup
    · obtain rfl := List.mem_singleton.mp hx
      exact Or.inl (hup hc)

private theorem hostLabel_singleton {a : CodeUnit} (ha : isDomainChar a = true) :
    HostLabel [a] := by
  have hup : isLetterOrDigit a = true := by simp [isLetterOrDigit, ha]
  exact ⟨by simp [hup], by simp, ⟨a, rfl, hup⟩, ⟨a, rfl, hup⟩⟩

/-- Dotted labels before a last label are labels with dots between them. -/
private theorem intercalate_dots (ls : List Text) (last : Text) :
    [unit '.'].intercalate (ls ++ [last]) = (ls.map (· ++ [unit '.'])).flatten ++ last := by
  induction ls with
  | nil => simp
  | cons l ls ih =>
    rw [List.cons_append, List.intercalate_cons_of_ne_nil (by simp), ih]
    simp

theorem hostName_of_domain {w : Text} (hw : w ∈ domainRegex.language) : HostName w := by
  unfold domainRegex at hw
  simp only [mem_language_seqs_cons, mem_language_seqs_nil, mem_language_set] at hw
  obtain ⟨_, hps, _, ⟨_, ⟨a, ha, rfl⟩, _, ⟨m, hm, _, ⟨_, ⟨c, hc, rfl⟩, _, rfl, rfl⟩, rfl⟩, rfl⟩,
    rfl⟩ := hw
  obtain ⟨p, ps, hall, rfl⟩ := mem_language_plus.mp hps
  have hlast := hostLabel_of_parts ha hm.1 (hm.2.2 61 rfl) hc
  have hlabel : ∀ v ∈ p :: ps, ∃ x, HostLabel x ∧ v = x ++ [unit '.'] := by
    intro v hv
    have hv := hall v hv
    simp only [mem_language_seqs_cons, mem_language_seqs_nil, mem_language_set] at hv
    obtain ⟨_, ⟨a, ha, rfl⟩, _, ⟨u, hu, _, ⟨_, ⟨d, hd, rfl⟩, _, rfl, rfl⟩, rfl⟩, rfl⟩ := hv
    obtain rfl : d = unit '.' := by simpa using hd
    rcases mem_language_opt.mp hu with hu | rfl
    · obtain ⟨m, hm, _, ⟨c, hc, rfl⟩, rfl⟩ := mem_language_seq.mp hu
      exact ⟨_, hostLabel_of_parts ha hm.1 (hm.2.2 61 rfl) hc, by simp⟩
    · exact ⟨[a], hostLabel_singleton ha, by simp⟩
  have hcut : (p :: ps).map (fun v => v.dropLast ++ [unit '.']) = p :: ps := by
    conv_rhs => rw [← List.map_id (p :: ps)]
    apply List.map_congr_left
    intro v hv
    obtain ⟨x, _, rfl⟩ := hlabel v hv
    simp
  have hhost : ∀ x ∈ (p :: ps).map List.dropLast, HostLabel x := by
    intro x hx
    obtain ⟨v, hv, rfl⟩ := List.mem_map.mp hx
    obtain ⟨y, hy, rfl⟩ := hlabel v hv
    simpa using hy
  have hw := intercalate_dots ((p :: ps).map List.dropLast) (a :: (m ++ [c]))
  rw [List.map_map, Function.comp_def, hcut] at hw
  cases ps with
  | nil =>
    refine ⟨p.dropLast, a :: (m ++ [c]), [], ?_, by simpa using hw.symm⟩
    simpa using ⟨hhost _ (by simp), hlast⟩
  | cons q qs =>
    refine ⟨p.dropLast, q.dropLast, qs.map List.dropLast ++ [a :: (m ++ [c])], ?_,
      by simpa using hw.symm⟩
    intro x hx
    have hx : x ∈ (p :: q :: qs).map List.dropLast ∨ x = a :: (m ++ [c]) := by
      simpa [or_assoc] using hx
    rcases hx with hx | rfl
    · exact hhost x hx
    · exact hlast

theorem hexOrColon_ascii {c : CodeUnit} (h : isHexOrColon c = true) :
    48 ≤ c.toNat ∧ c.toNat ≤ 102 := by
  have hcolon : (unit ':').toNat = 58 := by decide
  simp only [isHexOrColon, isHexDigit, within, Bool.or_eq_true, Bool.and_eq_true,
    decide_eq_true_eq] at h
  rcases h with ((h | h) | h) | rfl
  · simp at h; omega
  · simp at h; omega
  · simp at h; omega
  · omega

theorem hexOrColon_not_space {c : CodeUnit} (h : isHexOrColon c = true) :
    isWhiteSpace c = false :=
  not_isWhiteSpace_of_ascii (by have := hexOrColon_ascii h; omega)

theorem hostChar_not_space {c : CodeUnit} (h : isLetterOrDigit c = true ∨ c = unit '-') :
    isWhiteSpace c = false := by
  apply not_isWhiteSpace_of_ascii
  rcases h with h | rfl
  · simp only [isLetterOrDigit, isDomainChar, within, Bool.or_eq_true, Bool.and_eq_true,
      decide_eq_true_eq] at h
    rcases h with (h | h) | h
    · simp at h; omega
    · simp at h; omega
    · simp at h; omega
  · decide

/-- Every character of a text with separators is in a piece or is the separator. -/
theorem mem_intercalate {c sep : CodeUnit} {ls : List Text} (h : c ∈ [sep].intercalate ls) :
    c = sep ∨ ∃ l ∈ ls, c ∈ l := by
  induction ls with
  | nil => simp at h
  | cons l ls ih =>
    cases ls with
    | nil => exact Or.inr ⟨l, by simp, by simpa using h⟩
    | cons m ls =>
      rw [List.intercalate_cons_of_ne_nil (by simp)] at h
      rcases List.mem_append.mp h with h | h
      · rcases List.mem_append.mp h with h | h
        · exact Or.inr ⟨l, by simp, h⟩
        · exact Or.inl (List.mem_singleton.mp h)
      · rcases ih h with h | ⟨x, hx, hc⟩
        · exact Or.inl h
        · exact Or.inr ⟨x, List.mem_cons_of_mem l hx, hc⟩

theorem hostName_not_space {w : Text} (h : HostName w) : ∀ c ∈ w, isWhiteSpace c = false := by
  obtain ⟨l, m, ls, hall, rfl⟩ := h
  intro c hc
  rcases mem_intercalate hc with rfl | ⟨x, hx, hc⟩
  · decide
  · exact hostChar_not_space ((hall x hx).1 c hc)

theorem hostName_dot {w : Text} (h : HostName w) : unit '.' ∈ w := by
  obtain ⟨l, m, ls, _, rfl⟩ := h
  rw [List.intercalate_cons_of_ne_nil (by simp)]
  simp

theorem dottedQuad_not_space {w : Text} (h : DottedQuad w) : ∀ c ∈ w, isWhiteSpace c = false := by
  obtain ⟨a, b, c, d, ⟨ha, hb, hc, hd⟩, rfl⟩ := h
  have hdigit {v : Text} (hv : Octet v) : ∀ x ∈ v, isWhiteSpace x = false :=
    fun x hx => not_isWhiteSpace_of_decimalDigit (isDecimalDigit_of_ascii (hv.1 x hx))
  have hdot : isWhiteSpace (unit '.') = false := by decide
  intro x hx
  simp only [List.mem_append, List.mem_cons] at hx
  rcases hx with hx | rfl | hx | rfl | hx | rfl | hx
  · exact hdigit ha x hx
  · exact hdot
  · exact hdigit hb x hx
  · exact hdot
  · exact hdigit hc x hx
  · exact hdot
  · exact hdigit hd x hx

theorem hexOrColon_of_ipv6Text {w : Text} (h : Ipv6Text w) : ∀ c ∈ w, isHexOrColon c = true := by
  have hgroups {gs : List Text} (hg : ∀ g ∈ gs, Hextet g) :
      ∀ c ∈ colons gs, isHexOrColon c = true := by
    intro c hc
    rcases mem_intercalate hc with rfl | ⟨g, hg', hc⟩
    · decide
    · simp [isHexOrColon, (hg g hg').1 c hc]
  rcases h with ⟨gs, hg, _, rfl⟩ | ⟨gs, hs, hall, _, rfl⟩
  · exact hgroups hg
  · intro c hc
    rcases List.mem_append.mp hc with hc | hc
    · exact hgroups (fun g hg => hall g (by simp [hg])) c hc
    · rcases List.mem_append.mp hc with hc | hc
      · have hcolons : (text "::").all isHexOrColon = true := by decide
        exact List.all_eq_true.mp hcolons c hc
      · exact hgroups (fun g hg => hall g (by simp [hg])) c hc

theorem addressText_not_space {w : Text} (h : AddressText w) :
    ∀ c ∈ w, isWhiteSpace c = false := by
  rcases h with h | h | h
  · exact dottedQuad_not_space h
  · exact fun c hc => hexOrColon_not_space (hexOrColon_of_ipv6Text h c hc)
  · exact hostName_not_space h

theorem addressText_ne_nil {w : Text} (h : AddressText w) : w ≠ [] := by
  rcases h with ⟨a, b, c, d, _, rfl⟩ | h | h
  · simp
  · rcases h with ⟨gs, hg, hlen, rfl⟩ | ⟨gs, hs, _, _, rfl⟩
    · match gs with
      | a :: b :: gs =>
        unfold colons
        rw [List.intercalate_cons_of_ne_nil (by simp)]
        simp
    · simp [text]
  · exact List.ne_nil_of_mem (hostName_dot h)

/-- White space is followed by a digit. -/
def calm : Text → Bool
  | [] => true
  | b :: t => (!isWhiteSpace b || t.head?.any isAsciiDigit) && calm t

theorem calm_append {u : Text} (h : calm u = true) (v : Text) : calm (u ++ v) = calm v := by
  induction u with
  | nil => rfl
  | cons b u ih =>
    simp only [calm, Bool.and_eq_true] at h
    have hstart : (!isWhiteSpace b || (u ++ v).head?.any isAsciiDigit) = true := by
      cases u with
      | nil =>
        have hb : isWhiteSpace b = false := by simpa using h.1
        simp [hb]
      | cons d u => simpa using h.1
    rw [List.cons_append, calm, hstart, ih h.2, Bool.true_and]

theorem calm_of_not_space {w : Text} (h : ∀ c ∈ w, isWhiteSpace c = false) : calm w = true := by
  induction w with
  | nil => rfl
  | cons b w ih =>
    rw [calm, h b (by simp), ih fun c hc => h c (by simp [hc])]
    rfl

/-- Any character may stand before digits. -/
theorem calm_digits {max : Option Nat} {d : Text}
    (hd : d ∈ (setLoop isAsciiDigit 1 max).language) (x : CodeUnit) : calm (x :: d) = true := by
  have hfree : calm d = true :=
    calm_of_not_space fun c hc =>
      not_isWhiteSpace_of_decimalDigit (isDecimalDigit_of_ascii (hd.1 c hc))
  cases d with
  | nil => exact absurd hd.2.1 (by decide)
  | cons c d =>
    have hc := hd.1 c (by simp)
    rw [calm, hfree]
    simp [hc]

theorem address_calm {w : Text} (hw : w ∈ connectAddressRegex.language) : calm w = true := by
  rcases mem_language_alt.mp hw with hw | hw
  · obtain ⟨a, x, b, y, c, z, d, ⟨ha, hb, hc, hd⟩, _, rfl⟩ := mem_language_ipv4.mp hw
    have hfirst : calm a = true := by
      have := calm_digits ha (unit '.')
      rw [calm, Bool.and_eq_true] at this
      exact this.2
    rw [calm_append hfirst, ← List.cons_append, calm_append (calm_digits hb x),
      ← List.cons_append, calm_append (calm_digits hc y)]
    exact calm_digits hd z
  · apply calm_of_not_space
    rcases mem_language_alt.mp hw with hw | hw
    · exact fun c hc => hexOrColon_not_space (mem_language_ipv6.mp hw c hc)
    · exact hostName_not_space (hostName_of_domain hw)

/-- An address is blank only when it is empty. -/
theorem address_blank_iff {w : Text} (hw : w ∈ connectAddressRegex.language) :
    isNullOrWhiteSpace w = true ↔ w = [] := by
  have hcalm := address_calm hw
  constructor
  · intro hb
    cases w with
    | nil => rfl
    | cons b t =>
      have hall : isWhiteSpace b = true ∧ ∀ c ∈ t, isWhiteSpace c = true := by
        simpa [isNullOrWhiteSpace] using hb
      cases t with
      | nil => simp [calm, hall.1] at hcalm
      | cons d t =>
        have hd : isAsciiDigit d = true := by
          rw [calm, hall.1] at hcalm
          simp only [Bool.not_true, Bool.false_or, Bool.and_eq_true] at hcalm
          simpa using hcalm.1
        have := not_isWhiteSpace_of_decimalDigit (isDecimalDigit_of_ascii hd)
        rw [hall.2 d (by simp)] at this
        cases this
  · intro h
    rw [h]
    rfl

end Spitfire.Ice
