import Spitfire.Ice.Serialization

/-! What stands around a match. The raw text of a candidate is read as that candidate again,
and a text before it without a mark of its own changes nothing but where the match begins. -/
namespace Spitfire.Ice
open Regex Pattern Buffer

theorem acceptable_restart {l : Line} {t : Text} (ha : Acceptable (l.groups t))
    (start t' : Text) : Acceptable ({ l with start := start }.groups t') := by
  obtain ⟨hfields, hattributes⟩ := acceptable_groups_iff.mp ha
  exact acceptable_groups_iff.mpr ⟨hfields, hattributes⟩

/-- Two marks, the first of them not in `p`, are the same mark. -/
theorem mark_position {p p' start start' r r' : Text} (hp : ¬ text "candidate:" <:+: p)
    (hstart : start = text "a=" ∨ start = []) (hstart' : start' = text "a=" ∨ start' = [])
    (hle : p'.length ≤ p.length)
    (h : p ++ (start ++ (text "candidate:" ++ r)) = p' ++ (start' ++ (text "candidate:" ++ r'))) :
    p ++ start = p' ++ start' := by
  have hmark : text "candidate:" = unit 'c' :: text "andidate:" := by decide
  have hc : unit 'c' ∉ text "andidate:" := by decide
  rw [← List.append_assoc, ← List.append_assoc p'] at h
  rcases List.append_eq_append_iff.mp h with ⟨z, hz, h⟩ | ⟨z, hz, h⟩
  · -- The second mark is not before the first, and `p'` is too short for it to be after it.
    rw [hmark] at h
    rcases occurrences_apart hc h.symm with rfl | hpre
    · simpa using hz.symm
    · have hlen := congrArg List.length hz
      have hzlen := hpre.length_le
      rcases hstart' with rfl | rfl <;> simp [text] at hlen hzlen <;> omega
  · rw [hmark] at h
    rcases occurrences_apart hc h.symm with rfl | hpre
    · simpa using hz
    · -- A mark before the first one would lie in `p`.
      have hinfix : text "candidate" ++ [unit ':'] <:+: p ++ start := by
        rw [hz]
        exact hpre.isInfix.trans (List.suffix_append _ _).isInfix
      have hnot : unit ':' ∉ start := by
        rcases hstart with rfl | rfl <;> decide
      exact absurd (infix_of_append hnot hinfix) hp

/-- No match begins before a line that such a text stands before. -/
theorem no_earlier_match {l : Line} (hl : l.WellFormed) {p t : Text}
    (hp : ¬ text "candidate:" <:+: p) (hstart : l.start = [] → ¬ text "a=" <:+ p)
    (p' w' t' : Text) (h : p ++ l.write t = p' ++ (w' ++ t'))
    (hw' : w' ∈ masterRegex.language) : p.length ≤ p'.length := by
  by_contra hlt
  obtain ⟨l', hl', rfl⟩ := mem_language_master.mp hw'
  rw [← l'.write_append t'] at h
  have hmark := mark_position hp hl.start hl'.start (by omega) h
  -- Only an `a=` that the line itself does not start with could move the start.
  rcases hl.start with hs | hs <;> rcases hl'.start with hs' | hs' <;> rw [hs, hs'] at hmark
  · have := congrArg List.length hmark
    simp [text] at this
    omega
  · have := congrArg List.length hmark
    simp [text] at this
    omega
  · rw [List.append_nil] at hmark
    exact hstart hs ⟨p', hmark.symm⟩
  · rw [List.append_nil, List.append_nil] at hmark
    rw [hmark] at hlt
    exact hlt (le_refl _)

theorem parse_after {l : Line} (hl : l.WellFormed) (ha : Acceptable (l.groups [])) {p : Text}
    (hp : ¬ text "candidate:" <:+: p) (hstart : l.start = [] → ¬ text "a=" <:+ p) :
    parse (p ++ l.write []) = .ok l.candidate := by
  rw [parse_of_reading hl (greedy_alone hl) rfl (no_earlier_match hl hp hstart)]
  exact convertGroups_line hl [] ha

/-- The raw text of a candidate is read as the candidate itself. After a text without the
mark it is read as the same candidate, and the raw text may begin with the `a=` that the
text ends with. -/
theorem parse_raw {s : Text} {c : IceCandidate} (h : parse s = .ok c) :
    ∃ raw, c.raw = some raw ∧ parse raw = .ok c ∧
      ∀ p, ¬ text "candidate:" <:+: p →
        ∃ raw', parse (p ++ raw) = .ok { c with raw := some raw' } ∧
          (raw' = raw ∨ text "a=" <:+ p ∧ raw' = text "a=" ++ raw) := by
  obtain ⟨l, _, t, hl, _, _, _, ha, rfl⟩ := parse_eq_ok_line h
  refine ⟨l.write [], rfl, parse_alone hl (acceptable_restart ha l.start []), ?_⟩
  intro p hp
  by_cases hstart : l.start = [] ∧ text "a=" <:+ p
  · obtain ⟨hs, q, rfl⟩ := hstart
    let l' : Line := { l with start := text "a=" }
    have hl' : l'.WellFormed := { hl with start := Or.inl rfl }
    have hwrite : l'.write [] = text "a=" ++ l.write [] := by
      rw [Line.write, Line.write, hs]
      rfl
    have hq : ¬ text "candidate:" <:+: q :=
      fun hin => hp (hin.trans (List.prefix_append _ _).isInfix)
    have hparse := parse_after hl' (acceptable_restart ha _ []) hq (fun hnil => by cases hnil)
    rw [hwrite, ← List.append_assoc] at hparse
    refine ⟨text "a=" ++ l.write [], hparse.trans ?_, Or.inr ⟨⟨q, rfl⟩, rfl⟩⟩
    rw [← hwrite]
    rfl
  · have hs : l.start = [] → ¬ text "a=" <:+ p := fun hnil hsuf => hstart ⟨hnil, hsuf⟩
    exact ⟨l.write [], parse_after hl (acceptable_restart ha l.start []) hp hs, Or.inl rfl⟩

/-- A candidate inside a description, cut out and put after the start of an attribute. -/
theorem parse_raw_of_description :
    ∃ c raw, parse (text "v=0 candidate:1 1 udp 1 :: 5 typ host\r\n") = .ok c ∧
      c.raw = some raw ∧ parse raw = .ok c ∧
      ∃ raw', parse (text "m=0 a=" ++ raw) = .ok { c with raw := some raw' } := by
  have hparse : parse (text "v=0 candidate:1 1 udp 1 :: 5 typ host\r\n") =
      .ok { raw := some (text "candidate:1 1 udp 1 :: 5 typ host"), foundation := 1
            componentId := 1, transport := .udp, priority := 1, localIp := some (text "::")
            localPort := 5 } := by
    decide +kernel
  obtain ⟨raw, hraw, hagain, hafter⟩ := parse_raw hparse
  obtain ⟨raw', hraw', _⟩ := hafter (text "m=0 a=") (by decide)
  exact ⟨_, raw, hparse, hraw, hagain, raw', hraw'⟩

end Spitfire.Ice
