import Spitfire.Ice.Candidate

/-! When the addresses of a returned candidate are addresses. The expressions let
through empty texts, runs of hexadecimal digits and four numbers with anything between
them, and the loop leaves the field of an empty text null. -/
namespace Spitfire.Ice
open Regex Pattern

/-- A usable address field. -/
def SoundAddress (o : Option Text) : Prop :=
  ∃ w, o = some w ∧ w ≠ [] ∧ (∀ c ∈ w, isWhiteSpace c = false) ∧ AddressText w

theorem soundAddress_of_text {w : Text} (h : AddressText w) : SoundAddress (some w) :=
  ⟨w, rfl, addressText_ne_nil h, addressText_not_space h, h⟩

/-- The text is not empty; if it has only hexadecimal digits and colons, these are
grouped as in an IPv6 address; and otherwise, wherever it reads as four numbers, the
characters between them are dots, unless it is a host name all the same. -/
def Separated (w : Text) : Prop :=
  w ≠ [] ∧ ((∀ c ∈ w, isHexOrColon c = true) → Ipv6Text w) ∧
    ((∃ c ∈ w, isHexOrColon c = false) → ∀ a x b y c z d,
      Octet a ∧ Octet b ∧ Octet c ∧ Octet d → w = a ++ x :: (b ++ y :: (c ++ z :: d)) →
        (x = unit '.' ∧ y = unit '.' ∧ z = unit '.') ∨ HostName w)

/-- A way to read the leftmost occurrence of the expression's form. -/
def Reads (s : Text) (l : Line) : Prop :=
  l.WellFormed ∧ ∃ p t, s = p ++ l.write t ∧
    ∀ (l' : Line) (p' t' : Text), l'.WellFormed → s = p' ++ l'.write t' → p.length ≤ p'.length

private theorem filter_octet {w : Text} (hw : Octet w) :
    w.filter (fun c => !isAsciiDigit c) = [] := by
  rw [List.filter_eq_nil_iff]
  intro c hc
  simp [hw.1 c hc]

/-- In a dotted quad only the dots are no digits, so nothing else separates. -/
theorem separators_of_dottedQuad {w a b c d : Text} {x y z : CodeUnit} (hw : DottedQuad w)
    (ho : Octet a ∧ Octet b ∧ Octet c ∧ Octet d) (h : w = a ++ x :: (b ++ y :: (c ++ z :: d))) :
    x = unit '.' ∧ y = unit '.' ∧ z = unit '.' := by
  obtain ⟨a', b', c', d', ⟨ha', hb', hc', hd'⟩, hdots⟩ := hw
  have hfilter := congrArg (List.filter fun c => !isAsciiDigit c) (hdots.symm.trans h)
  have hdot : isAsciiDigit (unit '.') = false := by decide
  simp only [List.filter_append, List.filter_cons, filter_octet ha', filter_octet hb',
    filter_octet hc', filter_octet hd', filter_octet ho.1, filter_octet ho.2.1,
    filter_octet ho.2.2.1, filter_octet ho.2.2.2, hdot, List.nil_append, Bool.not_false,
    if_true] at hfilter
  have hall : [unit '.', unit '.', unit '.'] = [x, y, z].filter fun c => !isAsciiDigit c := by
    simpa [List.filter_cons] using hfilter
  have hlen : ([x, y, z].filter fun c => !isAsciiDigit c) = [x, y, z] := by
    apply List.Sublist.eq_of_length List.filter_sublist
    rw [← hall]
    rfl
  rw [hlen] at hall
  simpa [eq_comm] using hall

theorem hexOrColon_dot : isHexOrColon (unit '.') = false := by decide

/-- For a text that an address expression accepts, being an address is a question of
its separators. -/
theorem soundAddress_iff {w : Text} (hw : w ∈ connectAddressRegex.language) :
    SoundAddress (addressField w) ↔ Separated w := by
  constructor
  · intro ⟨v, hv, hne, _, haddr⟩
    have hw : v = w := by
      unfold addressField at hv
      split at hv
      · cases hv
      · exact (Option.some.inj hv).symm
    subst hw
    refine ⟨hne, ?_, ?_⟩
    · intro hhex
      have hdot : unit '.' ∉ v := by
        intro hmem
        have := hhex _ hmem
        rw [hexOrColon_dot] at this
        cases this
      rcases haddr with ⟨a, b, c, d, _, rfl⟩ | h | h
      · exact absurd (by simp) hdot
      · exact h
      · exact absurd (hostName_dot h) hdot
    · intro ⟨e, he, hother⟩ a x b y c z d ho hv
      rcases haddr with h | h | h
      · exact Or.inl (separators_of_dottedQuad h ho hv)
      · have := hexOrColon_of_ipv6Text h e he
        rw [hother] at this
        cases this
      · exact Or.inr h
  · intro ⟨hne, hhex, hquad⟩
    have haddr : AddressText w := by
      by_cases hall : ∀ c ∈ w, isHexOrColon c = true
      · exact Or.inr (Or.inl (hhex hall))
      · have hother : ∃ c ∈ w, isHexOrColon c = false := by simpa using hall
        rcases mem_language_alt.mp hw with hw | hw
        · obtain ⟨a, x, b, y, c, z, d, ho, _, hv⟩ := mem_language_ipv4.mp hw
          rcases hquad hother a x b y c z d ho hv with ⟨rfl, rfl, rfl⟩ | h
          · exact Or.inl ⟨a, b, c, d, ho, hv⟩
          · exact Or.inr (Or.inr h)
        · rcases mem_language_alt.mp hw with hw | hw
          · exact absurd (mem_language_ipv6.mp hw) hall
          · exact Or.inr (Or.inr (hostName_of_domain hw))
    rw [addressField, if_neg hne]
    exact soundAddress_of_text haddr

/-- A related address that can be read at all is read by the matcher. -/
theorem remote_of_reading {l l' : Line} (hl : l.WellFormed) (hl' : l'.WellFormed) {t t' : Text}
    (hg : l.Greedy t) (h : l.write t = l'.write t') {q' : Attribute × Attribute}
    (hq' : l'.remote = some q') : ∃ q, l.remote = some q ∧ q.1 = q'.1 := by
  obtain ⟨_, h⟩ := head_unique hl hl' h
  have hwrite : l'.afterType t' = writeRemote (some q') (l'.afterRemote t') := by
    rw [Line.afterType, hq']
  have hfits := hl'.remote q' hq'
  rcases loop_stage attributeNames tokenChar_not_space hl.type hl'.type hg.type h with h | ⟨_, hs⟩
  · rw [hwrite, Line.afterType] at h
    cases hr : l.remote with
    | none =>
      have hnone := hg.remote
      rw [hr] at hnone h
      exact (hnone q' _ hfits h).elim
    | some q =>
      rw [hr] at h
      exact ⟨q, rfl, (remote_unique (hl.remote q hr) hfits h).1⟩
  · exact (hs "raddr" (by decide) q'.1 _ hfits.1.1 hfits.1.2.1 hwrite).elim

/-- The returned addresses are addresses exactly when, in every way to read the leftmost
occurrence of the expression's form, the address texts are separated as addresses are. -/
theorem addresses_sound_iff {s : Text} {c : IceCandidate} (h : parse s = .ok c) :
    (SoundAddress c.localIp ∧ ∀ g, search masterRegex s = some g → g 8 ≠ none →
      SoundAddress c.remoteIp) ↔
    ∀ l, Reads s l → Separated l.address.value ∧ ∀ q ∈ l.remote, Separated q.1.value := by
  obtain ⟨l, p, t, hl, hg, hlong, hsearch, _, rfl⟩ := parse_eq_ok_line h
  have hreads : Reads s l := by
    refine ⟨hl, p, t, by rw [l.write_append]; exact hlong.split, ?_⟩
    intro l' p' t' hl' hs
    rw [l'.write_append] at hs
    exact hlong.first p' _ t' hs (mem_language_master.mpr ⟨l', hl', rfl⟩)
  have hlocal := soundAddress_iff hl.address.1
  have hremote (q : Attribute × Attribute) (hq : l.remote = some q) :
      SoundAddress l.candidate.remoteIp ↔ Separated q.1.value := by
    rw [← soundAddress_iff (hl.remote q hq).1.2.2]
    simp [Line.candidate, hq]
  constructor
  · intro ⟨hsound, hsound'⟩ l' ⟨hl', p', t', hs', hfirst⟩
    -- The occurrence starts at the same place in both readings.
    have hstart : p.length = p'.length := by
      apply le_antisymm
      · rw [l'.write_append] at hs'
        exact hlong.first p' _ t' hs' (mem_language_master.mpr ⟨l', hl', rfl⟩)
      · exact hfirst l p t hl (by rw [l.write_append]; exact hlong.split)
    have heq : l.write t = l'.write t' := by
      have hboth := hlong.split.symm.trans hs'
      rw [← l.write_append] at hboth
      exact (List.append_inj hboth hstart).2
    obtain ⟨⟨_, _, _, _, _, haddress, _⟩, _⟩ := head_unique hl hl' heq
    refine ⟨?_, ?_⟩
    · rw [← haddress]
      exact hlocal.mp hsound
    · intro q' hq'
      obtain ⟨q, hq, hsame⟩ := remote_of_reading hl hl' hg heq hq'
      rw [← hsame]
      exact (hremote q hq).mp (hsound' _ hsearch (by simp [Line.groups, hq]))
  · intro hall
    obtain ⟨haddress, hrelated⟩ := hall l hreads
    refine ⟨hlocal.mpr haddress, ?_⟩
    intro g hg hne
    obtain rfl : l.groups t = g := Option.some.inj (hsearch.symm.trans hg)
    cases hq : l.remote with
    | none => exact absurd (by simp [Line.groups, hq]) hne
    | some q => exact (hremote q hq).mpr (hrelated q hq)

theorem addresses_sound_srflx :
    ∃ c, parse (text "candidate:1 1 udp 1 :: 5 typ srflx raddr 1.2.3.4 rport 6") = .ok c ∧
      c.localIp = some (text "::") ∧ c.remoteIp = some (text "1.2.3.4") ∧
      ∀ l, Reads (text "candidate:1 1 udp 1 :: 5 typ srflx raddr 1.2.3.4 rport 6") l →
        Separated l.address.value ∧ ∀ q ∈ l.remote, Separated q.1.value := by
  have h : parse (text "candidate:1 1 udp 1 :: 5 typ srflx raddr 1.2.3.4 rport 6") = .ok
      { raw := some (text "candidate:1 1 udp 1 :: 5 typ srflx raddr 1.2.3.4 rport 6")
        foundation := 1, componentId := 1, transport := .udp, priority := 1
        localIp := some (text "::"), localPort := 5, type := .srflx
        remoteIp := some (text "1.2.3.4"), remotePort := 6 } := by decide +kernel
  have hlocal : SoundAddress (some (text "::")) :=
    soundAddress_of_text (Or.inr (Or.inl (Or.inr ⟨[], [], by simp, by decide, by decide⟩)))
  have hremote : SoundAddress (some (text "1.2.3.4")) :=
    soundAddress_of_text (Or.inl ⟨text "1", text "2", text "3", text "4",
      ⟨mem_setLoop_of_all (by decide), mem_setLoop_of_all (by decide),
        mem_setLoop_of_all (by decide), mem_setLoop_of_all (by decide)⟩, by decide⟩)
  exact ⟨_, h, rfl, rfl, (addresses_sound_iff h).mp ⟨hlocal, fun _ _ _ => hremote⟩⟩

/-- Two blanks before the port leave the address null, and four numbers with blanks
between them are returned as one address. -/
theorem address_null_or_blanks :
    (∃ c, parse (text "candidate:1 1 udp 1  99 typ host") = .ok c ∧ c.localIp = none ∧
      ¬ SoundAddress c.localIp) ∧
    ∃ c, parse (text "candidate:1 1 udp 1 1 2 3 4 99 typ host") = .ok c ∧
      c.localIp = some (text "1 2 3 4") ∧ ¬ SoundAddress c.localIp := by
  have hnull : parse (text "candidate:1 1 udp 1  99 typ host") = .ok
      { raw := some (text "candidate:1 1 udp 1  99 typ host")
        foundation := 1, componentId := 1, transport := .udp, priority := 1
        localPort := 99 } := by decide +kernel
  have hblanks : parse (text "candidate:1 1 udp 1 1 2 3 4 99 typ host") = .ok
      { raw := some (text "candidate:1 1 udp 1 1 2 3 4 99 typ host")
        foundation := 1, componentId := 1, transport := .udp, priority := 1
        localIp := some (text "1 2 3 4"), localPort := 99 } := by decide +kernel
  refine ⟨⟨_, hnull, rfl, ?_⟩, ⟨_, hblanks, rfl, ?_⟩⟩
  · intro ⟨w, hw, _⟩
    cases hw
  · intro ⟨w, hw, _, hspace, _⟩
    obtain rfl : text "1 2 3 4" = w := Option.some.inj hw
    exact absurd (hspace (unit ' ') (by decide)) (by decide)

end Spitfire.Ice
