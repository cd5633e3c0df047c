import Spitfire.Ice.Serialization

/-! Whole session descriptions as the parser's input. White space in the expression is a single
character and an address may be empty, so that a match could go on from one line to the next.
With the line ends and the line starts that descriptions have, it never does. -/
namespace Spitfire.Ice
open Regex Pattern

def lineEnd : Text := text "\r\n"

/-- A line is a type of one character, an equals sign and a value. -/
def IsDescriptionLine (line : Text) : Prop := ∃ type value, line = type :: unit '=' :: value

def description (lines : List Text) : Text := lines.flatMap (· ++ lineEnd)

/-- What can come after white space inside a match: a second white space only if the address
between the two is empty, and then the port or the word `rport`. -/
def goesOn : Text → Bool
  | [] => false
  | c :: t => !isWhiteSpace c || t[1]?.any (· ≠ unit '=')

def unbroken : Text → Bool
  | [] => true
  | b :: t => (!isWhiteSpace b || goesOn t) && unbroken t

theorem goesOn_cons {c : CodeUnit} (hc : isWhiteSpace c = false) (t : Text) :
    goesOn (c :: t) = true := by
  simp [goesOn, hc]

theorem goesOn_lineFeed (v : Text) : goesOn (unit '\n' :: v) = v[1]?.any (· ≠ unit '=') := by
  have hspace : isWhiteSpace (unit '\n') = true := by decide
  rw [goesOn, hspace]
  rfl

theorem unbroken_of_append {u v : Text} (h : unbroken (u ++ v) = true) : unbroken v = true := by
  induction u with
  | nil => exact h
  | cons b u ih =>
    rw [List.cons_append, unbroken, Bool.and_eq_true] at h
    exact ih h.2

theorem unbroken_append {u v : Text} (hu : calm u = true) (hv : unbroken v = true) :
    unbroken (u ++ v) = true := by
  induction u with
  | nil => exact hv
  | cons b u ih =>
    rw [calm, Bool.and_eq_true] at hu
    rw [List.cons_append, unbroken, ih hu.2, Bool.and_true]
    cases u with
    | nil =>
      have hb : isWhiteSpace b = false := by simpa using hu.1
      simp [hb]
    | cons d u =>
      by_cases hb : isWhiteSpace b = true
      · have hd : isAsciiDigit d = true := by simpa [hb] using hu.1
        rw [List.cons_append, goesOn_cons (digit_not_space d hd), Bool.or_true]
      · simp [hb]

theorem goesOn_append {u : Text} (hu : goesOn u = true) (v : Text) : goesOn (u ++ v) = true := by
  cases u with
  | nil => cases hu
  | cons c u =>
    rw [goesOn, Bool.or_eq_true] at hu
    rw [List.cons_append, goesOn, Bool.or_eq_true]
    refine hu.imp_right fun h => ?_
    obtain ⟨y, hy, hne⟩ := (Option.any_eq_true _ _).mp h
    obtain ⟨hlt, -⟩ := List.getElem?_eq_some_iff.mp hy
    exact (Option.any_eq_true _ _).mpr ⟨y, (List.getElem?_append_left hlt).trans hy, hne⟩

theorem goesOn_blank {b : CodeUnit} {t : Text} (h : t[1]?.any (· ≠ unit '=') = true) :
    goesOn (b :: t) = true := by
  rw [goesOn, h, Bool.or_true]

theorem unbroken_blank {b : CodeUnit} {t : Text} (hgo : goesOn t = true) (ht : unbroken t = true) :
    unbroken (b :: t) = true := by
  simp [unbroken, hgo, ht]

theorem goesOn_token {p : CodeUnit → Bool} {max : Option Nat} {w : Text}
    (hp : ∀ c, p c = true → isWhiteSpace c = false) (hw : w ∈ (setLoop p 1 max).language)
    (rest : Text) : goesOn (w ++ rest) = true := by
  cases w with
  | nil => exact absurd hw.2.1 (by decide)
  | cons c w => exact goesOn_cons (hp c (hw.1 c (by simp))) _

theorem calm_token {p : CodeUnit → Bool} {max : Option Nat} {w : Text}
    (hp : ∀ c, p c = true → isWhiteSpace c = false) (hw : w ∈ (setLoop p 1 max).language) :
    calm w = true :=
  calm_of_not_space fun c hc => hp c (hw.1 c hc)

/-- An address starts with a character that is no white space, or is empty. -/
theorem goesOn_address {w rest : Text} (hw : w ∈ connectAddressRegex.language)
    (hrest : goesOn rest = true) : goesOn (w ++ rest) = true := by
  rcases mem_language_alt.mp hw with hw | hw
  · obtain ⟨a, x, b, y, c, z, d, ⟨ha, _, _, _⟩, _, rfl⟩ := mem_language_ipv4.mp hw
    rw [List.append_assoc]
    exact goesOn_token digit_not_space ha _
  · cases w with
    | nil => exact hrest
    | cons c w =>
      refine goesOn_cons ?_ _
      rcases mem_language_alt.mp hw with hw | hw
      · exact hexOrColon_not_space (mem_language_ipv6.mp hw c (by simp))
      · exact hostName_not_space (hostName_of_domain hw) c (by simp)

theorem unbroken_attribute {p : CodeUnit → Bool} {max : Option Nat} {name : String} {a : Attribute}
    {rest : Text} (hp : ∀ c, p c = true → isWhiteSpace c = false)
    (hname : (goesOn (text name) && calm (text name)) = true) (ha : a.Fits (.setLoop p 1 max))
    (hrest : unbroken rest = true) : unbroken (a.write name rest) = true := by
  have hvalue : unbroken (a.value ++ rest) = true := unbroken_append (calm_token hp ha.2.2) hrest
  rw [Bool.and_eq_true] at hname
  exact unbroken_blank (goesOn_append hname.1 _)
    (unbroken_append hname.2 (unbroken_blank (goesOn_token hp ha.2.2 _) hvalue))

theorem unbroken_option {p : CodeUnit → Bool} {max : Option Nat} {name : String}
    {o : Option Attribute} {rest : Text} (hp : ∀ c, p c = true → isWhiteSpace c = false)
    (hname : (goesOn (text name) && calm (text name)) = true)
    (ho : ∀ a ∈ o, a.Fits (.setLoop p 1 max)) (hrest : unbroken rest = true) :
    unbroken (writeOption name o rest) = true := by
  cases o with
  | none => exact hrest
  | some a => exact unbroken_attribute hp hname (ho a rfl) hrest

theorem unbroken_remote {o : Option (Attribute × Attribute)} {rest : Text}
    (ho : ∀ q ∈ o, q.1.Fits connectAddressRegex ∧ q.2.Fits portRegex)
    (hrest : unbroken rest = true) : unbroken (writeRemote o rest) = true := by
  cases o with
  | none => exact hrest
  | some q =>
    obtain ⟨haddress, hport⟩ := ho q rfl
    have hrport : unbroken (q.2.write "rport" rest) = true :=
      unbroken_attribute digit_not_space (by decide) hport hrest
    have hgo : goesOn (q.1.value ++ q.2.write "rport" rest) = true :=
      goesOn_address haddress.2.2 (goesOn_blank (by simp [text]; decide))
    refine unbroken_blank (goesOn_cons (by decide) _) ?_
    exact unbroken_append (u := text "raddr") (by decide)
      (unbroken_blank hgo (unbroken_append (address_calm haddress.2.2) hrport))

theorem unbroken_afterType {l : Line} (hl : l.WellFormed) : unbroken (l.afterType []) = true := by
  have hcost : unbroken (l.afterNetworkId []) = true :=
    unbroken_option digit_not_space (by decide) hl.networkCost rfl
  have hid : unbroken (l.afterUfrag []) = true :=
    unbroken_option digit_not_space (by decide) hl.networkId hcost
  have hufrag : unbroken (l.afterGeneration []) = true :=
    unbroken_option iceChar_not_space (by decide) hl.ufrag hid
  exact unbroken_remote hl.remote
    (unbroken_option (fun _ => not_isWhiteSpace_of_decimalDigit) (by decide) hl.generation hufrag)

theorem unbroken_field {p : CodeUnit → Bool} {max : Option Nat} {f : Field} {rest : Text}
    (hp : ∀ c, p c = true → isWhiteSpace c = false) (hf : f.Fits (.setLoop p 1 max))
    (hgo : goesOn rest = true) (hrest : unbroken rest = true) : unbroken (f.write rest) = true :=
  unbroken_append (calm_token hp hf.1) (unbroken_blank hgo hrest)

/-- The port is a digit and then another one or white space. -/
theorem port_goesOn {f : Field} (hf : f.Fits portRegex) (rest : Text) :
    (f.write rest)[1]?.any (· ≠ unit '=') = true := by
  have hspace : isWhiteSpace (unit '=') = false := by decide
  have hdigit : isAsciiDigit (unit '=') = false := by decide
  unfold Field.write
  match hvalue : f.value, hf.1 with
  | [], hw => exact absurd hw.2.1 (by decide)
  | [c], hw =>
    have hne : f.blank ≠ unit '=' := fun h => by simp [← h, hf.2] at hspace
    simpa using hne
  | c :: d :: w, hw =>
    have hne : d ≠ unit '=' := fun h => by simp [← h, hw.1 d (by simp)] at hdigit
    simpa using hne

/-- A match contains no line end with the start of a line after it. -/
theorem unbroken_line {l : Line} (hl : l.WellFormed) : unbroken (l.write []) = true := by
  have htype : unbroken (l.fromType []) = true :=
    unbroken_append (calm_token tokenChar_not_space hl.type) (unbroken_afterType hl)
  have htyp : unbroken (l.fromTyp []) = true :=
    unbroken_append (by decide) (unbroken_blank (goesOn_token tokenChar_not_space hl.type _) htype)
  have hport : unbroken (l.fromPort []) = true :=
    unbroken_field digit_not_space hl.port (goesOn_append (by decide) _) htyp
  have haddress : unbroken (l.fromAddress []) = true :=
    unbroken_append (address_calm hl.address.1)
      (unbroken_blank (goesOn_token digit_not_space hl.port.1 _) hport)
  have hpriority : unbroken (l.fromPriority []) = true :=
    unbroken_field digit_not_space hl.priority
      (goesOn_address hl.address.1 (goesOn_blank (port_goesOn hl.port _))) haddress
  have htransport : unbroken (l.fromTransport []) = true :=
    unbroken_field tokenChar_not_space hl.transport (goesOn_token digit_not_space hl.priority.1 _)
      hpriority
  have hcomponent : unbroken (l.fromComponentId []) = true :=
    unbroken_field digit_not_space hl.componentId
      (goesOn_token tokenChar_not_space hl.transport.1 _) htransport
  have hfoundation : unbroken (l.foundation.write (l.fromComponentId [])) = true :=
    unbroken_field iceChar_not_space hl.foundation
      (goesOn_token digit_not_space hl.componentId.1 _) hcomponent
  refine unbroken_append ?_ (unbroken_append (by decide) hfoundation)
  rcases hl.start with h | h
  · rw [h]
    decide
  · rw [h]
    rfl

theorem description_cons (line : Text) (lines : List Text) :
    description (line :: lines) = line ++ (unit '\r' :: unit '\n' :: description lines) := by
  simp [description, lineEnd, text]

/-- A match neither starts with a line end nor goes beyond one. -/
theorem not_across {lines : List Text} (hlines : ∀ line ∈ lines, IsDescriptionLine line)
    {w u v t : Text} (hw : unbroken w = true) (hsplit : w = u ++ unit '\r' :: v)
    (h : unit '\n' :: description lines = v ++ t) : False := by
  have hspace : isWhiteSpace (unit '\r') = true := by decide
  have hgo : goesOn v = true := by
    rw [hsplit] at hw
    have hrest := unbroken_of_append hw
    rw [unbroken, hspace, Bool.and_eq_true] at hrest
    exact hrest.1
  cases v with
  | nil => cases hgo
  | cons c v =>
    rw [List.cons_append, List.cons.injEq] at h
    obtain ⟨rfl, hrest⟩ := h
    rw [goesOn_lineFeed] at hgo
    obtain ⟨y, hy, hne⟩ := (Option.any_eq_true _ _).mp hgo
    obtain ⟨hlt, -⟩ := List.getElem?_eq_some_iff.mp hy
    have hsecond : (description lines)[1]? = some y := by
      rw [hrest, List.getElem?_append_left hlt, hy]
    cases lines with
    | nil => cases hsecond
    | cons line lines =>
      obtain ⟨type, value, rfl⟩ := hlines line (by simp)
      rw [description_cons] at hsecond
      cases hsecond
      simp at hne

theorem line_starts {w : Text} (hw : w ∈ masterRegex.language) :
    ∃ c v, w = c :: v ∧ c ≠ unit '\r' ∧ c ≠ unit '\n' := by
  obtain ⟨l, hl, rfl⟩ := mem_language_master.mp hw
  rcases hl.start with h | h
  · exact ⟨unit 'a', _, by rw [Line.write, h]; rfl, by decide, by decide⟩
  · exact ⟨unit 'c', _, by rw [Line.write, h]; rfl, by decide, by decide⟩

theorem unbroken_match {w : Text} (hw : w ∈ masterRegex.language) : unbroken w = true := by
  obtain ⟨l, hl, rfl⟩ := mem_language_master.mp hw
  exact unbroken_line hl

/-- Every match in a description lies in one line. -/
theorem match_in_line {lines : List Text} (hlines : ∀ line ∈ lines, IsDescriptionLine line)
    {p w t : Text} (hw : w ∈ masterRegex.language) (h : description lines = p ++ (w ++ t)) :
    ∃ before line after p' t', lines = before ++ line :: after ∧ p = description before ++ p' ∧
      line = p' ++ (w ++ t') := by
  obtain ⟨c, v, rfl, hcr, hlf⟩ := line_starts hw
  induction lines generalizing p with
  | nil => simp [description] at h
  | cons line lines ih =>
    have hrest : ∀ line ∈ lines, IsDescriptionLine line := fun l hl => hlines l (by simp [hl])
    rw [description_cons] at h
    rcases List.append_eq_append_iff.mp h with ⟨a, rfl, ha⟩ | ⟨a, rfl, ha⟩
    · -- The match begins after the line, and with neither character of its end.
      match a with
      | [] => exact absurd (List.cons.inj ha).1.symm hcr
      | [_] => exact absurd (List.cons.inj (List.cons.inj ha).2).1.symm hlf
      | _ :: _ :: a =>
        simp only [List.cons_append, List.cons.injEq] at ha
        obtain ⟨rfl, rfl, ha⟩ := ha
        obtain ⟨before, line', after, p', t', rfl, rfl, hline⟩ := ih hrest ha
        refine ⟨line :: before, line', after, p', t', rfl, ?_, hline⟩
        simp [description_cons]
    · rcases List.append_eq_append_iff.mp ha with ⟨b, hb, ht⟩ | ⟨b, hb, ht⟩
      · exact ⟨[], p ++ a, lines, p, b, rfl, rfl, by rw [hb]⟩
      · cases b with
        | nil => exact ⟨[], p ++ a, lines, p, [], rfl, rfl, by simpa using hb.symm⟩
        | cons d b =>
          rw [List.cons_append, List.cons.injEq] at ht
          obtain ⟨rfl, ht⟩ := ht
          exact (not_across hrest (unbroken_match hw) hb ht).elim

theorem convertGroups_rest (l : Line) (t t' : Text) :
    convertGroups (l.groups t) = convertGroups (l.groups t') := by
  have hvalue (i : Nat) : groupValue (l.groups t) i = groupValue (l.groups t') i := by
    have hcapture : (l.groups t i).map Capture.value = (l.groups t' i).map Capture.value := by
      fun_cases Line.groups l t i <;> simp [Line.groups, Function.comp_def]
    have hgetD (g : Groups CodeUnit) : groupValue g i = ((g i).map Capture.value).getD [] := by
      unfold groupValue
      cases g i <;> rfl
    rw [hgetD, hgetD, hcapture]
  have hgroup : convertGroup (l.groups t) = convertGroup (l.groups t') := by
    funext c i
    rw [convertGroup, convertGroup, hvalue]
  rw [convertGroups, convertGroups, hgroup]

/-- The leftmost and there longest occurrence of the form is what is converted. -/
theorem parse_of_longest {s p t : Text} {l : Line} (hl : l.WellFormed)
    (h : LeftmostLongest masterRegex s p (l.write []) t) : parse s = convertGroups (l.groups []) := by
  have hmatch : (search masterRegex s).isSome = true :=
    search_isSome_iff.mpr ⟨_, h.mem, p, t, by rw [h.split, List.append_assoc]⟩
  obtain ⟨g, hsearch⟩ := Option.isSome_iff_exists.mp hmatch
  obtain ⟨l', p', t', hl', _, rfl, hlong⟩ := reading_of_search hsearch
  obtain ⟨_, hwrite, _⟩ := leftmostLongest_unique h hlong
  obtain ⟨rfl, _⟩ := greedy_unique hl hl' (greedy_alone hl) (greedy_alone hl') hwrite
  rw [parse_of_search hsearch, convertGroups_rest l t' []]

def hasCandidate (line : Text) : Bool := (search masterRegex line).isSome

theorem hasCandidate_iff {line : Text} :
    hasCandidate line = true ↔ ∃ p w t, line = p ++ (w ++ t) ∧ w ∈ masterRegex.language := by
  rw [hasCandidate, search_isSome_iff]
  constructor
  · rintro ⟨w, hw, p, t, rfl⟩
    exact ⟨p, w, t, List.append_assoc p w t, hw⟩
  · rintro ⟨p, w, t, rfl, hw⟩
    exact ⟨w, hw, p, t, List.append_assoc p w t⟩

theorem description_append (before after : List Text) :
    description (before ++ after) = description before ++ description after :=
  List.flatMap_append

theorem occurs_in_description (before after : List Text) {line p w t : Text}
    (h : line = p ++ (w ++ t)) : description (before ++ line :: after) =
      description before ++ p ++ (w ++ (t ++ unit '\r' :: unit '\n' :: description after)) := by
  rw [description_append, description_cons, h]
  simp only [List.append_assoc]

section
variable {before after : List Text} {line p w t t' : Text}
  (h : LeftmostLongest masterRegex (description (before ++ line :: after)) (description before ++ p)
    w t)
include h

/-- What is leftmost and longest in the description is so in its line. -/
theorem longest_in_line (hline : line = p ++ (w ++ t')) :
    LeftmostLongest masterRegex line p w t' := by
  refine ⟨hline, h.mem, fun q v u hsplit hv => ?_, fun v u hsplit hv => ?_⟩
  · have hlength := h.first _ v _ (occurs_in_description before after hsplit) hv
    simp only [List.length_append] at hlength
    omega
  · exact h.longest v _ (occurs_in_description before after hsplit) hv

theorem no_candidate_before {earlier : Text} (he : earlier ∈ before) :
    hasCandidate earlier = false := by
  by_contra hcandidate
  obtain ⟨q, v, u, hsplit, hv⟩ := hasCandidate_iff.mp (by simpa using hcandidate)
  obtain ⟨b, a, rfl⟩ := List.append_of_mem he
  rw [List.append_assoc] at h
  have hlength := h.first _ v _ (occurs_in_description b (a ++ line :: after) hsplit) hv
  simp only [description_append, description_cons, hsplit, List.length_append,
    List.length_cons] at hlength
  omega

end

/-- The parser reads a session description as the first of its lines that has a candidate in
it, and rejects it with that line's message if it rejects the line. Later candidates are never
looked at, and nothing before or after the line has a part in the result. -/
theorem parse_description (lines : List Text) (hlines : ∀ line ∈ lines, IsDescriptionLine line) :
    parse (description lines) = match lines.find? hasCandidate with
      | some line => parse line
      | none => .error (.dataException
          (text "Failed to parse ICE candidate " ++ description lines)) := by
  cases hmatch : search masterRegex (description lines) with
  | none =>
    have hnone : lines.find? hasCandidate = none := by
      refine List.find?_eq_none.mpr fun line hline hcandidate => ?_
      obtain ⟨before, after, rfl⟩ := List.append_of_mem hline
      obtain ⟨p, w, t, hsplit, hw⟩ := hasCandidate_iff.mp hcandidate
      have hsome := hasCandidate_iff.mpr ⟨_, w, _, occurs_in_description before after hsplit, hw⟩
      rw [hasCandidate, hmatch] at hsome
      cases hsome
    rw [hnone, parse, hmatch]
  | some g =>
    obtain ⟨l, p, t, hl, _, rfl, hlong⟩ := reading_of_search hmatch
    obtain ⟨before, line, after, p', t', rfl, rfl, hline⟩ :=
      match_in_line hlines hlong.mem hlong.split
    have hlong' := longest_in_line hlong hline
    have hfirst : (before ++ line :: after).find? hasCandidate = some line := by
      refine List.find?_eq_some_iff_append.mpr ⟨?_, before, after, rfl, fun earlier he => ?_⟩
      · exact hasCandidate_iff.mpr ⟨p', _, t', hline, hlong.mem⟩
      · rw [no_candidate_before hlong he]
        rfl
    rw [hfirst, parse_of_longest hl hlong]
    exact (parse_of_longest hl hlong').symm

/-- The first of two candidates is read, although the second has the higher priority. -/
theorem parse_description_two :
    parse (description [text "v=0", text "a=candidate:1 1 udp 1 :: 5 typ host",
        text "a=candidate:2 1 udp 9 :: 5 typ relay"]) =
      parse (text "a=candidate:1 1 udp 1 :: 5 typ host") := by
  have hparse := parse_description [text "v=0", text "a=candidate:1 1 udp 1 :: 5 typ host",
    text "a=candidate:2 1 udp 9 :: 5 typ relay"] (by simp [IsDescriptionLine, text])
  have hfirst : [text "v=0", text "a=candidate:1 1 udp 1 :: 5 typ host",
      text "a=candidate:2 1 udp 9 :: 5 typ relay"].find? hasCandidate =
      some (text "a=candidate:1 1 udp 1 :: 5 typ host") := by
    decide +kernel
  rw [hfirst] at hparse
  exact hparse

-- Lines that do not start like those of a description can be read as one candidate.
example : [text "candidate:1 1 udp 1", text "5 typ host"].any hasCandidate = false ∧
    (parse (description [text "candidate:1 1 udp 1", text "5 typ host"])).isOk = true := by
  decide +kernel

end Spitfire.Ice
