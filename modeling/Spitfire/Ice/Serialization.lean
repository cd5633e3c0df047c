import Spitfire.Ice.TokenBoundaries

/-! Candidate lines as they are written by the other side, and that the parser inverts
the writing. A line that stands alone has only one reading, and it is the greedy one. -/
namespace Spitfire.Ice
open Regex Pattern

def decimal (n : Nat) : Text := (Nat.toDigits 10 n).map unit

/-- The forms in which an address is written. -/
def Written (w : Text) : Prop := DottedQuad w ∨ Ipv6Text w ∨ w ∈ domainRegex.language

/-- What a candidate line tells, within the bounds of its fields. -/
structure CandidateRecord where
  foundation : Nat
  foundation_lt : foundation < 2 ^ 64
  componentId : Nat
  componentId_lt : componentId < 10 ^ 5
  transport : IceTransport
  priority : Nat
  priority_lt : priority < 2 ^ 32
  address : Text
  address_written : Written address
  port : Nat
  port_lt : port < 65536
  type : IceType
  related : Option (Text × Nat)
  related_written : ∀ q ∈ related, Written q.1 ∧ q.2 < 65536
  generation : Nat
  generation_lt : generation < 2 ^ 32
  ufrag : Option Text
  ufrag_chars : ∀ w ∈ ufrag, w ≠ [] ∧ ∀ c ∈ w, isIceChar c = true
  networkId : Option Nat
  networkId_lt : ∀ n ∈ networkId, n < 65536
  networkCost : Option Nat
  networkCost_lt : ∀ n ∈ networkCost, n < 65536

def transportName : IceTransport → Text
  | .udp => text "udp"
  | .tcp => text "tcp"

def typeName : IceType → Text
  | .host => text "host"
  | .srflx => text "srflx"
  | .prflx => text "prflx"
  | .relay => text "relay"

namespace CandidateRecord

def serialise (r : CandidateRecord) : Text :=
  text "candidate:" ++ decimal r.foundation ++ text " " ++ decimal r.componentId ++ text " " ++
    transportName r.transport ++ text " " ++ decimal r.priority ++ text " " ++ r.address ++
    text " " ++ decimal r.port ++ text " typ " ++ typeName r.type ++
    (match r.related with
      | some q => text " raddr " ++ q.1 ++ text " rport " ++ decimal q.2
      | none => []) ++
    text " generation " ++ decimal r.generation ++
    (match r.ufrag with
      | some w => text " ufrag " ++ w
      | none => []) ++
    (match r.networkId with
      | some n => text " network-id " ++ decimal n
      | none => []) ++
    (match r.networkCost with
      | some n => text " network-cost " ++ decimal n
      | none => [])

/-- The candidate with these field values; what is absent keeps the value of a new
candidate. -/
def candidate (r : CandidateRecord) (raw : Text) : IceCandidate where
  raw := some raw
  foundation := r.foundation
  componentId := r.componentId
  transport := r.transport
  priority := r.priority
  localIp := some r.address
  localPort := r.port
  type := r.type
  remoteIp := (r.related.map Prod.fst).or ({} : IceCandidate).remoteIp
  remotePort := (r.related.map Prod.snd).getD ({} : IceCandidate).remotePort
  generation := r.generation
  uFrag := r.ufrag.or ({} : IceCandidate).uFrag
  networkCost := (r.networkCost.map Int.ofNat).getD ({} : IceCandidate).networkCost
  networkId := (r.networkId.map Int.ofNat).getD ({} : IceCandidate).networkId

end CandidateRecord

private theorem unit_digit {c : Char} (hc : c.isDigit = true) :
    (unit c).toNat = c.toNat ∧ 48 ≤ c.toNat ∧ c.toNat ≤ 57 := by
  simp only [Char.isDigit, Bool.and_eq_true, decide_eq_true_eq, ge_iff_le, UInt32.le_iff_toNat_le]
    at hc
  have hlo : 48 ≤ c.toNat := hc.1
  have hhi : c.toNat ≤ 57 := hc.2
  refine ⟨?_, hlo, hhi⟩
  simp only [unit, Nat.toUInt16_eq, UInt16.toNat_ofNat']
  omega

theorem decimal_digits {n : Nat} : ∀ c ∈ decimal n, isAsciiDigit c = true := by
  intro c hc
  obtain ⟨d, hd, rfl⟩ := List.mem_map.mp hc
  obtain ⟨heq, hlo, hhi⟩ := unit_digit (Nat.isDigit_of_mem_toDigits (by decide) (by decide) hd)
  rw [isAsciiDigit_iff, heq]
  exact ⟨hlo, hhi⟩

theorem decimal_length_pos (n : Nat) : 1 ≤ (decimal n).length := by
  rw [decimal, List.length_map]
  exact List.length_pos_iff.mpr Nat.toDigits_ne_nil

theorem decimal_mem {n k : Nat} (hk : 0 < k) (h : n < 10 ^ k) :
    decimal n ∈ (setLoop isAsciiDigit 1 (some k)).language := by
  refine ⟨decimal_digits, decimal_length_pos n, ?_⟩
  intro m hm
  obtain rfl : k = m := Option.some.inj hm
  rw [decimal, List.length_map]
  exact (Nat.length_toDigits_le_iff (by decide) hk).mpr h

theorem decimalValue_decimal (n : Nat) : decimalValue (decimal n) = n := by
  have hfold : ∀ ds : List Char, (∀ c ∈ ds, c.isDigit = true) → ∀ m,
      (ds.map unit).foldl (fun n d => 10 * n + (d.toNat - 48)) m = Nat.ofDigitChars 10 ds m := by
    intro ds
    induction ds with
    | nil => exact fun _ _ => rfl
    | cons c ds ih =>
      intro hds m
      rw [List.map_cons, List.foldl_cons, ih (fun x hx => hds x (by simp [hx])),
        (unit_digit (hds c (by simp))).1]
      rfl
  have hdigits : ∀ c ∈ Nat.toDigits 10 n, c.isDigit = true :=
    fun c hc => Nat.isDigit_of_mem_toDigits (by decide) (by decide) hc
  calc decimalValue (decimal n) = Nat.ofDigitChars 10 (Nat.toDigits 10 n) 0 := hfold _ hdigits 0
    _ = n := Nat.ofDigitChars_ten_toDigits

theorem address_of_written {w : Text} (h : Written w) : w ∈ connectAddressRegex.language := by
  have hdot : isAnyChar (unit '.') = true := by decide
  rcases h with ⟨a, b, c, d, ho, rfl⟩ | h | h
  · exact Or.inl (mem_language_ipv4.mpr
      ⟨a, unit '.', b, unit '.', c, unit '.', d, ho, ⟨hdot, hdot, hdot⟩, rfl⟩)
  · exact Or.inr (Or.inl (mem_language_ipv6.mpr (hexOrColon_of_ipv6Text h)))
  · exact Or.inr (Or.inr h)

theorem written_ne_nil {w : Text} (h : Written w) : w ≠ [] := by
  apply addressText_ne_nil
  rcases h with h | h | h
  · exact Or.inl h
  · exact Or.inr (Or.inl h)
  · exact Or.inr (Or.inr (hostName_of_domain h))

/-- What stands in a line with one blank between its parts and numbers without leading
zeros. -/
structure PlainLine where
  start : Text
  foundation : Nat
  componentId : Nat
  transport : IceTransport
  priority : Nat
  address : Text
  port : Nat
  type : IceType
  related : Option (Text × Nat)
  generation : Nat
  ufrag : Option Text
  networkId : Option Nat
  networkCost : Option Nat

namespace PlainLine

def line (p : PlainLine) : Line where
  start := p.start
  foundation := ⟨decimal p.foundation, unit ' '⟩
  componentId := ⟨decimal p.componentId, unit ' '⟩
  transport := ⟨transportName p.transport, unit ' '⟩
  priority := ⟨decimal p.priority, unit ' '⟩
  address := ⟨p.address, unit ' '⟩
  port := ⟨decimal p.port, unit ' '⟩
  typBlank := unit ' '
  type := typeName p.type
  remote := p.related.map fun q =>
    (⟨unit ' ', unit ' ', q.1⟩, ⟨unit ' ', unit ' ', decimal q.2⟩)
  generation := some ⟨unit ' ', unit ' ', decimal p.generation⟩
  ufrag := p.ufrag.map fun w => ⟨unit ' ', unit ' ', w⟩
  networkId := p.networkId.map fun n => ⟨unit ' ', unit ' ', decimal n⟩
  networkCost := p.networkCost.map fun n => ⟨unit ' ', unit ' ', decimal n⟩

def candidate (p : PlainLine) : IceCandidate where
  raw := some (p.line.write [])
  foundation := p.foundation
  componentId := p.componentId
  transport := p.transport
  priority := p.priority
  localIp := addressField p.address
  localPort := p.port
  type := p.type
  remoteIp := p.related.bind fun q => addressField q.1
  remotePort := (p.related.map Prod.snd).getD 0
  generation := p.generation
  uFrag := p.ufrag
  networkCost := (p.networkCost.map Int.ofNat).getD 0
  networkId := (p.networkId.map Int.ofNat).getD 0

/-- Every part has the form that is expected of it and can be converted. -/
structure Bounded (p : PlainLine) : Prop where
  start : p.start = text "a=" ∨ p.start = []
  foundation : p.foundation < 2 ^ 64
  componentId : p.componentId < 10 ^ 5
  priority : p.priority < 10 ^ 10
  address : p.address ∈ connectAddressRegex.language
  port : p.port ≤ 65535
  related : ∀ q ∈ p.related, q.1 ∈ connectAddressRegex.language ∧ q.2 ≤ 65535
  generation : p.generation < 2 ^ 32
  ufrag : ∀ w ∈ p.ufrag, w ∈ iceRegex.language
  networkId : ∀ n ∈ p.networkId, n ≤ 2 ^ 31 - 1
  networkCost : ∀ n ∈ p.networkCost, n ≤ 2 ^ 31 - 1

end PlainLine

/-- What a record is written as, after an optional `a=`. -/
def CandidateRecord.plain (r : CandidateRecord) (start : Text) : PlainLine where
  start := start
  foundation := r.foundation
  componentId := r.componentId
  transport := r.transport
  priority := r.priority
  address := r.address
  port := r.port
  type := r.type
  related := r.related
  generation := r.generation
  ufrag := r.ufrag
  networkId := r.networkId
  networkCost := r.networkCost

theorem serialise_eq_write (r : CandidateRecord) (start : Text) :
    start ++ r.serialise = (r.plain start).line.write [] := by
  have hattribute (name : String) (w u : Text) :
      (⟨unit ' ', unit ' ', w⟩ : Attribute).write name u =
        unit ' ' :: (text name ++ unit ' ' :: (w ++ u)) := rfl
  have hcost : text " network-cost " = unit ' ' :: (text "network-cost" ++ [unit ' ']) := by decide
  have hid : text " network-id " = unit ' ' :: (text "network-id" ++ [unit ' ']) := by decide
  have hufrag : text " ufrag " = unit ' ' :: (text "ufrag" ++ [unit ' ']) := by decide
  have hgen : text " generation " = unit ' ' :: (text "generation" ++ [unit ' ']) := by decide
  have hraddr : text " raddr " = unit ' ' :: (text "raddr" ++ [unit ' ']) := by decide
  have hrport : text " rport " = unit ' ' :: (text "rport" ++ [unit ' ']) := by decide
  have htyp : text " typ " = unit ' ' :: (text "typ" ++ [unit ' ']) := by decide
  have hblank : text " " = [unit ' '] := by decide
  unfold CandidateRecord.serialise Line.write Line.fromComponentId Line.fromTransport
    Line.fromPriority Line.fromAddress Line.fromPort Line.fromTyp Line.fromType Line.afterType
    Line.afterRemote Line.afterGeneration Line.afterUfrag Line.afterNetworkId PlainLine.line
    CandidateRecord.plain
  rw [hcost, hid, hufrag, hgen, hraddr, hrport, htyp, hblank]
  cases r.related <;> cases r.ufrag <;> cases r.networkId <;> cases r.networkCost <;>
    simp [Field.write, writeRemote, writeOption, hattribute]

theorem stuck_writeOption {name : String} {names : List String} {r : Pattern CodeUnit}
    {o : Option Attribute} {u : Text} (hn : name ∈ attributeNames)
    (hnames : ∀ m ∈ names, m ∈ attributeNames ∧ m ≠ name) (ho : ∀ a ∈ o, a.Fits r)
    (hu : Stuck names u) : Stuck names (writeOption name o u) := by
  cases o with
  | none => exact hu
  | some a => exact stuck_of_name hn hnames (ho a rfl).2.1 u

theorem not_class_of_ends {p : CodeUnit → Bool} {rest : Text}
    (hp : ∀ c, p c = true → isWhiteSpace c = false) (hends : endsToken rest = true) :
    ∀ c ∈ rest.head?, p c = false := by
  intro c hc
  have hspace : isWhiteSpace c = true := by
    rw [endsToken, Option.mem_def.mp hc] at hends
    exact hends
  by_contra hne
  rw [hp c (by simpa using hne)] at hspace
  cases hspace

/-- Before white space or the end of the text, and where the attribute's name does not
follow, nothing more can be taken. -/
theorem takesOption_of_ends {name : String} {p : CodeUnit → Bool} {max : Option Nat}
    {rest : Text} (o : Option Attribute) (hp : ∀ c, p c = true → isWhiteSpace c = false)
    (hends : endsToken rest = true) (hstuck : Stuck [name] rest) :
    TakesOption name p max o rest := by
  cases o with
  | none => exact fun a u ha => hstuck name (by simp) a u ha.1 ha.2.1
  | some a => exact Or.inl (not_class_of_ends hp hends)

/-- A well-formed line with nothing after it is read greedily as it stands. -/
theorem greedy_alone {l : Line} (hl : l.WellFormed) : l.Greedy [] := by
  have hend : endsToken [] = true := rfl
  have hcost (names : List String) (h : ∀ m ∈ names, m ∈ attributeNames ∧ m ≠ "network-cost") :
      Stuck names (l.afterNetworkId []) :=
    stuck_writeOption (by decide) h hl.networkCost (stuck_nil names)
  have hid (names : List String) (h : ∀ m ∈ names, m ∈ attributeNames ∧ m ≠ "network-cost")
      (h' : ∀ m ∈ names, m ∈ attributeNames ∧ m ≠ "network-id") : Stuck names (l.afterUfrag []) :=
    stuck_writeOption (by decide) h' hl.networkId (hcost names h)
  have hufrag (names : List String) (h : ∀ m ∈ names, m ∈ attributeNames ∧ m ≠ "network-cost")
      (h' : ∀ m ∈ names, m ∈ attributeNames ∧ m ≠ "network-id")
      (h'' : ∀ m ∈ names, m ∈ attributeNames ∧ m ≠ "ufrag") : Stuck names (l.afterGeneration []) :=
    stuck_writeOption (by decide) h'' hl.ufrag (hid names h h')
  have hgen : Stuck ["raddr"] (l.afterRemote []) :=
    stuck_writeOption (by decide) (by decide) hl.generation
      (hufrag _ (by decide) (by decide) (by decide))
  refine ⟨Or.inl (not_class_of_ends tokenChar_not_space (endsToken_afterType hl hend)), ?_, ?_, ?_,
    ?_, ?_⟩
  · cases l.remote with
    | none => exact fun q u hq => hgen "raddr" (by simp) q.1 _ hq.1.1 hq.1.2.1
    | some q => exact Or.inl (not_class_of_ends digit_not_space (endsToken_afterRemote hl hend))
  · exact takesOption_of_ends _ (fun _ => not_isWhiteSpace_of_decimalDigit)
      (endsToken_afterGeneration hl hend) (hufrag _ (by decide) (by decide) (by decide))
  · exact takesOption_of_ends _ iceChar_not_space (endsToken_afterUfrag hl hend)
      (hid _ (by decide) (by decide))
  · exact takesOption_of_ends _ digit_not_space (endsToken_afterNetworkId hl hend)
      (hcost _ (by decide))
  · exact takesOption_of_ends _ digit_not_space hend (stuck_nil _)

/-- The parser reads a line that stands alone as that line. -/
theorem parse_alone {l : Line} (hl : l.WellFormed) (ha : Acceptable (l.groups [])) :
    parse (l.write []) = .ok l.candidate := by
  have hparse : parse (l.write []) = convertGroups (l.groups []) :=
    parse_of_reading hl (greedy_alone hl) (List.nil_append _).symm (by simp)
  rw [hparse, convertGroups_line hl [] ha]

theorem space_isWhiteSpace : isWhiteSpace (unit ' ') = true := by decide

theorem transportName_token (t : IceTransport) : transportName t ∈ tokenRegex.language := by
  apply mem_setLoop_of_all
  cases t <;> decide

theorem typeName_token (t : IceType) : typeName t ∈ tokenRegex.language := by
  apply mem_setLoop_of_all
  cases t <;> decide

/-- A decimal number fits everywhere where the parser expects enough digits. -/
theorem decimal_iceRegex (n : Nat) : decimal n ∈ iceRegex.language := by
  refine ⟨fun c hc => ?_, decimal_length_pos _, nofun⟩
  have hdigit : within '0' '9' c = true := decimal_digits c hc
  simp [isIceChar, hdigit]

theorem decimal_generationRegex (n : Nat) : decimal n ∈ generationRegex.language :=
  ⟨fun c hc => isDecimalDigit_of_ascii (decimal_digits c hc), decimal_length_pos _, nofun⟩

namespace PlainLine
variable {p : PlainLine}

theorem Bounded.wellFormed (h : p.Bounded) : p.line.WellFormed := by
  have hspace := space_isWhiteSpace
  have hport {n : Nat} (hn : n ≤ 65535) : decimal n ∈ portRegex.language :=
    decimal_mem (by decide) (by omega)
  have hnetwork {n : Nat} (hn : n ≤ 2 ^ 31 - 1) : decimal n ∈ priorityRegex.language :=
    decimal_mem (by decide) (by omega)
  refine ⟨h.start, ⟨decimal_iceRegex _, hspace⟩, ⟨decimal_mem (by decide) h.componentId, hspace⟩,
    ⟨transportName_token _, hspace⟩, ⟨decimal_mem (by decide) h.priority, hspace⟩,
    ⟨h.address, hspace⟩, ⟨hport h.port, hspace⟩, hspace, typeName_token _, ?_, ?_, ?_, ?_, ?_⟩
  · intro q hq
    obtain ⟨v, hv, rfl⟩ := Option.map_eq_some_iff.mp hq
    obtain ⟨haddress, hle⟩ := h.related v hv
    exact ⟨⟨hspace, hspace, haddress⟩, ⟨hspace, hspace, hport hle⟩⟩
  · intro a ha
    obtain rfl := Option.some.inj ha
    exact ⟨hspace, hspace, decimal_generationRegex _⟩
  · intro a ha
    obtain ⟨w, hw, rfl⟩ := Option.map_eq_some_iff.mp ha
    exact ⟨hspace, hspace, h.ufrag w hw⟩
  · intro a ha
    obtain ⟨n, hn, rfl⟩ := Option.map_eq_some_iff.mp ha
    exact ⟨hspace, hspace, hnetwork (h.networkId n hn)⟩
  · intro a ha
    obtain ⟨n, hn, rfl⟩ := Option.map_eq_some_iff.mp ha
    exact ⟨hspace, hspace, hnetwork (h.networkCost n hn)⟩

theorem Bounded.acceptable (h : p.Bounded) : Acceptable (p.line.groups []) := by
  have hfoundation : ReadsAsULong (decimal p.foundation) := by
    refine ⟨_, Or.inl rfl, List.ne_nil_of_length_pos (decimal_length_pos _), decimal_digits, ?_⟩
    rw [decimalValue_decimal]
    exact h.foundation
  refine acceptable_groups_iff.mpr ⟨⟨hfoundation, ?_, ?_, ?_, ?_⟩, ?_, ?_, ?_⟩
  · show toLower (transportName p.transport) = _ ∨ toLower (transportName p.transport) = _
    cases p.transport <;> decide
  · show decimalValue (decimal p.port) ≤ 65535
    rw [decimalValue_decimal]
    exact h.port
  · show toLower (typeName p.type) ∈ _
    cases p.type <;> decide
  · intro q hq
    obtain ⟨v, hv, rfl⟩ := Option.map_eq_some_iff.mp hq
    rw [decimalValue_decimal]
    exact (h.related v hv).2
  · intro a ha
    obtain rfl := Option.some.inj ha
    exact ⟨decimal_digits, by rw [decimalValue_decimal]; exact h.generation⟩
  · intro a ha
    obtain ⟨n, hn, rfl⟩ := Option.map_eq_some_iff.mp ha
    rw [decimalValue_decimal]
    exact h.networkId n hn
  · intro a ha
    obtain ⟨n, hn, rfl⟩ := Option.map_eq_some_iff.mp ha
    rw [decimalValue_decimal]
    exact h.networkCost n hn

theorem line_candidate (p : PlainLine) : p.line.candidate = p.candidate := by
  have hsign : (readSign (decimal p.foundation)).2 = decimal p.foundation :=
    readSign_digits decimal_digits
  have htransport : transportOf (transportName p.transport) = p.transport := by
    cases p.transport <;> decide
  have htype : typeOf (typeName p.type) = p.type := by
    cases p.type <;> decide
  unfold Line.candidate candidate
  rw [IceCandidate.mk.injEq]
  refine ⟨rfl, (congrArg decimalValue hsign).trans (decimalValue_decimal _),
    decimalValue_decimal _, htransport, decimalValue_decimal _, rfl, decimalValue_decimal _, htype,
    ?_, ?_, decimalValue_decimal _, ?_, ?_, ?_⟩
  · cases hr : p.related <;> simp [line, hr]
  · cases hr : p.related <;> simp [line, hr, decimalValue_decimal]
  · cases hr : p.ufrag <;> simp [line, hr]
  · cases hr : p.networkCost <;> simp [line, hr, decimalValue_decimal]
  · cases hr : p.networkId <;> simp [line, hr, decimalValue_decimal]

/-- The parser reads what stands in a plain line. -/
theorem Bounded.parse (h : p.Bounded) : parse (p.line.write []) = .ok p.candidate := by
  rw [← p.line_candidate]
  exact parse_alone h.wellFormed h.acceptable

end PlainLine

section
variable (r : CandidateRecord) {start : Text}

theorem plain_bounded (hstart : start = text "a=" ∨ start = []) : (r.plain start).Bounded where
  start := hstart
  foundation := r.foundation_lt
  componentId := r.componentId_lt
  priority := lt_trans r.priority_lt (by decide)
  address := address_of_written r.address_written
  port := Nat.le_of_lt_succ r.port_lt
  related q hq := (r.related_written q hq).imp address_of_written Nat.le_of_lt_succ
  generation := r.generation_lt
  ufrag w hw :=
    ⟨(r.ufrag_chars w hw).2, List.length_pos_iff.mpr (r.ufrag_chars w hw).1, nofun⟩
  networkId n hn := le_trans (Nat.le_of_lt (r.networkId_lt n hn)) (by decide)
  networkCost n hn := le_trans (Nat.le_of_lt (r.networkCost_lt n hn)) (by decide)

/-- A written address is never empty, so that the field is set. -/
theorem plain_candidate : (r.plain start).candidate = r.candidate (start ++ r.serialise) := by
  have haddress {w : Text} (hw : Written w) : addressField w = some w := by
    rw [addressField, if_neg (written_ne_nil hw)]
  unfold PlainLine.candidate CandidateRecord.candidate
  rw [IceCandidate.mk.injEq]
  refine ⟨by rw [serialise_eq_write], rfl, rfl, rfl, rfl, haddress r.address_written, rfl, rfl, ?_,
    rfl, rfl, ?_, rfl, rfl⟩
  · cases hr : r.related with
    | none => simp [CandidateRecord.plain, hr]
    | some q => simp [CandidateRecord.plain, hr, haddress (r.related_written q hr).1]
  · simp [CandidateRecord.plain]

theorem parse_started (hstart : start = text "a=" ∨ start = []) :
    parse (start ++ r.serialise) = .ok (r.candidate (start ++ r.serialise)) := by
  rw [← plain_candidate, serialise_eq_write]
  exact (plain_bounded r hstart).parse

theorem parse_written : parse r.serialise = .ok (r.candidate r.serialise) := by
  have h := parse_started r (Or.inr rfl)
  rwa [List.nil_append] at h

end

/-- The parser inverts the writing of a record, with and without a leading `a=`. -/
theorem parse_serialise (r : CandidateRecord) :
    parse r.serialise = .ok (r.candidate r.serialise) ∧
    parse (text "a=" ++ r.serialise) = .ok (r.candidate (text "a=" ++ r.serialise)) :=
  ⟨parse_written r, parse_started r (Or.inl rfl)⟩

/-- A server reflexive candidate with all of its attributes. -/
def srflxRecord : CandidateRecord where
  foundation := 842163049
  foundation_lt := by decide
  componentId := 1
  componentId_lt := by decide
  transport := .udp
  priority := 1677729535
  priority_lt := by decide
  address := text "203.0.113.7"
  address_written := Or.inl ⟨text "203", text "0", text "113", text "7",
    ⟨mem_setLoop_of_all (by decide), mem_setLoop_of_all (by decide),
      mem_setLoop_of_all (by decide), mem_setLoop_of_all (by decide)⟩, by decide⟩
  port := 46154
  port_lt := by decide
  type := .srflx
  related := some (text "::", 46155)
  related_written := by
    intro q hq
    obtain rfl := Option.some.inj hq
    exact ⟨Or.inr (Or.inl (Or.inr ⟨[], [], by simp, by decide, by decide⟩)), by decide⟩
  generation := 0
  generation_lt := by decide
  ufrag := some (text "Es+/")
  ufrag_chars := by
    intro w hw
    obtain rfl := Option.some.inj hw
    exact ⟨by decide, List.all_eq_true.mp (by decide)⟩
  networkId := some 1
  networkId_lt := by simp
  networkCost := some 10
  networkCost_lt := by simp

theorem parse_srflxRecord :
    parse (text ("a=candidate:842163049 1 udp 1677729535 203.0.113.7 46154 typ srflx raddr :: " ++
      "rport 46155 generation 0 ufrag Es+/ network-id 1 network-cost 10")) =
    .ok (srflxRecord.candidate (text ("a=candidate:842163049 1 udp 1677729535 203.0.113.7 46154 " ++
      "typ srflx raddr :: rport 46155 generation 0 ufrag Es+/ network-id 1 network-cost 10"))) := by
  have hwrite : text "a=" ++ srflxRecord.serialise =
      text ("a=candidate:842163049 1 udp 1677729535 203.0.113.7 46154 typ srflx raddr :: " ++
        "rport 46155 generation 0 ufrag Es+/ network-id 1 network-cost 10") := by decide +kernel
  have h := (parse_serialise srflxRecord).2
  rw [hwrite] at h
  exact h

end Spitfire.Ice
