import Spitfire.Ice.Serialization

/-! Which candidates the parser can return at all, and one line for each of them: a candidate
that has been read can be written again, and reading that gives the same candidate. -/
namespace Spitfire.Ice
open Regex Pattern

/-- The expression for an address accepts no text at all. -/
theorem nil_mem_address : [] ∈ connectAddressRegex.language := by
  have hempty : ([] : Text) ∈ (setLoop isHexDigit 0 (some 4)).language :=
    ⟨nofun, Nat.zero_le _, fun m _ => Nat.zero_le m⟩
  have hstep : ([] : Text) ∈
      (Pattern.seq (.setLoop isHexDigit 0 (some 4)) (.opt (.set (· = unit ':')))).language :=
    Language.mem_mul.mpr ⟨[], hempty, [], Or.inr rfl, rfl⟩
  have hplus : ([] : Text) ∈
      (Pattern.plus (.seq (.setLoop isHexDigit 0 (some 4)) (.opt (.set (· = unit ':'))))).language :=
    Language.mem_mul.mpr ⟨[], hstep, [], Language.nil_mem_kstar _, rfl⟩
  have hrest : ([] : Text) ∈ (seqs
      [.plus (.seq (.setLoop isHexDigit 0 (some 4)) (.opt (.set (· = unit ':'))))]).language :=
    Language.mem_mul.mpr ⟨[], hplus, [], rfl, rfl⟩
  exact Or.inr (Or.inl (Language.mem_mul.mpr ⟨[], Or.inr rfl, [], hrest, rfl⟩))

/-- The bounds that every candidate keeps that the parser returns. An address is never empty
but may be missing; a missing remote address may come with a port. -/
structure IceCandidate.Legible (c : IceCandidate) : Prop where
  foundation : c.foundation < 2 ^ 64
  componentId : c.componentId < 10 ^ 5
  priority : c.priority < 10 ^ 10
  localIp : ∀ w ∈ c.localIp, w ≠ [] ∧ w ∈ connectAddressRegex.language
  localPort : c.localPort ≤ 65535
  remoteIp : ∀ w ∈ c.remoteIp, w ≠ [] ∧ w ∈ connectAddressRegex.language
  remotePort : c.remotePort ≤ 65535
  generation : c.generation < 2 ^ 32
  uFrag : ∀ w ∈ c.uFrag, w ∈ iceRegex.language
  networkCost : 0 ≤ c.networkCost ∧ c.networkCost ≤ 2 ^ 31 - 1
  networkId : 0 ≤ c.networkId ∧ c.networkId ≤ 2 ^ 31 - 1

namespace IceCandidate
variable (c : IceCandidate)

/-- What a candidate is written as: every attribute that has a value. -/
def plain : PlainLine where
  start := []
  foundation := c.foundation
  componentId := c.componentId
  transport := c.transport
  priority := c.priority
  address := c.localIp.getD []
  port := c.localPort
  type := c.type
  related := if c.remoteIp = none ∧ c.remotePort = 0 then none
    else some (c.remoteIp.getD [], c.remotePort)
  generation := c.generation
  ufrag := c.uFrag
  networkId := some c.networkId.toNat
  networkCost := some c.networkCost.toNat

def write : Text := c.plain.line.write []

variable {c}

theorem Legible.address {o : Option Text}
    (h : ∀ w ∈ o, w ≠ [] ∧ w ∈ connectAddressRegex.language) :
    o.getD [] ∈ connectAddressRegex.language := by
  cases o with
  | none => exact nil_mem_address
  | some w => exact (h w rfl).2

theorem Legible.bounded (h : Legible c) : c.plain.Bounded := by
  have hnetwork {n : Int} (hn : 0 ≤ n ∧ n ≤ 2 ^ 31 - 1) :
      ∀ k ∈ some n.toNat, k ≤ 2 ^ 31 - 1 := by
    intro k hk
    obtain rfl := Option.some.inj hk
    omega
  refine ⟨Or.inr rfl, h.foundation, h.componentId, h.priority, address h.localIp, h.localPort, ?_,
    h.generation, h.uFrag, hnetwork h.networkId, hnetwork h.networkCost⟩
  intro q hq
  dsimp only [plain] at hq
  split at hq
  · cases hq
  · obtain rfl := Option.some.inj hq
    exact ⟨address h.remoteIp, h.remotePort⟩

theorem Legible.addressField {o : Option Text}
    (h : ∀ w ∈ o, w ≠ [] ∧ w ∈ connectAddressRegex.language) : addressField (o.getD []) = o := by
  cases o with
  | none => rfl
  | some w => exact if_neg (h w rfl).1

theorem Legible.plain_candidate (h : Legible c) :
    c.plain.candidate = { c with raw := some c.write } := by
  have hnetwork {n : Int} (hn : 0 ≤ n) : ((some n.toNat).map Int.ofNat).getD 0 = n :=
    Int.toNat_of_nonneg hn
  unfold PlainLine.candidate
  rw [IceCandidate.mk.injEq]
  refine ⟨rfl, rfl, rfl, rfl, rfl, addressField h.localIp, rfl, rfl, ?_, ?_, rfl, rfl,
    hnetwork h.networkCost.1, hnetwork h.networkId.1⟩
  · dsimp only [plain]
    split
    · rename_i hnone
      exact hnone.1.symm
    · exact addressField h.remoteIp
  · dsimp only [plain]
    split
    · rename_i hnone
      exact hnone.2.symm
    · rfl

end IceCandidate

theorem addressField_mem {w v : Text} (hw : w ∈ connectAddressRegex.language)
    (hv : v ∈ addressField w) : v ≠ [] ∧ v ∈ connectAddressRegex.language := by
  unfold addressField at hv
  split at hv
  · cases hv
  · rename_i hne
    obtain rfl := Option.some.inj hv
    exact ⟨hne, hw⟩

theorem ReadsAsULong.lt {w : Text} (h : ReadsAsULong w) : decimalValue (readSign w).2 < 2 ^ 64 := by
  obtain ⟨d, hd, -, hall, hlt⟩ := h
  rcases hd with rfl | rfl
  · rw [readSign_digits hall]
    exact hlt
  · simpa [readSign] using hlt

/-- What is read from a line keeps the bounds. -/
theorem Line.WellFormed.legible {l : Line} (hl : l.WellFormed) (hfields : l.FieldsConvert)
    (hattributes : l.AttributesConvert) : l.candidate.Legible := by
  obtain ⟨hfoundation, -, hport, -, hrport⟩ := hfields
  obtain ⟨hgeneration, hid, hcost⟩ := hattributes
  have hnetwork {o : Option Attribute} (ho : ∀ a ∈ o, decimalValue a.value ≤ 2 ^ 31 - 1) :
      0 ≤ (o.map fun a => (decimalValue a.value : Int)).getD 0 ∧
        (o.map fun a => (decimalValue a.value : Int)).getD 0 ≤ 2 ^ 31 - 1 := by
    cases o with
    | none => decide
    | some a =>
      have hle := ho a rfl
      simp only [Option.map_some, Option.getD_some]
      omega
  refine ⟨hfoundation.lt, decimalValue_lt_of_max hl.componentId.1,
    decimalValue_lt_of_max hl.priority.1, fun w hw => addressField_mem hl.address.1 hw, hport, ?_,
    ?_, ?_, ?_, hnetwork hcost, hnetwork hid⟩
  · intro w hw
    obtain ⟨q, hq, hw⟩ := Option.bind_eq_some_iff.mp hw
    exact addressField_mem (hl.remote q hq).1.2.2 hw
  · show (l.remote.map fun p => decimalValue p.2.value).getD 0 ≤ 65535
    cases hr : l.remote with
    | none => exact Nat.zero_le _
    | some q => exact hrport q hr
  · show (l.generation.map fun a => decimalValue a.value).getD 0 < 2 ^ 32
    cases hg : l.generation with
    | none => decide
    | some a => exact (hgeneration a hg).2
  · intro w hw
    obtain ⟨a, ha, rfl⟩ := Option.map_eq_some_iff.mp hw
    exact (hl.ufrag a ha).2.2

theorem legible_of_parse {s : Text} {c : IceCandidate} (h : parse s = .ok c) : c.Legible := by
  obtain ⟨l, _, t, hl, -, -, -, ha, rfl⟩ := parse_eq_ok_line h
  obtain ⟨hfields, hattributes⟩ := acceptable_groups_iff.mp ha
  exact hl.legible hfields hattributes

theorem parse_write {c : IceCandidate} (h : c.Legible) :
    parse c.write = .ok { c with raw := some c.write } := by
  rw [← h.plain_candidate]
  exact h.bounded.parse

/-- The bounds say exactly which candidates the parser returns, apart from the text that it
found them in; and each of them is returned for the line that it is written as. -/
theorem parse_range_iff (c : IceCandidate) :
    ((∃ s raw, parse s = .ok { c with raw := raw }) ↔ c.Legible) ∧
      (parse c.write = .ok { c with raw := some c.write } ↔ c.Legible) := by
  have hlegible {raw : Option Text} (h : IceCandidate.Legible { c with raw := raw }) : c.Legible :=
    ⟨h.foundation, h.componentId, h.priority, h.localIp, h.localPort, h.remoteIp, h.remotePort,
      h.generation, h.uFrag, h.networkCost, h.networkId⟩
  refine ⟨⟨?_, fun h => ⟨_, _, parse_write h⟩⟩, ?_, parse_write⟩
  · rintro ⟨s, raw, h⟩
    exact hlegible (legible_of_parse h)
  · exact fun h => hlegible (legible_of_parse h)

end Spitfire.Ice
