import Spitfire.Ice.Candidate

/-! Where the captured tokens end. The expression has no right anchor and its loops are
bounded, so the last token of a match can be a part of the token that is written. -/
namespace Spitfire.Ice
open Regex Pattern

/-- The capture of a group in the leftmost match. -/
def captured (s : Text) (i : Nat) : Option (Capture CodeUnit) :=
  (search masterRegex s).bind fun g => g i

/-- The token of the input that starts where the captured text starts. -/
def completeToken (d : Capture CodeUnit) : Text :=
  (d.value ++ d.rest).takeWhile fun c => !isWhiteSpace c

/-- Component, priority, port, type, `rport`, `generation`, `ufrag` and the network
attributes. -/
def tokenGroups : List Nat := [2, 4, 6, 7, 9, 10, 11, 12, 13]

/-- The captured tokens are the complete ones, and so are the numbers read from them. -/
structure NoTruncation (s : Text) (c : IceCandidate) : Prop where
  whole : ∀ i ∈ tokenGroups, ∀ d ∈ captured s i, d.value = completeToken d
  componentId : ∀ d ∈ captured s 2, c.componentId = decimalValue (completeToken d)
  priority : ∀ d ∈ captured s 4, c.priority = decimalValue (completeToken d)
  localPort : ∀ d ∈ captured s 6, c.localPort = decimalValue (completeToken d)
  remotePort : ∀ d ∈ captured s 9, c.remotePort = decimalValue (completeToken d)
  generation : ∀ d ∈ captured s 10, c.generation = decimalValue (completeToken d)
  networkId : ∀ d ∈ captured s 12, c.networkId = decimalValue (completeToken d)
  networkCost : ∀ d ∈ captured s 13, c.networkCost = decimalValue (completeToken d)

/-- A token may end before this text: at its end or at white space. -/
def endsToken (t : Text) : Bool := t.head?.all isWhiteSpace

theorem completeToken_eq_iff {d : Capture CodeUnit} (h : ∀ c ∈ d.value, isWhiteSpace c = false) :
    d.value = completeToken d ↔ endsToken d.rest = true := by
  have hall : ∀ c ∈ d.value, (!isWhiteSpace c) = true := fun c hc => by simp [h c hc]
  unfold completeToken endsToken
  rw [List.takeWhile_append_of_pos hall]
  cases d.rest with
  | nil => simp
  | cons b t => by_cases hb : isWhiteSpace b = true <;> simp [hb]

theorem endsToken_cons {b : CodeUnit} (hb : isWhiteSpace b = true) (t : Text) :
    endsToken (b :: t) = true := by simp [endsToken, hb]

theorem endsToken_writeOption {name : String} {r : Pattern CodeUnit} {o : Option Attribute}
    {t : Text} (ho : ∀ a ∈ o, a.Fits r) (ht : endsToken t = true) :
    endsToken (writeOption name o t) = true := by
  cases o with
  | none => exact ht
  | some a => exact endsToken_cons (ho a rfl).1 _

/-- The last token of a line is followed by what follows the match. -/
theorem exists_group_rest (l : Line) (t : Text) :
    ∃ i ∈ tokenGroups, ∃ d ∈ l.groups t i, d.rest = t := by
  cases hcost : l.networkCost with
  | some a => exact ⟨13, by decide, ⟨a.value, t⟩, by simp [Line.groups, hcost], rfl⟩
  | none =>
    have h13 : l.afterNetworkId t = t := by simp [Line.afterNetworkId, writeOption, hcost]
    cases hid : l.networkId with
    | some a => exact ⟨12, by decide, ⟨a.value, l.afterNetworkId t⟩, by simp [Line.groups, hid], h13⟩
    | none =>
      have h12 : l.afterUfrag t = t := by simp [Line.afterUfrag, writeOption, hid, h13]
      cases hufrag : l.ufrag with
      | some a => exact ⟨11, by decide, ⟨a.value, l.afterUfrag t⟩, by simp [Line.groups, hufrag], h12⟩
      | none =>
        have h11 : l.afterGeneration t = t := by
          simp [Line.afterGeneration, writeOption, hufrag, h12]
        cases hgen : l.generation with
        | some a =>
          exact ⟨10, by decide, ⟨a.value, l.afterGeneration t⟩, by simp [Line.groups, hgen], h11⟩
        | none =>
          have h10 : l.afterRemote t = t := by simp [Line.afterRemote, writeOption, hgen, h11]
          cases hremote : l.remote with
          | some q =>
            exact ⟨9, by decide, ⟨q.2.value, l.afterRemote t⟩, by simp [Line.groups, hremote], h10⟩
          | none =>
            exact ⟨7, by decide, ⟨l.type, _⟩, rfl, by
              simp [Line.afterType, writeRemote, hremote, h10]⟩

section
variable {l : Line} (hl : l.WellFormed) {t : Text}
include hl

theorem endsToken_afterNetworkId (ht : endsToken t = true) : endsToken (l.afterNetworkId t) = true :=
  endsToken_writeOption hl.networkCost ht

theorem endsToken_afterUfrag (ht : endsToken t = true) : endsToken (l.afterUfrag t) = true :=
  endsToken_writeOption hl.networkId (endsToken_afterNetworkId hl ht)

theorem endsToken_afterGeneration (ht : endsToken t = true) :
    endsToken (l.afterGeneration t) = true :=
  endsToken_writeOption hl.ufrag (endsToken_afterUfrag hl ht)

theorem endsToken_afterRemote (ht : endsToken t = true) : endsToken (l.afterRemote t) = true :=
  endsToken_writeOption hl.generation (endsToken_afterGeneration hl ht)

theorem endsToken_afterType (ht : endsToken t = true) : endsToken (l.afterType t) = true := by
  unfold Line.afterType
  cases hr : l.remote with
  | none => exact endsToken_afterRemote hl ht
  | some q => exact endsToken_cons (hl.remote q hr).1.1 _

/-- Every token but the last one is followed by the blank of the next item, so all of
them end where a token may end if the match does. -/
theorem endsToken_groups (ht : endsToken t = true) :
    ∀ i ∈ tokenGroups, ∀ d ∈ l.groups t i, endsToken d.rest = true := by
  have hmap {α : Type} {o : Option α} {f : α → Text} {rest : Text} (hr : endsToken rest = true) :
      ∀ d ∈ o.map fun a => (⟨f a, rest⟩ : Capture CodeUnit), endsToken d.rest = true := by
    intro d hd
    obtain ⟨a, _, rfl⟩ := Option.map_eq_some_iff.mp hd
    exact hr
  have hfield {w : Text} {b : CodeUnit} {u : Text} (hb : isWhiteSpace b = true) :
      ∀ d ∈ some (⟨w, b :: u⟩ : Capture CodeUnit), endsToken d.rest = true := by
    intro d hd
    obtain rfl := Option.some.inj hd
    exact endsToken_cons hb u
  intro i hi
  simp only [tokenGroups, List.mem_cons, List.not_mem_nil, or_false] at hi
  rcases hi with rfl | rfl | rfl | rfl | rfl | rfl | rfl | rfl | rfl
  · exact hfield hl.componentId.2
  · exact hfield hl.priority.2
  · exact hfield hl.port.2
  · intro d hd
    obtain rfl := Option.some.inj hd
    exact endsToken_afterType hl ht
  · exact hmap (endsToken_afterRemote hl ht)
  · exact hmap (endsToken_afterGeneration hl ht)
  · exact hmap (endsToken_afterUfrag hl ht)
  · exact hmap (endsToken_afterNetworkId hl ht)
  · exact hmap ht

theorem groups_not_space :
    ∀ i ∈ tokenGroups, ∀ d ∈ l.groups t i, ∀ c ∈ d.value, isWhiteSpace c = false := by
  have hmap {o : Option Attribute} {rest : Text}
      (ho : ∀ a ∈ o, ∀ c ∈ a.value, isWhiteSpace c = false) :
      ∀ d ∈ o.map fun a => (⟨a.value, rest⟩ : Capture CodeUnit),
        ∀ c ∈ d.value, isWhiteSpace c = false := by
    intro d hd
    obtain ⟨a, ha, rfl⟩ := Option.map_eq_some_iff.mp hd
    exact ho a ha
  have hfield {w u : Text} (hw : ∀ c ∈ w, isWhiteSpace c = false) :
      ∀ d ∈ some (⟨w, u⟩ : Capture CodeUnit), ∀ c ∈ d.value, isWhiteSpace c = false := by
    intro d hd
    obtain rfl := Option.some.inj hd
    exact hw
  intro i hi
  simp only [tokenGroups, List.mem_cons, List.not_mem_nil, or_false] at hi
  rcases hi with rfl | rfl | rfl | rfl | rfl | rfl | rfl | rfl | rfl
  · exact hfield (digits_not_space hl.componentId.1)
  · exact hfield (digits_not_space hl.priority.1)
  · exact hfield (digits_not_space hl.port.1)
  · exact hfield (tokenRegex_not_space hl.type)
  · intro d hd
    obtain ⟨q, hq, rfl⟩ := Option.map_eq_some_iff.mp hd
    exact digits_not_space (hl.remote q hq).2.2.2
  · refine hmap fun a ha c hc => ?_
    exact not_isWhiteSpace_of_decimalDigit ((hl.generation a ha).2.2.1 c hc)
  · exact hmap fun a ha => iceRegex_not_space (hl.ufrag a ha).2.2
  · exact hmap fun a ha => digits_not_space (hl.networkId a ha).2.2
  · exact hmap fun a ha => digits_not_space (hl.networkCost a ha).2.2

/-- The tokens of a line are complete exactly when the match ends where a token may. -/
theorem whole_iff_endsToken :
    (∀ i ∈ tokenGroups, ∀ d ∈ l.groups t i, d.value = completeToken d) ↔ endsToken t = true := by
  constructor
  · intro h
    obtain ⟨i, hi, d, hd, rfl⟩ := exists_group_rest l t
    exact (completeToken_eq_iff (groups_not_space hl i hi d hd)).mp (h i hi d hd)
  · intro ht i hi d hd
    exact (completeToken_eq_iff (groups_not_space hl i hi d hd)).mpr
      (endsToken_groups hl ht i hi d hd)

end

/-- No token is truncated exactly when the leftmost and there longest occurrence of the
expression's form in the text is followed by white space or by the end of the text. -/
theorem no_truncated_token_iff {s : Text} {c : IceCandidate} (h : parse s = .ok c) :
    NoTruncation s c ↔ ∀ p w t, LeftmostLongest masterRegex s p w t → endsToken t = true := by
  obtain ⟨l, p, t, hl, _, hlong, hsearch, _, rfl⟩ := parse_eq_ok_line h
  have hcap (i : Nat) : captured s i = l.groups t i := by simp [captured, hsearch]
  constructor
  · intro htrunc p' w' t' hlong'
    obtain ⟨_, _, rfl⟩ := leftmostLongest_unique hlong hlong'
    refine (whole_iff_endsToken hl).mp fun i hi d hd => htrunc.whole i hi d ?_
    rw [hcap]
    exact hd
  · intro hends
    have hwhole := (whole_iff_endsToken hl).mpr (hends p _ t hlong)
    -- A field of a group that takes part holds the value of the complete token.
    have hfield {α β : Type} (v : Text → β) {i : Nat} (hi : i ∈ tokenGroups) {o : Option α}
        {f : α → Text} {u : Text} (ho : l.groups t i = o.map fun a => ⟨f a, u⟩)
        (d : Capture CodeUnit) (hd : d ∈ captured s i) :
        (o.map fun a => v (f a)) = some (v (completeToken d)) := by
      rw [hcap] at hd
      rw [← hwhole i hi d hd]
      rw [ho] at hd
      obtain ⟨a, ha, rfl⟩ := Option.map_eq_some_iff.mp hd
      rw [ha]
      rfl
    refine ⟨fun i hi d hd => hwhole i hi d (hcap i ▸ hd), ?_, ?_, ?_, ?_, ?_, ?_, ?_⟩
    · intro d hd
      have := hfield decimalValue (i := 2) (o := some l.componentId) (by decide) rfl d hd
      exact Option.some.inj this
    · intro d hd
      have := hfield decimalValue (i := 4) (o := some l.priority) (by decide) rfl d hd
      exact Option.some.inj this
    · intro d hd
      have := hfield decimalValue (i := 6) (o := some l.port) (by decide) rfl d hd
      exact Option.some.inj this
    · intro d hd
      have := hfield decimalValue (i := 9) (by decide) rfl d hd
      simp [Line.candidate, this]
    · intro d hd
      have := hfield decimalValue (i := 10) (by decide) rfl d hd
      simp [Line.candidate, this]
    · intro d hd
      have := hfield (fun w => (decimalValue w : Int)) (i := 12) (by decide) rfl d hd
      simp [Line.candidate, this]
    · intro d hd
      have := hfield (fun w => (decimalValue w : Int)) (i := 13) (by decide) rfl d hd
      simp [Line.candidate, this]

/-- A complete line is read without truncation. -/
theorem no_truncated_token_complete_line :
    ∃ c, parse (text "candidate:1 1 udp 1 :: 5 typ host network-id 7") = .ok c ∧
      (NoTruncation (text "candidate:1 1 udp 1 :: 5 typ host network-id 7") c ↔ ∀ p w t,
        LeftmostLongest masterRegex (text "candidate:1 1 udp 1 :: 5 typ host network-id 7") p w t →
          endsToken t = true) := by
  have h : parse (text "candidate:1 1 udp 1 :: 5 typ host network-id 7") = .ok
      { raw := some (text "candidate:1 1 udp 1 :: 5 typ host network-id 7")
        foundation := 1, componentId := 1, transport := .udp, priority := 1
        localIp := some (text "::"), localPort := 5, networkId := 7 } := by decide +kernel
  exact ⟨_, h, no_truncated_token_iff h⟩

/-- The ten digit limit cuts an eleven digit `network-id`. -/
theorem networkId_truncated :
    ∃ c, parse (text "candidate:1 1 udp 1 :: 5 typ host network-id 12345678901") = .ok c ∧
      c.networkId = 1234567890 ∧
      ¬ NoTruncation (text "candidate:1 1 udp 1 :: 5 typ host network-id 12345678901") c := by
  have h : parse (text "candidate:1 1 udp 1 :: 5 typ host network-id 12345678901") = .ok
      { raw := some (text "candidate:1 1 udp 1 :: 5 typ host network-id 1234567890")
        foundation := 1, componentId := 1, transport := .udp, priority := 1
        localIp := some (text "::"), localPort := 5, networkId := 1234567890 } := by decide +kernel
  have hcap : captured (text "candidate:1 1 udp 1 :: 5 typ host network-id 12345678901") 12 =
      some ⟨text "1234567890", text "1"⟩ := by decide +kernel
  refine ⟨_, h, rfl, fun hno => ?_⟩
  have hwhole := hno.whole 12 (by decide) _ hcap
  exact absurd hwhole (by decide)

end Spitfire.Ice
