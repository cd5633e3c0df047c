import Spitfire.Ice.Reading

/-! The candidate that the conversions build from the groups of a match, as one value. -/
namespace Spitfire.Ice
open Regex Pattern

/-- What one pass through the loop does when it does not throw. -/
def applied (g : Groups CodeUnit) (i : Nat) (c : IceCandidate) : IceCandidate :=
  if isNullOrWhiteSpace (groupValue g i) then c
  else match convert i (groupValue g i) with
    | .ok f => f c
    | .error _ => c

theorem convertGroup_eq_applied {g : Groups CodeUnit} {c c' : IceCandidate} {i : Nat}
    (h : convertGroup g c i = .ok c') : c' = applied g i c := by
  unfold convertGroup at h
  unfold applied
  dsimp only at h
  split at h
  · rename_i hb
    rw [if_pos hb]
    exact (Except.ok.inj h).symm
  · rename_i hb
    rw [if_neg hb]
    cases hf : convert i (groupValue g i) with
    | error e =>
      rw [hf] at h
      cases h
    | ok f =>
      rw [hf] at h
      exact (Except.ok.inj h).symm

private theorem foldlM_eq_applied {g : Groups CodeUnit} {is : List Nat} {c c' : IceCandidate}
    (h : is.foldlM (convertGroup g) c = .ok c') : c' = is.foldl (fun c i => applied g i c) c := by
  induction is generalizing c with
  | nil => exact (Except.ok.inj h).symm
  | cons i is ih =>
    rw [List.foldlM_cons] at h
    cases hc : convertGroup g c i with
    | error e =>
      rw [hc] at h
      cases h
    | ok d =>
      rw [hc] at h
      rw [List.foldl_cons, ← convertGroup_eq_applied hc]
      exact ih h

/-- An address is null when its text is empty. -/
def addressField (w : Text) : Option Text := if w = [] then none else some w

def transportOf (w : Text) : IceTransport := (iceTransportMap.lookup (toLower w)).getD .tcp
def typeOf (w : Text) : IceType := (iceTypeMap.lookup (toLower w)).getD .host

/-- The candidate that an accepted line is read as. -/
def Line.candidate (l : Line) : IceCandidate where
  raw := some (l.write [])
  foundation := decimalValue (readSign l.foundation.value).2
  componentId := decimalValue l.componentId.value
  transport := transportOf l.transport.value
  priority := decimalValue l.priority.value
  localIp := addressField l.address.value
  localPort := decimalValue l.port.value
  type := typeOf l.type
  remoteIp := l.remote.bind fun p => addressField p.1.value
  remotePort := (l.remote.map fun p => decimalValue p.2.value).getD 0
  generation := (l.generation.map fun a => decimalValue a.value).getD 0
  uFrag := l.ufrag.map fun a => a.value
  networkCost := (l.networkCost.map fun a => (decimalValue a.value : Int)).getD 0
  networkId := (l.networkId.map fun a => (decimalValue a.value : Int)).getD 0

theorem applied_of_ok {g : Groups CodeUnit} {i : Nat} {d : Capture CodeUnit}
    {f : IceCandidate → IceCandidate} (hg : g i = some d)
    (hd : isNullOrWhiteSpace d.value = false) (hf : convert i d.value = .ok f) :
    applied g i = f := by
  have hv : groupValue g i = d.value := by simp [groupValue, hg]
  funext c
  unfold applied
  rw [hv, hd, hf]
  rfl

theorem applied_of_blank {g : Groups CodeUnit} {i : Nat} {d : Capture CodeUnit}
    (hg : g i = some d) (hd : isNullOrWhiteSpace d.value = true) : applied g i = id := by
  have hv : groupValue g i = d.value := by simp [groupValue, hg]
  funext c
  unfold applied
  rw [hv, if_pos hd]
  rfl

theorem applied_of_absent {g : Groups CodeUnit} {i : Nat} (h : g i = none) : applied g i = id := by
  funext c
  simp [applied, groupValue, h, isNullOrWhiteSpace]

theorem signed_digits {name : String} {min bound : Int} (hmin : min ≤ 0) {max : Option Nat}
    {w : Text} (hw : w ∈ (setLoop isAsciiDigit 1 max).language)
    (hle : (decimalValue w : Int) ≤ bound) :
    parseInteger name min bound w = .ok (decimalValue w : Int) := by
  have hne : w ≠ [] := List.ne_nil_of_length_pos hw.2.1
  exact (parseInteger_digits hmin hne hw.1).mpr ⟨hle, rfl⟩

/-- The conversions to unsigned types, on digits in range. -/
theorem unsigned_digits {name : String} {bound : Int} {max : Option Nat} {w : Text}
    (hw : w ∈ (setLoop isAsciiDigit 1 max).language) (hle : (decimalValue w : Int) ≤ bound) :
    (parseInteger name 0 bound w).map Int.toNat = .ok (decimalValue w) := by
  rw [signed_digits (le_refl 0) hw hle]
  rfl

theorem decimalValue_lt_of_max {m : Nat} {w : Text}
    (hw : w ∈ (setLoop isAsciiDigit 1 (some m)).language) : decimalValue w < 10 ^ m :=
  (decimalValue_lt hw.1).trans_le (Nat.pow_le_pow_right (by decide) (hw.2.2 m rfl))

theorem readSign_digits {d : Text} (hd : ∀ c ∈ d, isAsciiDigit c = true) : (readSign d).2 = d := by
  cases d with
  | nil => rfl
  | cons c d =>
    have hc := hd c (by simp)
    have hplus : c ≠ unit '+' := by
      rintro rfl
      cases hc
    have hminus : c ≠ unit '-' := by
      rintro rfl
      cases hc
    simp [readSign, hplus, hminus]

theorem ulongParse_sign {w : Text} (hw : w ∈ iceRegex.language) (h : ReadsAsULong w) :
    ulongParse w = .ok (decimalValue (readSign w).2) := by
  have hplain : ∀ c ∈ w, Plain c := fun c hc => iceChar_plain (hw.1 c hc)
  obtain ⟨d, hd, hne, hall, hlt⟩ := h
  have hparse : parseInteger "a UInt64" 0 (2 ^ 64 - 1) w = .ok (decimalValue d : Int) :=
    (parseInteger_eq_ok_iff (le_refl 0) hplain).mpr ⟨d, hd, hne, hall, by omega, rfl⟩
  have hsign : (readSign w).2 = d := by
    rcases hd with rfl | rfl
    · exact readSign_digits hall
    · simp [readSign]
  unfold ulongParse
  rw [hparse, hsign]
  rfl

theorem lookupOrThrow_eq {α : Type} {table : List (Text × α)} {key : Text} (message : String)
    (h : key ∈ table.map Prod.fst) (d : α) :
    lookupOrThrow table key message = .ok ((table.lookup key).getD d) := by
  have hok : ∃ t, lookupOrThrow table key message = .ok t := lookupOrThrow_ok_iff.mpr h
  obtain ⟨t, ht⟩ := hok
  unfold lookupOrThrow at ht ⊢
  cases hl : table.lookup key with
  | none =>
    rw [hl] at ht
    cases ht
  | some t => rfl

theorem applied_raw (l : Line) (t : Text) :
    applied (l.groups t) 0 = fun c => { c with raw := some (l.write []) } := by
  refine applied_of_ok rfl ?_ rfl
  have hmem : unit ':' ∈ l.write [] := by simp [Line.write, text]
  have hcolon : isWhiteSpace (unit ':') = false := by decide
  exact List.all_eq_false.mpr ⟨_, hmem, by simp [hcolon]⟩

section
variable {l : Line} (hl : l.WellFormed) (t : Text)
include hl

theorem applied_foundation (h : ReadsAsULong l.foundation.value) :
    applied (l.groups t) 1 = fun c =>
      { c with foundation := decimalValue (readSign l.foundation.value).2 } := by
  have hb := not_blank_of_loop iceChar_not_space hl.foundation.1
  refine applied_of_ok rfl hb ?_
  rw [convert, ulongParse_sign hl.foundation.1 h]
  rfl

theorem applied_componentId :
    applied (l.groups t) 2 = fun c => { c with componentId := decimalValue l.componentId.value } := by
  have hb := not_blank_of_loop digit_not_space hl.componentId.1
  have hlt := decimalValue_lt_of_max hl.componentId.1
  refine applied_of_ok rfl hb ?_
  rw [convert, uintParse, unsigned_digits hl.componentId.1 (by omega)]
  rfl

theorem applied_transport
    (h : toLower l.transport.value = text "udp" ∨ toLower l.transport.value = text "tcp") :
    applied (l.groups t) 3 = fun c => { c with transport := transportOf l.transport.value } := by
  have hb := not_blank_of_loop tokenChar_not_space hl.transport.1
  have hkey : toLower l.transport.value ∈ iceTransportMap.map Prod.fst := by
    simpa [iceTransportMap] using h
  refine applied_of_ok rfl hb ?_
  rw [convert, getTransportType, trim_token hl.transport.1, lookupOrThrow_eq _ hkey .tcp]
  rfl

theorem applied_priority :
    applied (l.groups t) 4 = fun c => { c with priority := decimalValue l.priority.value } := by
  have hb := not_blank_of_loop digit_not_space hl.priority.1
  have hlt := decimalValue_lt_of_max hl.priority.1
  refine applied_of_ok rfl hb ?_
  rw [convert, ulongParse, unsigned_digits hl.priority.1 (by omega)]
  rfl

theorem applied_localIp : applied (l.groups t) 5 = fun c =>
    { c with localIp := (addressField l.address.value).or c.localIp } := by
  have hblank := address_blank_iff hl.address.1
  unfold addressField
  by_cases he : l.address.value = []
  · rw [if_pos he]
    exact applied_of_blank rfl (hblank.mpr he)
  · rw [if_neg he]
    exact applied_of_ok rfl (Bool.not_eq_true _ ▸ mt hblank.mp he) rfl

theorem applied_localPort (h : decimalValue l.port.value ≤ 65535) :
    applied (l.groups t) 6 = fun c => { c with localPort := decimalValue l.port.value } := by
  have hb := not_blank_of_loop digit_not_space hl.port.1
  refine applied_of_ok rfl hb ?_
  rw [convert, ushortParse, unsigned_digits hl.port.1 (by omega)]
  rfl

theorem applied_type (h : toLower l.type ∈ [text "host", text "srflx", text "prflx", text "relay"]) :
    applied (l.groups t) 7 = fun c => { c with type := typeOf l.type } := by
  have hb := not_blank_of_loop tokenChar_not_space hl.type
  refine applied_of_ok rfl hb ?_
  rw [convert, getIceType, lookupOrThrow_eq _ h .host]
  rfl

theorem applied_remoteIp : applied (l.groups t) 8 = fun c =>
    { c with remoteIp := (l.remote.bind fun p => addressField p.1.value).or c.remoteIp } := by
  cases hr : l.remote with
  | none => exact applied_of_absent (by simp [Line.groups, hr])
  | some p =>
    have hblank := address_blank_iff (hl.remote p hr).1.2.2
    have hg : l.groups t 8 = some ⟨p.1.value, p.2.write "rport" (l.afterRemote t)⟩ := by
      simp [Line.groups, hr]
    simp only [Option.bind_some, addressField]
    by_cases he : p.1.value = []
    · rw [if_pos he]
      exact applied_of_blank hg (hblank.mpr he)
    · rw [if_neg he]
      exact applied_of_ok hg (Bool.not_eq_true _ ▸ mt hblank.mp he) rfl

theorem applied_remotePort (h : ∀ d ∈ l.groups t 9, decimalValue d.value ≤ 65535) :
    applied (l.groups t) 9 = fun c =>
      { c with remotePort := (l.remote.map fun p => decimalValue p.2.value).getD c.remotePort } := by
  cases hr : l.remote with
  | none => exact applied_of_absent (by simp [Line.groups, hr])
  | some p =>
    have hw := (hl.remote p hr).2.2.2
    have hg : l.groups t 9 = some ⟨p.2.value, l.afterRemote t⟩ := by simp [Line.groups, hr]
    have hle : decimalValue p.2.value ≤ 65535 := h _ hg
    refine applied_of_ok hg (not_blank_of_loop digit_not_space hw) ?_
    rw [convert, ushortParse, unsigned_digits hw (by omega)]
    rfl

theorem applied_generation (h : ∀ d ∈ l.groups t 10,
      (∀ a ∈ d.value, isAsciiDigit a = true) ∧ decimalValue d.value < 2 ^ 32) :
    applied (l.groups t) 10 = fun c =>
      { c with generation := (l.generation.map fun a => decimalValue a.value).getD c.generation } := by
  cases hr : l.generation with
  | none => exact applied_of_absent (by simp [Line.groups, hr])
  | some a =>
    have hw := (hl.generation a hr).2.2
    have hg : l.groups t 10 = some ⟨a.value, l.afterGeneration t⟩ := by simp [Line.groups, hr]
    obtain ⟨hall, hlt⟩ : (∀ x ∈ a.value, isAsciiDigit x = true) ∧ decimalValue a.value < 2 ^ 32 :=
      h _ hg
    have hdigits : a.value ∈ (setLoop isAsciiDigit 1 none).language := ⟨hall, hw.2⟩
    refine applied_of_ok hg (not_blank_of_loop digit_not_space hdigits) ?_
    rw [convert, uintParse, unsigned_digits hdigits (by omega)]
    rfl

theorem applied_uFrag : applied (l.groups t) 11 = fun c =>
    { c with uFrag := (l.ufrag.map fun a => a.value).or c.uFrag } := by
  cases hr : l.ufrag with
  | none => exact applied_of_absent (by simp [Line.groups, hr])
  | some a =>
    have hg : l.groups t 11 = some ⟨a.value, l.afterUfrag t⟩ := by simp [Line.groups, hr]
    exact applied_of_ok hg (not_blank_of_loop iceChar_not_space (hl.ufrag a hr).2.2) rfl

theorem applied_networkId (h : ∀ d ∈ l.groups t 12, decimalValue d.value ≤ 2 ^ 31 - 1) :
    applied (l.groups t) 12 = fun c => { c with
      networkId := (l.networkId.map fun a => (decimalValue a.value : Int)).getD c.networkId } := by
  cases hr : l.networkId with
  | none => exact applied_of_absent (by simp [Line.groups, hr])
  | some a =>
    have hw := (hl.networkId a hr).2.2
    have hg : l.groups t 12 = some ⟨a.value, l.afterNetworkId t⟩ := by simp [Line.groups, hr]
    have hle : decimalValue a.value ≤ 2 ^ 31 - 1 := h _ hg
    refine applied_of_ok hg (not_blank_of_loop digit_not_space hw) ?_
    rw [convert, intParse, signed_digits (by decide) hw (by omega)]
    rfl

theorem applied_networkCost (h : ∀ d ∈ l.groups t 13, decimalValue d.value ≤ 2 ^ 31 - 1) :
    applied (l.groups t) 13 = fun c => { c with
      networkCost :=
        (l.networkCost.map fun a => (decimalValue a.value : Int)).getD c.networkCost } := by
  cases hr : l.networkCost with
  | none => exact applied_of_absent (by simp [Line.groups, hr])
  | some a =>
    have hw := (hl.networkCost a hr).2.2
    have hg : l.groups t 13 = some ⟨a.value, t⟩ := by simp [Line.groups, hr]
    have hle : decimalValue a.value ≤ 2 ^ 31 - 1 := h _ hg
    refine applied_of_ok hg (not_blank_of_loop digit_not_space hw) ?_
    rw [convert, intParse, signed_digits (by decide) hw (by omega)]
    rfl

/-- The whole loop, on the groups of a line whose conversions succeed. -/
theorem convertGroups_line (ha : Acceptable (l.groups t)) :
    convertGroups (l.groups t) = .ok l.candidate := by
  obtain ⟨c, hc⟩ := convertGroups_ok_iff.mpr ((passes_iff_acceptable hl t).mpr ha)
  rw [hc]
  have hfold := foldlM_eq_applied hc
  rw [groupsCount_eq, show List.range 14 = [0, 1, 2, 3, 4, 5, 6, 7, 8, 9, 10, 11, 12, 13] from rfl]
    at hfold
  simp only [List.foldl_cons, List.foldl_nil] at hfold
  rw [hfold, applied_raw, applied_foundation hl t ha.foundation, applied_componentId hl,
    applied_transport hl t ha.transport, applied_priority hl, applied_localIp hl,
    applied_localPort hl t ha.port, applied_type hl t ha.type, applied_remoteIp hl,
    applied_remotePort hl t ha.rport, applied_generation hl t ha.generation, applied_uFrag hl,
    applied_networkId hl t ha.networkId, applied_networkCost hl t ha.networkCost]
  simp only [Option.or_none]
  rfl

end

theorem convertGroups_eq_ok_iff {l : Line} (hl : l.WellFormed) {t : Text} {c : IceCandidate} :
    convertGroups (l.groups t) = .ok c ↔ Acceptable (l.groups t) ∧ c = l.candidate := by
  constructor
  · intro hc
    have ha := (passes_iff_acceptable hl t).mp (convertGroups_ok_iff.mp ⟨c, hc⟩)
    rw [convertGroups_line hl t ha] at hc
    exact ⟨ha, (Except.ok.inj hc).symm⟩
  · rintro ⟨ha, rfl⟩
    exact convertGroups_line hl t ha

/-- What the parser returns: the candidate of the line that the leftmost match reads. -/
theorem parse_eq_ok_line {s : Text} {c : IceCandidate} (h : parse s = .ok c) :
    ∃ (l : Line) (p t : Text), l.WellFormed ∧ l.Greedy t ∧
      LeftmostLongest masterRegex s p (l.write []) t ∧
      search masterRegex s = some (l.groups t) ∧ Acceptable (l.groups t) ∧ c = l.candidate := by
  obtain ⟨g, hg, hc⟩ := parse_eq_ok_iff.mp h
  obtain ⟨l, p, t, hl, hgreedy, rfl, hs⟩ := reading_of_search hg
  obtain ⟨ha, hc⟩ := (convertGroups_eq_ok_iff hl).mp hc
  exact ⟨l, p, t, hl, hgreedy, hs, hg, ha, hc⟩

/-- The fields of the line that have to be converted can be. -/
def Line.FieldsConvert (l : Line) : Prop :=
  ReadsAsULong l.foundation.value ∧
    (toLower l.transport.value = text "udp" ∨ toLower l.transport.value = text "tcp") ∧
    decimalValue l.port.value ≤ 65535 ∧
    toLower l.type ∈ [text "host", text "srflx", text "prflx", text "relay"] ∧
    ∀ q ∈ l.remote, decimalValue q.2.value ≤ 65535

def Line.AttributesConvert (l : Line) : Prop :=
  (∀ a ∈ l.generation, (∀ c ∈ a.value, isAsciiDigit c = true) ∧ decimalValue a.value < 2 ^ 32) ∧
    (∀ a ∈ l.networkId, decimalValue a.value ≤ 2 ^ 31 - 1) ∧
    ∀ a ∈ l.networkCost, decimalValue a.value ≤ 2 ^ 31 - 1

/-- What stands after the line and what it starts with do not matter to the conversions. -/
theorem acceptable_groups_iff {l : Line} {t : Text} :
    Acceptable (l.groups t) ↔ l.FieldsConvert ∧ l.AttributesConvert := by
  constructor
  · intro ⟨hfoundation, htransport, hport, htype, hrport, hgeneration, hid, hcost⟩
    refine ⟨⟨hfoundation, htransport, hport, htype, ?_⟩, ?_, ?_, ?_⟩
    · exact fun q hq => hrport _ (Option.mem_map_of_mem _ hq)
    · exact fun a ha => hgeneration _ (Option.mem_map_of_mem _ ha)
    · exact fun a ha => hid _ (Option.mem_map_of_mem _ ha)
    · exact fun a ha => hcost _ (Option.mem_map_of_mem _ ha)
  · intro ⟨⟨hfoundation, htransport, hport, htype, hrport⟩, hgeneration, hid, hcost⟩
    refine ⟨hfoundation, htransport, hport, htype, ?_, ?_, ?_, ?_⟩
    · intro c hc
      obtain ⟨q, hq, rfl⟩ := Option.map_eq_some_iff.mp hc
      exact hrport q hq
    · simpa [Line.groups] using hgeneration
    · simpa [Line.groups] using hid
    · simpa [Line.groups] using hcost

/-- A greedy reading that no match comes before is the one that is converted. -/
theorem parse_of_reading {s p t : Text} {l : Line} (hl : l.WellFormed) (hg : l.Greedy t)
    (hs : s = p ++ l.write t)
    (hfirst : ∀ p' w' t', s = p' ++ (w' ++ t') → w' ∈ masterRegex.language →
      p.length ≤ p'.length) : parse s = convertGroups (l.groups t) := by
  have hmem := mem_language_master.mpr ⟨l, hl, rfl⟩
  have hsplit : s = p ++ (l.write [] ++ t) := by rw [hs, l.write_append t]
  have hmatch : (search masterRegex s).isSome = true :=
    search_isSome_iff.mpr ⟨_, hmem, p, t, by rw [hsplit, List.append_assoc]⟩
  obtain ⟨g, hsearch⟩ := Option.isSome_iff_exists.mp hmatch
  obtain ⟨l', p', t', hl', hg', rfl, hlong⟩ := reading_of_search hsearch
  have hlen : p.length = p'.length :=
    le_antisymm (hfirst p' _ t' hlong.split hlong.mem) (hlong.first p _ t hsplit hmem)
  have hwrite : s = p' ++ l'.write t' := by rw [hlong.split, l'.write_append t']
  obtain ⟨rfl, heq⟩ := List.append_inj (hs.symm.trans hwrite) hlen
  obtain ⟨rfl, rfl⟩ := greedy_unique hl hl' hg hg' heq
  exact parse_of_search hsearch

end Spitfire.Ice
