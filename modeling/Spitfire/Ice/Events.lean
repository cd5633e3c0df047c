import Spitfire.Conductor.Trickle
import Spitfire.Ice.Serialization

/-! A candidate on its way through the two halves of the library: written by WebRTC as bytes,
handed over as C strings, and read by the parser as a managed string. -/
namespace Spitfire.Ice
open Conductor

def isAsciiByte (b : UInt8) : Bool := decide (0 < b.toNat) && decide (b.toNat < 128)

theorem isAsciiByte_iff {b : UInt8} : isAsciiByte b = true ↔ 0 < b.toNat ∧ b.toNat < 128 := by
  simp [isAsciiByte]

/-- Marshalling by a code page. All of them agree on ASCII, in both directions. Nothing is asked
of what lies beyond: a byte there may begin a longer character, or be lost. -/
structure CodePage extends Marshalling Text where
  toManaged_ascii : ∀ bytes : List UInt8, bytes.all isAsciiByte = true →
    toManaged bytes = bytes.map UInt8.toUInt16
  toNative_ascii : ∀ bytes : List UInt8, bytes.all isAsciiByte = true →
    toNative (bytes.map UInt8.toUInt16) = bytes

def isPrintable (c : CodeUnit) : Bool := within ' ' '~' c

theorem isPrintable_iff {c : CodeUnit} : isPrintable c = true ↔ 32 ≤ c.toNat ∧ c.toNat ≤ 126 := by
  simp [isPrintable, within]

theorem decimal_printable (n : Nat) : (decimal n).all isPrintable = true := by
  refine List.all_eq_true.mpr fun c hc => isPrintable_iff.mpr ?_
  have := isAsciiDigit_iff.mp (decimal_digits c hc)
  omega

theorem hostName_printable {w : Text} (h : HostName w) : w.all isPrintable = true := by
  obtain ⟨l, m, ls, hall, rfl⟩ := h
  refine List.all_eq_true.mpr fun c hc => ?_
  rcases mem_intercalate hc with rfl | ⟨x, hx, hc⟩
  · decide
  · rcases (hall x hx).1 c hc with hc | rfl
    · rw [isPrintable_iff]
      simp [isLetterOrDigit, isDomainChar, within] at hc
      omega
    · decide

theorem written_printable {w : Text} (h : Written w) : w.all isPrintable = true := by
  rcases h with ⟨a, b, c, d, ⟨ha, hb, hc, hd⟩, rfl⟩ | h | h
  · have hdot : isPrintable (unit '.') = true := by decide
    have hoctet {v : Text} (hv : Octet v) : v.all isPrintable = true := by
      refine List.all_eq_true.mpr fun c hc => isPrintable_iff.mpr ?_
      have := isAsciiDigit_iff.mp (hv.1 c hc)
      omega
    simp only [List.all_append, List.all_cons, hoctet ha, hoctet hb, hoctet hc, hoctet hd, hdot,
      Bool.and_self]
  · refine List.all_eq_true.mpr fun c hc => isPrintable_iff.mpr ?_
    have := hexOrColon_ascii (hexOrColon_of_ipv6Text h c hc)
    omega
  · exact hostName_printable (hostName_of_domain h)

theorem serialise_printable (r : CandidateRecord) : r.serialise.all isPrintable = true := by
  have haddress := written_printable r.address_written
  have htransport : (transportName r.transport).all isPrintable = true := by
    cases r.transport <;> decide
  have htype : (typeName r.type).all isPrintable = true := by cases r.type <;> decide
  unfold CandidateRecord.serialise
  simp only [List.all_append, Bool.and_eq_true, and_assoc]
  refine ⟨by decide, decimal_printable _, by decide, decimal_printable _, by decide, htransport,
    by decide, decimal_printable _, by decide, haddress, by decide, decimal_printable _, by decide,
    htype, ?_, by decide, decimal_printable _, ?_, ?_, ?_⟩
  · cases hq : r.related with
    | none => rfl
    | some q =>
      simp only [List.all_append, Bool.and_eq_true, and_assoc]
      exact ⟨by decide, written_printable (r.related_written q hq).1, by decide,
        decimal_printable _⟩
  · cases hw : r.ufrag with
    | none => rfl
    | some w =>
      simp only [List.all_append, Bool.and_eq_true]
      refine ⟨by decide, List.all_eq_true.mpr fun c hc => isPrintable_iff.mpr ?_⟩
      have := iceChar_ascii ((r.ufrag_chars w hw).2 c hc)
      omega
  · cases r.networkId with
    | none => rfl
    | some n =>
      simp only [List.all_append, Bool.and_eq_true]
      exact ⟨by decide, decimal_printable n⟩
  · cases r.networkCost with
    | none => rfl
    | some n =>
      simp only [List.all_append, Bool.and_eq_true]
      exact ⟨by decide, decimal_printable n⟩

/-- The bytes of a text that has one for each character. -/
def narrow (t : Text) : List UInt8 := t.map UInt16.toUInt8

section
variable {t : Text} (ht : t.all isPrintable = true)
include ht

theorem narrow_ascii : (narrow t).all isAsciiByte = true := by
  refine List.all_eq_true.mpr fun b hb => isAsciiByte_iff.mpr ?_
  obtain ⟨c, hc, rfl⟩ := List.mem_map.mp hb
  have := isPrintable_iff.mp (List.all_eq_true.mp ht c hc)
  rw [UInt16.toNat_toUInt8]
  omega

theorem cString_narrow : cString (narrow t) = narrow t :=
  cString_eq_self_iff.mpr fun h => by
    have := List.all_eq_true.mp (narrow_ascii ht) 0 h
    simp [isAsciiByte] at this

theorem widen_narrow : (narrow t).map UInt8.toUInt16 = t := by
  have hpoint (c : CodeUnit) (hc : c ∈ t) : (UInt8.toUInt16 ∘ UInt16.toUInt8) c = c := by
    have := isPrintable_iff.mp (List.all_eq_true.mp ht c hc)
    apply UInt16.toNat_inj.mp
    simp only [Function.comp_apply, UInt8.toNat_toUInt16, UInt16.toNat_toUInt8]
    omega
  rw [narrow, List.map_map, List.map_congr_left hpoint, List.map_id']

theorem CodePage.ofCString_narrow (m : CodePage) : m.ofCString (narrow t) = t := by
  rw [Marshalling.ofCString, cString_narrow ht, m.toManaged_ascii _ (narrow_ascii ht),
    widen_narrow ht]

theorem CodePage.toNative_printable (m : CodePage) : m.toNative t = narrow t := by
  have h := m.toNative_ascii _ (narrow_ascii ht)
  rwa [widen_narrow ht] at h

end

/-- A candidate that WebRTC writes is read back by the parser from the event that reports it,
and goes on to the other side byte for byte. Since its text is ASCII, this holds with any code
page, also with one that loses other texts. -/
theorem reported_candidate_read (m : CodePage) (r : CandidateRecord) {c : Gathered}
    (hc : c.toString = some (narrow r.serialise)) :
    ∃ e, handleIceCandidate m.toMarshalling c = some e ∧ e.sdpIndex = c.sdpMLineIndex ∧
      parse e.sdp = .ok (r.candidate r.serialise) ∧
      (e.text m.toMarshalling).sdp = narrow r.serialise := by
  have hprintable := serialise_printable r
  refine ⟨_, by rw [handleIceCandidate, hc, Option.map_some], rfl, ?_, ?_⟩
  · rw [m.ofCString_narrow hprintable, parse_written]
  · show m.toNative (m.ofCString (narrow r.serialise)) = narrow r.serialise
    rw [m.ofCString_narrow hprintable, m.toNative_printable hprintable]

/-- The code page of ASCII alone, which puts a question mark for everything else. -/
def usAscii : CodePage where
  toManaged := List.map fun b => if b.toNat < 128 then b.toUInt16 else unit '?'
  toNative := List.map fun c => if c.toNat < 128 then c.toUInt8 else 63
  toManaged_ascii _ h := List.map_congr_left fun b hb =>
    if_pos (isAsciiByte_iff.mp (List.all_eq_true.mp h b hb)).2
  toNative_ascii bytes h := by
    have hpoint (b : UInt8) (hb : b ∈ bytes) :
        (if b.toUInt16.toNat < 128 then b.toUInt16.toUInt8 else 63) = b := by
      rw [UInt8.toNat_toUInt16, UInt8.toUInt8_toUInt16,
        if_pos (isAsciiByte_iff.mp (List.all_eq_true.mp h b hb)).2]
    rw [List.map_map]
    exact (List.map_congr_left hpoint).trans (List.map_id' bytes)

theorem reported_candidate_read_srflx :
    ¬usAscii.Lossless ∧ ∃ e, handleIceCandidate usAscii.toMarshalling
        ⟨[48], 0, some (narrow srflxRecord.serialise)⟩ = some e ∧ e.sdpIndex = 0 ∧
      parse e.sdp = .ok (srflxRecord.candidate srflxRecord.serialise) ∧
      (e.text usAscii.toMarshalling).sdp = narrow srflxRecord.serialise := by
  refine ⟨fun hm => ?_, reported_candidate_read usAscii srflxRecord rfl⟩
  cases hm [233] (by decide)

end Spitfire.Ice
