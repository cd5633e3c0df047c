import Mathlib.Data.List.TakeWhile
import Spitfire.Buffer.Patch
import Spitfire.Conductor.Operations

/-! `AddServerConfig` of the managed class: the URI that it formats for a server, and the
buffer that it formats it in. A `std::string` is a text with a character for every byte. -/
namespace Spitfire.Rtc
open Conductor

inductive ServerType where
  | stun | turn
  deriving DecidableEq, Repr

/-- The strings can be null. -/
structure ServerConfig where
  type : ServerType
  host : Option String
  port : UInt16
  username : Option String
  password : Option String
  deriving DecidableEq, Repr

/-- How a call ends that does not return: with a managed exception, or in the handler for
invalid parameters, which ends the process. -/
inductive ServerFailure where
  | argumentException (message : String) (paramName : Option String)
  | invalidParameter
  deriving DecidableEq, Repr

def IsAscii (s : String) : Prop := s.toList.all (fun c => c.toNat < 128) = true

/-- `marshal_as<std::string>`, which depends on the code page of the thread. In all of them
ASCII text stays what it is. -/
structure AsciiMarshalling where
  marshalAs : String → String
  marshalAs_ascii : ∀ s, IsAscii s → marshalAs s = s

/-- `From` -/
def AsciiMarshalling.fromValue (m : AsciiMarshalling) (value : Option String)
    (defaultValue : String) : String :=
  match value with
  | none => defaultValue
  | some v => m.marshalAs v

/-- What `%hs` reads behind `c_str()`: the text before the first NUL. -/
def cStr (s : String) : String := .ofList (s.toList.takeWhile (· ≠ '\x00'))

def ServerType.scheme : ServerType → String
  | .stun => "stun"
  | .turn => "turn"

/-- The format `"%hs:%hs:%u"`. -/
def formatUri (type : ServerType) (host : String) (port : UInt16) : String :=
  cStr type.scheme ++ ":" ++ cStr host ++ ":" ++ toString port.toNat

/-- `sprintf_s` into an array of this size. The text has to leave room for its terminator. -/
def sprintfS (size : Nat) (text : String) : Except ServerFailure String :=
  if text.length < size then .ok text else .error .invalidParameter

def addServerConfig (m : AsciiMarshalling) (config : Option ServerConfig) (s : State) :
    Except ServerFailure State :=
  match config with
  | none => .error (.argumentException "Missing mandatory argument" (some "config"))
  | some c =>
    if c.host.all String.isEmpty then
      .error (.argumentException "Missing mandatory host argument" none)
    else do
      let uri ← sprintfS 256 (formatUri c.type (m.fromValue c.host "") c.port)
      .ok (Conductor.addServerConfig
        ⟨uri, m.fromValue c.username "", m.fromValue c.password ""⟩ s)

/-- What a server URI should say. -/
def serverUri (type : ServerType) (host : String) (port : UInt16) : String :=
  type.scheme ++ ":" ++ host ++ ":" ++ toString port.toNat

def decimalDigits (port : UInt16) : Nat := (toString port.toNat).length

theorem cStr_eq {s : String} (h : '\x00' ∉ s.toList) : cStr s = s := by
  have hall : s.toList.takeWhile (· ≠ '\x00') = s.toList := by
    apply List.takeWhile_eq_self_iff.mpr
    intro c hc
    have hne : c ≠ '\x00' := fun he => h (he ▸ hc)
    simpa using hne
  rw [cStr, hall, String.ofList_toList]

theorem formatUri_eq (type : ServerType) {host : String} (h : '\x00' ∉ host.toList)
    (port : UInt16) : formatUri type host port = serverUri type host port := by
  have hscheme : cStr type.scheme = type.scheme := by
    apply cStr_eq
    cases type <;> decide
  rw [formatUri, hscheme, cStr_eq h, serverUri]

theorem length_serverUri (type : ServerType) (host : String) (port : UInt16) :
    (serverUri type host port).length = host.length + decimalDigits port + 6 := by
  have hscheme : type.scheme.length = 4 := by cases type <;> rfl
  have hcolon : ":".length = 1 := rfl
  simp only [serverUri, String.length_append, hscheme, hcolon, decimalDigits]
  omega

theorem colon_not_mem_decimal (n : Nat) : ':' ∉ (toString n).toList := by
  intro hmem
  rw [Nat.toString_eq_repr, Nat.toList_repr] at hmem
  have hdigit := Nat.isDigit_of_mem_toDigits (by decide) (by decide) hmem
  exact absurd hdigit (by decide)

/-- The port stands behind the last colon and the scheme before the first one, so a URI
tells which server it was made for, whatever the host is. -/
theorem serverUri_injective {type type' : ServerType} {host host' : String} {port port' : UInt16}
    (h : serverUri type host port = serverUri type' host' port') :
    type = type' ∧ host = host' ∧ port = port' := by
  have hlist : ∀ (type : ServerType) (host : String) (port : UInt16),
      (serverUri type host port).toList.reverse =
        (toString port.toNat).toList.reverse ++
          ':' :: (type.scheme ++ ":" ++ host).toList.reverse := by
    intro type host port
    simp [serverUri]
  have hdigits : ∀ n : Nat, ∀ c ∈ (toString n).toList.reverse, (c == ':') = false := by
    intro n c hc
    have hne : c ≠ ':' := fun he => colon_not_mem_decimal n (he ▸ List.mem_reverse.mp hc)
    simpa using hne
  have hrev := congrArg (fun s => s.toList.reverse) h
  rw [hlist, hlist] at hrev
  -- Read from its end, the text is first cut at the last colon.
  obtain ⟨hport, _, hfront⟩ :=
    Buffer.split_unique (p := (· == ':')) (hdigits _) (hdigits _) rfl rfl hrev
  rw [List.reverse_inj, String.toList_inj] at hport hfront
  have hnat : port.toNat = port'.toNat := by
    have hvalue := congrArg (fun t => Nat.ofDigitChars 10 t.toList 0) hport
    simpa [Nat.toString_eq_repr] using hvalue
  have hscheme : type.scheme.toList ++ ':' :: host.toList =
      type'.scheme.toList ++ ':' :: host'.toList := by
    simpa using congrArg String.toList hfront
  have hnocolon : ∀ type : ServerType, ∀ c ∈ type.scheme.toList, (c == ':') = false := by
    intro type c hc
    have hall : type.scheme.toList.all (fun c => !(c == ':')) = true := by cases type <;> decide
    simpa using List.all_eq_true.mp hall c hc
  obtain ⟨htype, _, hhost⟩ :=
    Buffer.split_unique (p := (· == ':')) (hnocolon _) (hnocolon _) rfl rfl hscheme
  refine ⟨?_, String.toList_inj.mp hhost, UInt16.toNat.inj hnat⟩
  cases type <;> cases type' <;> first | rfl | exact absurd htype (by decide)

section
variable (m : AsciiMarshalling) {c : ServerConfig} {host : String} (hhost : c.host = some host)
  (hne : host ≠ "") (hnul : '\x00' ∉ host.toList) (hascii : IsAscii host) (s : State)
include hhost hne hnul hascii

/-- For a host that is neither missing nor mangled, only the size of the buffer decides. -/
theorem addServerConfig_eq : addServerConfig m (some c) s =
    if host.length + decimalDigits c.port ≤ 249 then
      .ok { s with servers := s.servers ++
        [⟨serverUri c.type host c.port, m.fromValue c.username "", m.fromValue c.password ""⟩] }
    else .error .invalidParameter := by
  have hpresent : ¬ c.host.all String.isEmpty = true := by
    rw [hhost]
    simpa using hne
  have hmarshal : m.fromValue c.host "" = host := by
    rw [hhost]
    exact m.marshalAs_ascii host hascii
  have hlength := length_serverUri c.type host c.port
  rw [addServerConfig, if_neg hpresent, hmarshal, formatUri_eq c.type hnul, sprintfS]
  by_cases hfits : host.length + decimalDigits c.port ≤ 249
  · rw [if_pos hfits, if_pos (by omega)]
    rfl
  · rw [if_neg hfits, if_neg (by omega)]
    rfl

/-- The call adds one server, under a URI from which type, host and port can be told,
exactly when the URI and its terminator fit in 256 bytes. -/
theorem addServerConfig_faithful_iff :
    (∃ server, addServerConfig m (some c) s = .ok { s with servers := s.servers ++ [server] } ∧
      server.uri = serverUri c.type host c.port ∧
      ∀ type' host' port', server.uri = serverUri type' host' port' →
        type' = c.type ∧ host' = host ∧ port' = c.port) ↔
    host.length + decimalDigits c.port ≤ 249 := by
  rw [addServerConfig_eq m hhost hne hnul hascii]
  constructor
  · rintro ⟨server, hadd, _⟩
    by_contra hlong
    rw [if_neg hlong] at hadd
    cases hadd
  · intro hfits
    rw [if_pos hfits]
    exact ⟨_, rfl, rfl, fun _ _ _ h => serverUri_injective h.symm⟩

end

/-- Marshalling where every text is kept. -/
def AsciiMarshalling.identity : AsciiMarshalling := ⟨id, fun _ _ => rfl⟩

theorem addServerConfig_literal_ipv6 :
    ∃ server, addServerConfig .identity (some ⟨.turn, some "[2001:db8::1]", 3478, none, none⟩)
        .constructed = .ok { State.constructed with servers := [server] } ∧
      server.uri = serverUri .turn "[2001:db8::1]" 3478 ∧
      ∀ type' host' port', server.uri = serverUri type' host' port' →
        type' = .turn ∧ host' = "[2001:db8::1]" ∧ port' = 3478 :=
  (addServerConfig_faithful_iff .identity (c := ⟨.turn, some "[2001:db8::1]", 3478, none, none⟩) rfl
    (by decide) (by decide) (show List.all _ _ = true by decide) .constructed).mpr (by decide)

/-- A host name of 249 letters leaves no room for the digit of the port. -/
theorem addServerConfig_long_host_aborts :
    addServerConfig .identity
      (some ⟨.stun, some (.ofList (List.replicate 249 'a')), 1, none, none⟩) .constructed =
      .error .invalidParameter := by
  have hlength : (String.ofList (List.replicate 249 'a')).length = 249 := by
    rw [← String.length_toList, String.toList_ofList, List.length_replicate]
  have hne : String.ofList (List.replicate 249 'a') ≠ "" := by
    intro hempty
    rw [hempty] at hlength
    cases hlength
  have hnul : '\x00' ∉ (String.ofList (List.replicate 249 'a')).toList := by
    rw [String.toList_ofList]
    intro hmem
    exact absurd (List.eq_of_mem_replicate hmem) (by decide)
  have hascii : IsAscii (String.ofList (List.replicate 249 'a')) := by
    rw [IsAscii, String.toList_ofList, List.all_replicate]
    decide
  rw [addServerConfig_eq .identity rfl hne hnul hascii, hlength, if_neg (by decide)]

end Spitfire.Rtc
