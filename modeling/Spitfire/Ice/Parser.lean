import Spitfire.Ice.Runtime
import Spitfire.Regex.Matcher

/-! The candidate parser: its expressions, its two enumeration tables and the loop
that converts the captured groups. -/
namespace Spitfire.Ice
open Regex Pattern

inductive IceType where
  | host | srflx | prflx | relay
  deriving DecidableEq, Repr

inductive IceTransport where
  | tcp | udp
  deriving DecidableEq, Repr

/-- A parsed candidate. Unset strings are null and unset numbers and enumerations
have the value a new object starts with. -/
structure IceCandidate where
  raw : Option Text := none
  foundation : Nat := 0
  componentId : Nat := 0
  transport : IceTransport := .tcp
  priority : Nat := 0
  localIp : Option Text := none
  localPort : Nat := 0
  type : IceType := .host
  remoteIp : Option Text := none
  remotePort : Nat := 0
  generation : Nat := 0
  uFrag : Option Text := none
  networkCost : Int := 0
  networkId : Int := 0
  deriving DecidableEq, Repr

def iceTypeMap : List (Text × IceType) :=
  [(text "host", .host), (text "srflx", .srflx), (text "prflx", .prflx), (text "relay", .relay)]

def iceTransportMap : List (Text × IceTransport) :=
  [(text "udp", .udp), (text "tcp", .tcp)]

def isTokenChar (c : CodeUnit) : Bool :=
  within '0' '9' c || within 'a' 'z' c || within 'A' 'Z' c ||
    (text "-.!%*_+`'~").contains c

def isIceChar (c : CodeUnit) : Bool :=
  within 'a' 'z' c || within 'A' 'Z' c || within '0' '9' c || c = unit '+' || c = unit '/'

def isHexDigit (c : CodeUnit) : Bool := within '0' '9' c || within 'a' 'f' c || within 'A' 'F' c

def isDomainChar (c : CodeUnit) : Bool := within 'a' 'z' c || within '0' '9' c

def isDomainInner (c : CodeUnit) : Bool := isDomainChar c || c = unit '-'

/-- The unescaped dot: any character but a line feed. -/
def isAnyChar (c : CodeUnit) : Bool := c ≠ unit '\n'

def tokenRegex : Pattern CodeUnit := .setLoop isTokenChar 1 none
def iceRegex : Pattern CodeUnit := .setLoop isIceChar 1 none
def componentIdRegex : Pattern CodeUnit := .setLoop isAsciiDigit 1 (some 5)
def priorityRegex : Pattern CodeUnit := .setLoop isAsciiDigit 1 (some 10)

def ipv4AddressRegex : Pattern CodeUnit :=
  seqs [.setLoop isAsciiDigit 1 (some 3), .set isAnyChar, .setLoop isAsciiDigit 1 (some 3),
    .set isAnyChar, .setLoop isAsciiDigit 1 (some 3), .set isAnyChar,
    .setLoop isAsciiDigit 1 (some 3)]

def ipv6AdresssRegex : Pattern CodeUnit :=
  seqs [.opt (.set (· = unit ':')),
    .plus (.seq (.setLoop isHexDigit 0 (some 4)) (.opt (.set (· = unit ':'))))]

def domainRegex : Pattern CodeUnit :=
  seqs [.plus (seqs [.set isDomainChar,
      .opt (.seq (.setLoop isDomainInner 0 (some 61)) (.set isDomainChar)), .set (· = unit '.')]),
    .set isDomainChar, .setLoop isDomainInner 0 (some 61), .set isDomainChar]

def connectAddressRegex : Pattern CodeUnit :=
  .alt ipv4AddressRegex (.alt ipv6AdresssRegex domainRegex)

def portRegex : Pattern CodeUnit := .setLoop isAsciiDigit 1 (some 5)

def space : Pattern CodeUnit := .set isWhiteSpace

/-- From the start of a candidate to the blank before its type. -/
def headItems : List (Pattern CodeUnit) :=
  [.opt (literal (text "a=")), literal (text "candidate:"), .group 1 iceRegex, space,
    .group 2 componentIdRegex, space, .group 3 tokenRegex, space, .group 4 priorityRegex, space,
    .group 5 connectAddressRegex, space, .group 6 portRegex, space, literal (text "typ"), space]

/-- The optional attributes, in the only order in which they are recognised. -/
def tailItems : List (Pattern CodeUnit) :=
  [.opt (seqs [space, literal (text "raddr"), space, .group 8 connectAddressRegex, space,
      literal (text "rport"), space, .group 9 portRegex]),
    .opt (seqs [space, literal (text "generation"), space,
      .group 10 (.setLoop isDecimalDigit 1 none)]),
    .opt (seqs [space, literal (text "ufrag"), space, .group 11 iceRegex]),
    .opt (seqs [space, literal (text "network-id"), space, .group 12 priorityRegex]),
    .opt (seqs [space, literal (text "network-cost"), space, .group 13 priorityRegex])]

def masterRegex : Pattern CodeUnit :=
  .group 0 (seqs (headItems ++ .group 7 tokenRegex :: tailItems))

/-- `Match.Groups.Count`: the expression's groups and the whole match, whether they
took part in the match or not. -/
def groupsCount : Nat := masterRegex.groupNumbers.length

/-- The entry of an enumeration table, or an exception with the key in its message. -/
def lookupOrThrow {α : Type} (table : List (Text × α)) (key : Text) (message : String) :
    Except Exception α :=
  match table.lookup key with
  | some t => .ok t
  | none => .error (.indexOutOfRangeException (text message ++ key))

def getTransportType (transport : Text) : Except Exception IceTransport :=
  lookupOrThrow iceTransportMap (toLower (trim transport)) "Unaware of transport type "

def getIceType (value : Text) : Except Exception IceType :=
  lookupOrThrow iceTypeMap (toLower value) "Unaware of candidate type "

/-- `Group.Value`: a group that took no part in the match has an empty value. -/
def groupValue (g : Groups CodeUnit) (i : Nat) : Text :=
  match g i with
  | some c => c.value
  | none => []

/-- The switch in the body of the loop: the field that the group's value sets. -/
def convert (i : Nat) (value : Text) : Except Exception (IceCandidate → IceCandidate) :=
  match i with
  | 0 => .ok fun c => { c with raw := some value }
  | 1 => (ulongParse value).map fun n c => { c with foundation := n }
  | 2 => (uintParse value).map fun n c => { c with componentId := n }
  | 3 => (getTransportType value).map fun t c => { c with transport := t }
  | 4 => (ulongParse value).map fun n c => { c with priority := n }
  | 5 => .ok fun c => { c with localIp := some value }
  | 6 => (ushortParse value).map fun n c => { c with localPort := n }
  | 7 => (getIceType value).map fun t c => { c with type := t }
  | 8 => .ok fun c => { c with remoteIp := some value }
  | 9 => (ushortParse value).map fun n c => { c with remotePort := n }
  | 10 => (uintParse value).map fun n c => { c with generation := n }
  | 11 => .ok fun c => { c with uFrag := some value }
  | 12 => (intParse value).map fun n c => { c with networkId := n }
  | 13 => (intParse value).map fun n c => { c with networkCost := n }
  | _ => .ok id

/-- One pass through the loop: blank groups are skipped, and every exception is
rethrown as a `DataException` with the same message. -/
def convertGroup (g : Groups CodeUnit) (c : IceCandidate) (i : Nat) :
    Except Exception IceCandidate :=
  let value := groupValue g i
  if isNullOrWhiteSpace value then .ok c
  else match convert i value with
    | .ok f => .ok (f c)
    | .error e => .error (.dataException e.message)

def convertGroups (g : Groups CodeUnit) : Except Exception IceCandidate :=
  (List.range groupsCount).foldlM (convertGroup g) {}

def parse (candidate : Text) : Except Exception IceCandidate :=
  match search masterRegex candidate with
  | none => .error (.dataException (text "Failed to parse ICE candidate " ++ candidate))
  | some g =>
    if groupsCount ≠ 14 then
      .error (.dataException (text "Failed to parse ICE candidate " ++ candidate))
    else convertGroups g

end Spitfire.Ice
