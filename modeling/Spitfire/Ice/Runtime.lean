import Mathlib.Algebra.Ring.Int.Defs
import Mathlib.Algebra.Ring.Nat

/-! The parts of the .NET class library that the candidate parser calls, on strings
of UTF-16 code units and under the invariant culture's signs and casing. -/
namespace Spitfire.Ice

abbrev CodeUnit := UInt16
abbrev Text := List CodeUnit

def unit (c : Char) : CodeUnit := c.toNat.toUInt16

/-- Source literals; all of them lie in the basic multilingual plane. -/
def text (s : String) : Text := s.toList.map unit

def within (lo hi : Char) (c : CodeUnit) : Bool := lo.toNat ≤ c.toNat && c.toNat ≤ hi.toNat

def isAsciiDigit (c : CodeUnit) : Bool := within '0' '9' c

/-- `char.IsWhiteSpace`, which is also the class `\s`. -/
def isWhiteSpace (c : CodeUnit) : Bool :=
  (9 ≤ c.toNat && c.toNat ≤ 13) || c.toNat = 0x20 || c.toNat = 0x85 || c.toNat = 0xA0 ||
    c.toNat = 0x1680 || (0x2000 ≤ c.toNat && c.toNat ≤ 0x200A) || c.toNat = 0x2028 ||
    c.toNat = 0x2029 || c.toNat = 0x202F || c.toNat = 0x205F || c.toNat = 0x3000

/-- The zeros of the runs of decimal digits among single code units. -/
def decimalZeros : List Nat :=
  [0x30, 0x660, 0x6F0, 0x7C0, 0x966, 0x9E6, 0xA66, 0xAE6, 0xB66, 0xBE6, 0xC66, 0xCE6, 0xD66,
    0xDE6, 0xE50, 0xED0, 0xF20, 0x1040, 0x1090, 0x17E0, 0x1810, 0x1946, 0x19D0, 0x1A80, 0x1A90,
    0x1B50, 0x1BB0, 0x1C40, 0x1C50, 0xA620, 0xA8D0, 0xA900, 0xA9D0, 0xA9F0, 0xAA50, 0xABF0, 0xFF10]

/-- Unicode category Nd, the class `\d`. -/
def isDecimalDigit (c : CodeUnit) : Bool :=
  decimalZeros.any fun z => z ≤ c.toNat && c.toNat ≤ z + 9

inductive Exception where
  | formatException (message : Text)
  | overflowException (message : Text)
  | indexOutOfRangeException (message : Text)
  | dataException (message : Text)
  deriving DecidableEq, Repr

def Exception.message : Exception → Text
  | .formatException m | .overflowException m | .indexOutOfRangeException m | .dataException m => m

def isNullOrWhiteSpace (s : Text) : Bool := s.all isWhiteSpace

def trim (s : Text) : Text :=
  ((s.dropWhile isWhiteSpace).reverse.dropWhile isWhiteSpace).reverse

/-- Lower-casing of the ASCII letters. The parser lower-cases only matches of its
token expression, and those are ASCII. -/
def toLower (s : Text) : Text :=
  s.map fun c => if within 'A' 'Z' c then c + 32 else c

/-- White space that `NumberStyles.Integer` skips. -/
def isNumberWhite (c : CodeUnit) : Bool := (9 ≤ c.toNat && c.toNat ≤ 13) || c.toNat = 0x20

def decimalValue (digits : Text) : Nat :=
  digits.foldl (fun n d => 10 * n + (d.toNat - 48)) 0

/-- A leading sign; the result is whether it was a minus. -/
def readSign (s : Text) : Bool × Text :=
  match s with
  | [] => (false, [])
  | c :: t => if c = unit '+' then (false, t) else if c = unit '-' then (true, t) else (false, s)

/-- Digits that only white space and then only NULs may follow. -/
def readDigits (s : Text) : Option Text :=
  let digits := s.takeWhile isAsciiDigit
  let tail := (s.dropWhile isAsciiDigit).dropWhile isNumberWhite
  if digits.isEmpty then none
  else if tail.all (fun c => c = 0) then some digits else none

/-- `NumberStyles.Integer`: the sign and the digits. -/
def integerStyle (s : Text) : Option (Bool × Text) :=
  let signed := readSign (s.dropWhile isNumberWhite)
  (readDigits signed.2).map fun digits => (signed.1, digits)

/-- `Parse` of the integer type with the given name and range. -/
def parseInteger (name : String) (min max : Int) (s : Text) : Except Exception Int :=
  match integerStyle s with
  | none => .error (.formatException (text "Input string was not in a correct format."))
  | some (negative, digits) =>
    let value : Int := if negative then -decimalValue digits else decimalValue digits
    if min ≤ value ∧ value ≤ max then .ok value
    else .error (.overflowException
      (text "Value was either too large or too small for " ++ text name ++ text "."))

def ulongParse (s : Text) : Except Exception Nat :=
  (parseInteger "a UInt64" 0 (2 ^ 64 - 1) s).map Int.toNat
def uintParse (s : Text) : Except Exception Nat :=
  (parseInteger "a UInt32" 0 (2 ^ 32 - 1) s).map Int.toNat
def ushortParse (s : Text) : Except Exception Nat :=
  (parseInteger "a UInt16" 0 (2 ^ 16 - 1) s).map Int.toNat
def intParse (s : Text) : Except Exception Int :=
  parseInteger "an Int32" (-2 ^ 31) (2 ^ 31 - 1) s

theorem isAsciiDigit_iff {c : CodeUnit} : isAsciiDigit c = true ↔ 48 ≤ c.toNat ∧ c.toNat ≤ 57 := by
  simp [isAsciiDigit, within]

theorem isWhiteSpace_iff {c : CodeUnit} : isWhiteSpace c = true ↔
    (9 ≤ c.toNat ∧ c.toNat ≤ 13) ∨ c.toNat = 32 ∨ c.toNat = 133 ∨ c.toNat = 160 ∨ c.toNat = 5760 ∨
      (8192 ≤ c.toNat ∧ c.toNat ≤ 8202) ∨ c.toNat = 8232 ∨ c.toNat = 8233 ∨ c.toNat = 8239 ∨
      c.toNat = 8287 ∨ c.toNat = 12288 := by
  simp [isWhiteSpace, or_assoc]

/-- A printable ASCII character is no white space. -/
theorem not_isWhiteSpace_of_ascii {c : CodeUnit} (h : 33 ≤ c.toNat ∧ c.toNat ≤ 126) :
    isWhiteSpace c = false := by
  rw [← Bool.not_eq_true, isWhiteSpace_iff]
  omega

theorem isDecimalDigit_of_ascii {c : CodeUnit} (h : isAsciiDigit c = true) :
    isDecimalDigit c = true := by
  rw [isAsciiDigit_iff] at h
  rw [isDecimalDigit, List.any_eq_true]
  exact ⟨0x30, by decide, by simp; omega⟩

/-- The zeros of the digit runs are too far from the white space for the two to meet. -/
theorem not_isWhiteSpace_of_decimalDigit {c : CodeUnit} (h : isDecimalDigit c = true) :
    isWhiteSpace c = false := by
  obtain ⟨z, hz, hc⟩ := List.any_eq_true.mp h
  simp only [Bool.and_eq_true, decide_eq_true_eq] at hc
  rw [← Bool.not_eq_true, isWhiteSpace_iff]
  have far : ∀ z ∈ decimalZeros,
      z = 48 ∨ (1632 ≤ z ∧ z ≤ 4240) ∨ (6112 ≤ z ∧ z ≤ 7248) ∨ 42528 ≤ z := by decide
  have := far z hz
  omega

end Spitfire.Ice
