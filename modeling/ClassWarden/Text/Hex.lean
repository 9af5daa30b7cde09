/-!
# Hexadecimal text

Bytes and words in base sixteen.  A byte is always two digits, so bytes and
their text in lower case determine each other.  Text is read in either case.
-/

namespace ClassWarden.Hex

/-- The two lower-case digits of a byte, high half first. -/
def pair (byte : UInt8) : List Char :=
  [Nat.digitChar (byte.toNat / 16), Nat.digitChar (byte.toNat % 16)]

def encode (bytes : List UInt8) : String :=
  String.ofList (bytes.flatMap pair)

/-- Value of a digit in either letter case. -/
def digitValue? (digit : Char) : Option Nat :=
  if '0' ≤ digit ∧ digit ≤ '9' then some (digit.toNat - '0'.toNat)
  else if 'a' ≤ digit ∧ digit ≤ 'f' then some (digit.toNat - 'a'.toNat + 10)
  else if 'A' ≤ digit ∧ digit ≤ 'F' then some (digit.toNat - 'A'.toNat + 10)
  else none

theorem digitValue?_digitChar {value : Nat} (hvalue : value < 16) :
    digitValue? (Nat.digitChar value) = some value := by
  revert value
  decide

/-- Collects pairs of digits in front of the bytes already read, last one first. -/
def decodeOnto (read : List UInt8) : List Char → Option (List UInt8)
  | [] => some read.reverse
  | [_] => none
  | high :: low :: rest =>
    match digitValue? high, digitValue? low with
    | some h, some l => decodeOnto (UInt8.ofNat (16 * h + l) :: read) rest
    | _, _ => none

def decode? (text : String) : Option (List UInt8) :=
  decodeOnto [] text.toList

/-- A 32-bit word as eight upper-case digits. -/
def word (value : UInt32) : String :=
  let digits := (Nat.toDigits 16 value.toNat).map Char.toUpper
  String.ofList (List.replicate (8 - digits.length) '0' ++ digits)

/-- A number with the fewest lower-case digits. -/
def shortest (value : Nat) : String :=
  String.ofList (Nat.toDigits 16 value)

end ClassWarden.Hex
