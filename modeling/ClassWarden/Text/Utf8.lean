/-!
# Lenient UTF-8 decoding

Bytes of unknown origin become text without ever failing: every maximal piece
that cannot start or continue a well-formed sequence is replaced by one
U+FFFD.  The decoder is a machine with at most one unfinished sequence in
hand; the range allowed for the next byte excludes overlong forms, surrogates
and values above U+10FFFF as soon as they can be told apart.
-/

namespace ClassWarden.Utf8

def replacement : Char := '\uFFFD'

/-- A sequence whose first bytes are read: their value so far, how many bytes
are still due, and the range that the next one must fall into. -/
structure Unfinished where
  value : Nat
  due : Nat
  low : UInt8
  high : UInt8
  deriving DecidableEq, Repr

inductive Opening where
  | scalar (char : Char)
  | sequence (unfinished : Unfinished)
  deriving DecidableEq, Repr

/-- A byte that opens no sequence counts as a replaced piece of its own. -/
def opening (byte : UInt8) : Opening :=
  let value := byte.toNat
  if byte < 0x80 then .scalar (Char.ofNat value)
  else if byte < 0xC2 then .scalar replacement
  else if byte < 0xE0 then .sequence ⟨value - 0xC0, 1, 0x80, 0xBF⟩
  else if byte = 0xE0 then .sequence ⟨0, 2, 0xA0, 0xBF⟩
  else if byte = 0xED then .sequence ⟨0xD, 2, 0x80, 0x9F⟩
  else if byte < 0xF0 then .sequence ⟨value - 0xE0, 2, 0x80, 0xBF⟩
  else if byte = 0xF0 then .sequence ⟨0, 3, 0x90, 0xBF⟩
  else if byte < 0xF4 then .sequence ⟨value - 0xF0, 3, 0x80, 0xBF⟩
  else if byte = 0xF4 then .sequence ⟨4, 3, 0x80, 0x8F⟩
  else .scalar replacement

/-- The sequence after one more byte of its allowed range. -/
def Unfinished.extend (unfinished : Unfinished) (byte : UInt8) : Opening :=
  let value := 64 * unfinished.value + byte.toNat % 64
  if unfinished.due ≤ 1 then .scalar (Char.ofNat value)
  else .sequence ⟨value, unfinished.due - 1, 0x80, 0xBF⟩

/-- Decodes the bytes that follow an unfinished sequence, if there is one.  A
byte outside the allowed range ends the sequence as a replaced piece and is
looked at again as the start of the next one. -/
def decodeFrom : Option Unfinished → List UInt8 → List Char
  | none, [] => []
  | some _, [] => [replacement]
  | none, byte :: rest =>
    match opening byte with
    | .scalar char => char :: decodeFrom none rest
    | .sequence next => decodeFrom (some next) rest
  | some unfinished, byte :: rest =>
    if unfinished.low ≤ byte ∧ byte ≤ unfinished.high then
      match unfinished.extend byte with
      | .scalar char => char :: decodeFrom none rest
      | .sequence next => decodeFrom (some next) rest
    else
      match opening byte with
      | .scalar char => replacement :: char :: decodeFrom none rest
      | .sequence next => replacement :: decodeFrom (some next) rest

def decode (bytes : List UInt8) : String :=
  String.ofList (decodeFrom none bytes)

end ClassWarden.Utf8
