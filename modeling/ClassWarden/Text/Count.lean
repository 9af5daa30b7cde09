/-!
# Counts

Numbers from zero to the largest 64-bit word in decimal digits.  One plus sign
may stand in front and zeros may lead; nothing else is accepted.
-/

namespace ClassWarden.Count

inductive Fault where
  | empty
  | digit
  | tooLarge
  deriving DecidableEq, Repr

def Fault.message : Fault → String
  | empty => "cannot parse integer from empty string"
  | digit => "invalid digit found in string"
  | tooLarge => "number too large to fit in target type"

/-- Counts are below this number. -/
def bound : Nat := UInt64.size

/-- The count whose first digits gave `value`.  Digits are read from the left,
and the first one that is wrong or leads too far decides. -/
def readDigits (value : Nat) : List Char → Except Fault Nat
  | [] => .ok value
  | char :: rest =>
    if '0' ≤ char ∧ char ≤ '9' then
      let value := 10 * value + (char.toNat - '0'.toNat)
      if value < bound then readDigits value rest else .error .tooLarge
    else .error .digit

/-- The count that a text stands for. -/
def parse (text : String) : Except Fault Nat :=
  match text.toList with
  | [] => .error .empty
  | ['+'] => .error .digit
  | '+' :: digits => readDigits 0 digits
  | digits => readDigits 0 digits

end ClassWarden.Count
