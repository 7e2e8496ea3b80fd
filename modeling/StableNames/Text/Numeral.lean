-- Decimal numerals below a limit. One plus sign may lead. The digits are
-- read from the left and the first fault met is the one reported, so a
-- number that grows too large hides a letter further right.

namespace StableNames.Text

inductive NumeralFault where
  | empty
  | invalidDigit
  | tooLarge
deriving DecidableEq, Repr

def NumeralFault.message : NumeralFault → String
  | .empty => "cannot parse integer from empty string"
  | .invalidDigit => "invalid digit found in string"
  | .tooLarge => "number too large to fit in target type"

/-- The value of a decimal digit. -/
def digit? (c : Char) : Option Nat :=
  if '0' ≤ c ∧ c ≤ '9' then some (c.toNat - '0'.toNat) else none

/-- The value of the digits after a part that is worth `value`. -/
def readDigits (limit value : Nat) : List Char → Except NumeralFault Nat
  | [] => .ok value
  | c :: rest =>
    match digit? c with
    | none => .error .invalidDigit
    | some d =>
      if 10 * value + d < limit then readDigits limit (10 * value + d) rest
      else .error .tooLarge

/-- The value of a numeral, if it is below `limit`. -/
def readNumeral (limit : Nat) : List Char → Except NumeralFault Nat
  | [] => .error .empty
  | ['+'] => .error .invalidDigit
  | '+' :: digits => readDigits limit 0 digits
  | digits => readDigits limit 0 digits

/-- Counters are kept in words of 32 bits. -/
def wordLimit : Nat := UInt32.size

/-- Choices are read as words of 64 bits. -/
def longLimit : Nat := UInt64.size

end StableNames.Text
