/-!
# Reading unsigned numbers

A numeral is an optional plus sign and one or more digits; its value has to fit into 64 bits.
-/

namespace FiveStage.Text

/-- Why a text is not an unsigned 64-bit number. -/
inductive NumeralError
  /-- there is nothing to read -/
  | empty
  /-- a character is no digit of the base, or a sign stands alone -/
  | invalidDigit
  /-- the value needs more than 64 bits -/
  | tooLarge
  deriving DecidableEq, Repr

/-- One more than the largest number of 64 bits. -/
def numeralLimit : Nat := 0x10000000000000000

/-- The message for a numeral that cannot be read. -/
def NumeralError.message : NumeralError → String
  | .empty => "cannot parse integer from empty string"
  | .invalidDigit => "invalid digit found in string"
  | .tooLarge => "number too large to fit in target type"

/-- The value of a decimal or hexadecimal digit of either case; 16 for any other character. -/
def digitValue (c : Char) : Nat :=
  if '0' ≤ c ∧ c ≤ '9' then c.toNat - '0'.toNat
  else if 'a' ≤ c ∧ c ≤ 'f' then c.toNat - 'a'.toNat + 10
  else if 'A' ≤ c ∧ c ≤ 'F' then c.toNat - 'A'.toNat + 10
  else 16

/-- Reads digits from left to right, starting from the value of those already read. The first fault
from the left is the one reported. -/
def readDigits (base : Nat) : Nat → List Char → Except NumeralError Nat
  | value, [] => .ok value
  | value, c :: rest =>
    if digitValue c < base then
      let value := value * base + digitValue c
      if value < numeralLimit then readDigits base value rest else .error .tooLarge
    else .error .invalidDigit

/-- Reads an unsigned 64-bit number in a base up to 16. -/
def readUnsigned (base : Nat) : List Char → Except NumeralError Nat
  | [] => .error .empty
  | '+' :: rest => if rest.isEmpty then .error .invalidDigit else readDigits base 0 rest
  | digits => readDigits base 0 digits

end FiveStage.Text
