/-! # Whole numbers in text

An unsigned number is written with ASCII digits, possibly after one plus sign; leading zeros are
allowed and no other character is.  `natural?` reads such a text and `bounded?` also refuses
numbers above a bound. -/

namespace Enclave.Text

/-- The value of a sequence of decimal digits that follows `value`. -/
def digitsFrom (value : Nat) : List Char → Option Nat
  | [] => some value
  | c :: rest => if c.isDigit then digitsFrom (10 * value + (c.toNat - 48)) rest else none

/-- The number that a text of digits after an optional plus sign stands for. -/
def natural? (text : List Char) : Option Nat :=
  match text with
  | [] => none
  | '+' :: [] => none
  | '+' :: digits => digitsFrom 0 digits
  | digits => digitsFrom 0 digits

/-- A number that is at most `bound`. -/
def bounded? (bound : Nat) (text : String) : Option Nat :=
  match natural? text.toList with
  | some n => if n ≤ bound then some n else none
  | none => none

/-- The greatest number of seconds that a setting can hold. -/
def maxSeconds : Nat := UInt64.size - 1

/-- A number of seconds. -/
def seconds? (text : String) : Option Nat :=
  bounded? maxSeconds text

end Enclave.Text
