import Enclave.Decimal.Fixed

/-! # Shortest decimal text of a binary floating-point number

A positive number with a 53-bit mantissa is written with the fewest decimal digits that read back
as the same number; among candidates of that length the nearest one is taken, and of two equally
near ones the greater.  The text is always positional: no exponent is written, and an integer has no
decimal point. -/

namespace Enclave.Decimal

/-- The number `mantissa * 2 ^ exponent`. -/
structure Binary64 where
  mantissa : Nat
  exponent : Int
deriving Repr, DecidableEq

namespace Binary64

/-- `num / (den * base ^ exponent)` as a quotient of natural numbers. -/
def scaleDown (base num den : Nat) (exponent : Int) : Nat × Nat :=
  if 0 ≤ exponent then (num, den * Nat.pow base exponent.toNat)
  else (num * Nat.pow base (-exponent).toNat, den)

/-- Numerator and denominator of the number. -/
def ratio (x : Binary64) : Nat × Nat :=
  scaleDown 2 x.mantissa 1 (-x.exponent)

/-- The exponent that gives the quotient a mantissa of 53 bits. -/
def exponentFor (num den : Nat) : Int :=
  let guess : Int := (Nat.log2 num : Int) - (Nat.log2 den : Int) - 52
  let (n, d) := scaleDown 2 num den guess
  let exponent := if n / d < Nat.pow 2 52 then guess - 1 else guess
  max exponent (-1074)

/-- The floating-point number nearest to a quotient; of two equally near ones the one with an even
mantissa. -/
def ofRatio (num den : Nat) : Binary64 :=
  if num == 0 then ⟨0, 0⟩
  else
    let exponent := exponentFor num den
    let (n, d) := scaleDown 2 num den exponent
    let mantissa := roundDiv n d
    if mantissa == Nat.pow 2 53 then ⟨Nat.pow 2 52, exponent + 1⟩ else ⟨mantissa, exponent⟩

/-- The rounded sum of two floating-point numbers. -/
def add (x y : Binary64) : Binary64 :=
  let (a, b) := x.ratio
  let (c, d) := y.ratio
  ofRatio (a * d + c * b) (b * d)

/-- Whether the decimal number `digits * 10 ^ power` rounds to the number.  The two borders of the
interval of such numbers belong to it when the mantissa is even. -/
def readsBack (x : Binary64) (digits : Nat) (power : Int) : Bool :=
  let (num, den) := scaleDown 10 digits 1 (-power)
  -- borders in units of a quarter of the last place
  let below := if x.mantissa == Nat.pow 2 52 then 1 else 2
  let (n, d) := scaleDown 2 (4 * num) den x.exponent
  let low := (4 * x.mantissa - below) * d
  let high := (4 * x.mantissa + 2) * d
  if x.mantissa % 2 == 0 then low ≤ n && n ≤ high else low < n && n < high

/-- The power of ten of the first digit of a positive quotient. -/
def firstPower (num den : Nat) : Int :=
  let guess : Int := (Nat.toDigits 10 num).length - (Nat.toDigits 10 den).length
  let (n, d) := scaleDown 10 num den guess
  if n < d then guess - 1 else guess

/-- The two decimal numbers with `count` digits next to a positive number, as the last digit's
power of ten and the digits below and above. -/
def neighbours (x : Binary64) (count : Nat) : Int × Nat × Nat :=
  let (num, den) := x.ratio
  let power := firstPower num den - (count - 1)
  let (n, d) := scaleDown 10 num den power
  (power, n / d, n / d + 1)

/-- Whether the lower of the two neighbours is the nearer one. -/
def lowerIsNearer (x : Binary64) (power : Int) (below : Nat) : Bool :=
  let (num, den) := x.ratio
  let (n, d) := scaleDown 10 num den power
  2 * n < (2 * below + 1) * d

/-- The decimal digits and the power of ten of the last one, trying digit counts from `count` on. -/
def shortestFrom (x : Binary64) (count : Nat) : Nat → Nat × Int
  | 0 => let (power, below, _) := neighbours x count; (below, power)
  | fuel + 1 =>
      let (power, below, above) := neighbours x count
      match readsBack x below power, readsBack x above power with
      | true, true => if lowerIsNearer x power below then (below, power) else (above, power)
      | true, false => (below, power)
      | false, true => (above, power)
      | false, false => shortestFrom x (count + 1) fuel

/-- Removes the zeros at the end of the digits. -/
def dropZeros (digits : Nat) (power : Int) : Nat → Nat × Int
  | 0 => (digits, power)
  | fuel + 1 =>
      if digits != 0 && digits % 10 == 0 then dropZeros (digits / 10) (power + 1) fuel
      else (digits, power)

/-- The positional text of `digits * 10 ^ power`. -/
def positional (digits : Nat) (power : Int) : String :=
  if 0 ≤ power then toString (digits * Nat.pow 10 power.toNat)
  else
    let places := (-power).toNat
    s!"{digits / Nat.pow 10 places}." ++ padded places (digits % Nat.pow 10 places)

/-- The shortest text that reads back as the number. -/
def text (x : Binary64) : String :=
  if x.mantissa == 0 then "0"
  else
    let (digits, power) := shortestFrom x 1 17
    let (digits, power) := dropZeros digits power 20
    positional digits power

end Binary64

end Enclave.Decimal
