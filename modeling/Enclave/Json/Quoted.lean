/-! # Strings in JSON

`encode` writes a text between quotes: the quote, the backslash and the control characters are
escaped, all other characters stand for themselves.  `units` reads the inside of a string up to the
closing quote as code units, and `text?` pairs the surrogates among them. -/

namespace Enclave.Json

/-- A hexadecimal digit in lower case. -/
def hexDigit (n : Nat) : Char := Nat.digitChar (n % 16)

/-- The escaped form of a character inside a string. -/
def escape (c : Char) : List Char :=
  match c with
  | '"' => ['\\', '"']
  | '\\' => ['\\', '\\']
  | '\n' => ['\\', 'n']
  | '\r' => ['\\', 'r']
  | '\t' => ['\\', 't']
  | c =>
      if c.toNat = 0x08 then ['\\', 'b']
      else if c.toNat = 0x0C then ['\\', 'f']
      else if c.toNat < 0x20 then
        ['\\', 'u', '0', '0', hexDigit (c.toNat / 16), hexDigit (c.toNat % 16)]
      else [c]

/-- A text between quotes. -/
def encode (text : List Char) : List Char :=
  '"' :: text.flatMap escape ++ ['"']

/-- The value of a hexadecimal digit in either letter case. -/
def hexValue? (c : Char) : Option Nat :=
  if '0' ≤ c && c ≤ '9' then some (c.toNat - 48)
  else if 'a' ≤ c && c ≤ 'f' then some (c.toNat - 87)
  else if 'A' ≤ c && c ≤ 'F' then some (c.toNat - 55)
  else none

/-- The number that four hexadecimal digits denote. -/
def hexNumber? (a b c d : Char) : Option Nat := do
  let a ← hexValue? a
  let b ← hexValue? b
  let c ← hexValue? c
  let d ← hexValue? d
  return ((a * 16 + b) * 16 + c) * 16 + d

/-- The character that a backslash and a letter denote. -/
def unescape? : Char → Option Nat
  | '"' => some 0x22
  | '\\' => some 0x5C
  | '/' => some 0x2F
  | 'b' => some 0x08
  | 'f' => some 0x0C
  | 'n' => some 0x0A
  | 'r' => some 0x0D
  | 't' => some 0x09
  | _ => none

/-- The code units up to the closing quote, and the rest after it.  Control characters must be
escaped. -/
def units : List Char → Option (List Nat × List Char)
  | [] => none
  | '"' :: rest => some ([], rest)
  | '\\' :: 'u' :: a :: b :: c :: d :: rest =>
      match hexNumber? a b c d, units rest with
      | some n, some (text, after) => some (n :: text, after)
      | _, _ => none
  | '\\' :: e :: rest =>
      match unescape? e, units rest with
      | some n, some (text, after) => some (n :: text, after)
      | _, _ => none
  | c :: rest =>
      if c.toNat < 0x20 then none
      else match units rest with
        | some (text, after) => some (c.toNat :: text, after)
        | none => none

/-- Whether a unit is the first half of a surrogate pair. -/
def isHighHalf (n : Nat) : Bool := 0xD800 ≤ n && n < 0xDC00

/-- Whether a unit is the second half of a surrogate pair. -/
def isLowHalf (n : Nat) : Bool := 0xDC00 ≤ n && n < 0xE000

/-- The text of code units, or `none` if half of a surrogate pair stands alone. -/
def unitsText? : List Nat → Option (List Char)
  | [] => some []
  | high :: low :: rest =>
      if isHighHalf high && isLowHalf low then
        (unitsText? rest).map (Char.ofNat (0x10000 + (high - 0xD800) * 0x400 + (low - 0xDC00)) :: ·)
      else if isHighHalf high || isLowHalf high then none
      else (unitsText? (low :: rest)).map (Char.ofNat high :: ·)
  | [n] => if isHighHalf n || isLowHalf n then none else some [Char.ofNat n]

end Enclave.Json
