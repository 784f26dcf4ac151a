import Enclave.Decimal.Fixed
import Enclave.Text.Blank
import Enclave.Time.Instant

/-! # Time stamps

The text of a point in time is a date, the letter `T`, a time of day with as many digits of the
fraction as are needed in groups of three, and the letter `Z`.  Reading is more liberal: blanks may
stand before every number, numbers may be short, and any offset to universal time may be given. -/

namespace Enclave.Instant

open Text

/-! ### Writing -/

/-- The text of a year: four digits, and a sign outside of that range. -/
def yearText (year : Int) : String :=
  if 0 ≤ year ∧ year ≤ 9999 then Decimal.padded 4 year.toNat
  else if 0 ≤ year then "+" ++ Decimal.padded 4 year.toNat
  else "-" ++ Decimal.padded 4 (-year).toNat

/-- The text of a date. -/
def dateText (date : Date) : String :=
  yearText date.year ++ "-" ++ Decimal.padded 2 date.month ++ "-" ++ Decimal.padded 2 date.day

/-- The text of a time of day without its fraction. -/
def clockText (second : Nat) : String :=
  Decimal.padded 2 (second / 3600) ++ ":" ++ Decimal.padded 2 (second / 60 % 60) ++ ":"

/-- The text of a fraction of a second: nothing, or a point and three, six or nine digits. -/
def fractionText (nano : Nat) : String :=
  if nano = 0 then ""
  else if nano % 1000000 = 0 then "." ++ Decimal.padded 3 (nano / 1000000)
  else if nano % 1000 = 0 then "." ++ Decimal.padded 6 (nano / 1000)
  else "." ++ Decimal.padded 9 nano

/-- The second of the minute; a leap second is the sixtieth. -/
def shownSecond (instant : Instant) : Nat :=
  instant.second % 60 + instant.nano / secondNanos

/-- The text of a point in time. -/
def text (instant : Instant) : String :=
  dateText instant.date ++ "T" ++ clockText instant.second ++
    Decimal.padded 2 instant.shownSecond ++ fractionText (instant.nano % secondNanos) ++ "Z"

/-- The text of a point in time for tables, in whole seconds. -/
def tableText (instant : Instant) : String :=
  dateText instant.date ++ " " ++ clockText instant.second ++
    Decimal.padded 2 instant.shownSecond ++ " UTC"

/-! ### Reading -/

/-- The number that digits denote. -/
def digitsValue (digits : List Char) : Nat :=
  digits.foldl (fun n c => 10 * n + (c.toNat - 48)) 0

/-- Splits off at least one digit and at most `most` digits. -/
def digits? (most : Nat) (text : List Char) : Option (List Char × List Char) :=
  let digits := (text.take most).takeWhile Char.isDigit
  if digits = [] then none else some (digits, text.drop digits.length)

/-- Splits off a number of at most two digits, with blanks before it. -/
def number? (text : List Char) : Option (Nat × List Char) :=
  (digits? 2 (trimStart text)).map fun (digits, rest) => (digitsValue digits, rest)

/-- Splits off a year, with blanks before it.  After a sign it may have any number of digits, and
otherwise up to four. -/
def year? (text : List Char) : Option (Int × List Char) :=
  match trimStart text with
  | '-' :: rest =>
      (digits? rest.length rest).map fun (digits, rest) => (-(digitsValue digits : Int), rest)
  | '+' :: rest =>
      (digits? rest.length rest).map fun (digits, rest) => ((digitsValue digits : Int), rest)
  | rest => (digits? 4 rest).map fun (digits, rest) => ((digitsValue digits : Int), rest)

/-- Removes a mark, with blanks before it. -/
def mark? (mark : Char) (text : List Char) : Option (List Char) :=
  match trimStart text with
  | c :: rest => if c = mark then some rest else none
  | [] => none

/-- Splits off a date. -/
def date? (text : List Char) : Option (Date × List Char) := do
  let (year, rest) ← year? text
  let (month, rest) ← number? (← mark? '-' rest)
  let (day, rest) ← number? (← mark? '-' rest)
  return (← Date.ofParts? year month day, rest)

/-- Removes the mark between date and time. -/
def divider? : List Char → Option (List Char)
  | 't' :: rest => some rest
  | 'T' :: rest => some rest
  | ' ' :: rest => some rest
  | _ => none

/-- Splits off a fraction of a second, if there is one, in nanoseconds.  Only the first nine digits
count. -/
def fraction? (text : List Char) : Option (Nat × List Char) :=
  match text with
  | '.' :: rest =>
      (digits? 9 rest).map fun (digits, rest) =>
        (digitsValue digits * Nat.pow 10 (9 - digits.length), rest.dropWhile Char.isDigit)
  | _ => some (0, text)

/-- The second of the day and the nanoseconds that hour, minute, second and fraction denote.  The
sixtieth second is a leap second. -/
def timeOfDay? (hour minute second nano : Nat) : Option (Nat × Nat) :=
  if 24 ≤ hour ∨ 60 ≤ minute ∨ 61 ≤ second then none
  else if second = 60 then some (3600 * hour + 60 * minute + 59, nano + secondNanos)
  else some (3600 * hour + 60 * minute + second, nano)

/-- Splits off a time of day. -/
def time? (text : List Char) : Option ((Nat × Nat) × List Char) := do
  let (hour, rest) ← number? text
  let (minute, rest) ← number? (← mark? ':' rest)
  let (second, rest) ← number? (← mark? ':' rest)
  let (nano, rest) ← fraction? rest
  return (← timeOfDay? hour minute second nano, rest)

/-- The number that two digits denote. -/
def twoDigits? : List Char → Option (Nat × List Char)
  | a :: b :: rest =>
      if a.isDigit && b.isDigit then some (digitsValue [a, b], rest) else none
  | _ => none

/-- Splits off hours and minutes of an offset, in minutes. -/
def offsetMinutes? (text : List Char) : Option (Nat × List Char) := do
  let (hours, rest) ← twoDigits? text
  let (minutes, rest) ← twoDigits? (rest.dropWhile fun c => c == ':' || isBlank c)
  if 60 ≤ minutes ∨ 24 ≤ hours then none else return (60 * hours + minutes, rest)

/-- The minus sign of mathematics. -/
def minusSign : Char := '\u2212'

/-- Splits off an offset to universal time in minutes. -/
def offset? (text : List Char) : Option (Int × List Char) :=
  if (text.take 3).map Char.toLower = ['u', 't', 'c'] then some (0, text.drop 3)
  else match text with
    | [] => none
    | c :: rest =>
        if c = 'z' ∨ c = 'Z' then some (0, rest)
        else if c = '+' then
          (offsetMinutes? rest).map fun (minutes, rest) => ((minutes : Int), rest)
        else if c = '-' ∨ c = minusSign then
          (offsetMinutes? rest).map fun (minutes, rest) => (-(minutes : Int), rest)
        else none

/-- The point in time that a text denotes. -/
def parse? (text : String) : Option Instant := do
  let (date, rest) ← date? text.toList
  let ((second, nano), rest) ← time? (← divider? rest)
  let (minutes, rest) ← offset? (trimStart rest)
  if trimStart rest = [] then ofLocal? date second nano minutes else none

end Enclave.Instant
