import Enclave.Json.Basic
import Enclave.Json.Quoted

/-! # Reading JSON

`parse?` reads a text that holds exactly one JSON value between blanks.  Nesting may be of any depth
and numbers of any size. -/

namespace Enclave.Json

/-- A blank between the tokens. -/
def isSpace (c : Char) : Bool :=
  c == ' ' || c == '\n' || c == '\t' || c == '\r'

/-- The text after blanks. -/
def skipSpace (text : List Char) : List Char :=
  text.dropWhile isSpace

/-- Removes a fixed word from the front. -/
def word? : List Char → List Char → Option (List Char)
  | [], text => some text
  | c :: word, d :: text => if c = d then word? word text else none
  | _ :: _, [] => none

/-- Splits off at least one digit. -/
def digits? (text : List Char) : Option (List Char × List Char) :=
  match text.takeWhile Char.isDigit with
  | [] => none
  | digits => some (digits, text.dropWhile Char.isDigit)

/-- Splits off the whole part of a number: no zero stands before other digits. -/
def wholePart? (text : List Char) : Option (List Char × List Char) :=
  match digits? text with
  | some ('0' :: _ :: _, _) => none
  | other => other

/-- Splits off the part of a number after the point, if there is one. -/
def fractionPart? (text : List Char) : Option (List Char × List Char) :=
  match text with
  | '.' :: rest => (digits? rest).map fun (digits, rest) => ('.' :: digits, rest)
  | _ => some ([], text)

/-- The sign that may stand before an exponent. -/
def exponentSign (text : List Char) : List Char × List Char :=
  match text with
  | '+' :: rest => (['+'], rest)
  | '-' :: rest => (['-'], rest)
  | _ => ([], text)

/-- Splits off the exponent of a number, if there is one. -/
def exponentPart? (text : List Char) : Option (List Char × List Char) :=
  match text with
  | [] => some ([], [])
  | e :: rest =>
      if e = 'e' ∨ e = 'E' then
        let (sign, rest) := exponentSign rest
        (digits? rest).map fun (digits, rest) => (e :: sign ++ digits, rest)
      else some ([], text)

/-- Splits off a number. -/
def number? (text : List Char) : Option (List Char × List Char) := do
  let (sign, rest) := match text with
    | '-' :: rest => (['-'], rest)
    | _ => ([], text)
  let (whole, rest) ← wholePart? rest
  let (fraction, rest) ← fractionPart? rest
  let (exponent, rest) ← exponentPart? rest
  return (sign ++ whole ++ fraction ++ exponent, rest)

/-- Splits off a string after its opening quote. -/
def string? (text : List Char) : Option (Option String × List Char) :=
  (units text).map fun (units, rest) => ((unitsText? units).map String.ofList, rest)

mutual

/-- Splits off a value, with blanks before it. -/
def value? : Nat → List Char → Option (Value × List Char)
  | 0, _ => none
  | fuel + 1, text =>
      match skipSpace text with
      | [] => none
      | 'n' :: rest => (word? ['u', 'l', 'l'] rest).map (Value.null, ·)
      | 't' :: rest => (word? ['r', 'u', 'e'] rest).map (Value.bool true, ·)
      | 'f' :: rest => (word? ['a', 'l', 's', 'e'] rest).map (Value.bool false, ·)
      | '"' :: rest => (string? rest).map fun (text, rest) => (.string text, rest)
      | '[' :: rest =>
          match skipSpace rest with
          | ']' :: rest => some (.array [], rest)
          | _ => (items? fuel rest).map fun (items, rest) => (.array items, rest)
      | '{' :: rest =>
          match skipSpace rest with
          | '}' :: rest => some (.object [], rest)
          | _ => (members? fuel rest).map fun (members, rest) => (.object members, rest)
      | other =>
          (number? other).map fun (literal, rest) => (.number (String.ofList literal), rest)

/-- Splits off the items of an array up to the closing bracket; there is at least one. -/
def items? : Nat → List Char → Option (List Value × List Char)
  | 0, _ => none
  | fuel + 1, text =>
      match value? fuel text with
      | none => none
      | some (item, rest) =>
          match skipSpace rest with
          | ']' :: rest => some ([item], rest)
          | ',' :: rest => (items? fuel rest).map fun (items, rest) => (item :: items, rest)
          | _ => none

/-- Splits off the members of an object up to the closing brace; there is at least one. -/
def members? : Nat → List Char → Option (List (Option String × Value) × List Char)
  | 0, _ => none
  | fuel + 1, text =>
      match skipSpace text with
      | '"' :: rest =>
          match string? rest with
          | none => none
          | some (key, rest) =>
              match skipSpace rest with
              | ':' :: rest =>
                  match value? fuel rest with
                  | none => none
                  | some (value, rest) =>
                      match skipSpace rest with
                      | '}' :: rest => some ([(key, value)], rest)
                      | ',' :: rest =>
                          (members? fuel rest).map fun (members, rest) =>
                            ((key, value) :: members, rest)
                      | _ => none
              | _ => none
      | _ => none

end

/-- The value that a text holds. -/
def parse? (text : List Char) : Option Value :=
  match value? (text.length + 1) text with
  | some (value, rest) => if skipSpace rest = [] then some value else none
  | none => none

end Enclave.Json
