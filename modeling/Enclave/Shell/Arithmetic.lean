/-! # Arithmetic

Sums, products and comparisons of whole numbers and of the values of variables. -/

namespace Enclave.Shell.Arithmetic

/-- The text without blanks in front. -/
def skip (text : List Char) : List Char :=
  text.dropWhile Char.isWhitespace

/-- The operators of a level, the loosest first. -/
def operators : Nat → List String
  | 0 => ["==", "!=", "<=", ">=", "<", ">"]
  | 1 => ["+", "-"]
  | _ => ["*", "/", "%"]

/-- The number of levels. -/
def levels : Nat := 3

/-- The value of an operation, if it has one. -/
def operate? (operator : String) (a b : Int) : Option Int :=
  let truth (holds : Bool) : Option Int := some (if holds then 1 else 0)
  match operator with
  | "==" => truth (a == b)
  | "!=" => truth (a != b)
  | "<=" => truth (a ≤ b)
  | ">=" => truth (a ≥ b)
  | "<" => truth (a < b)
  | ">" => truth (a > b)
  | "+" => some (a + b)
  | "-" => some (a - b)
  | "*" => some (a * b)
  | "/" => if b = 0 then none else some (a.tdiv b)
  | _ => if b = 0 then none else some (a.tmod b)

/-- The value of a text that holds a number, or zero. -/
def valueOf (text : List Char) : Int :=
  let number (digits : List Char) : Int :=
    ((digits.takeWhile Char.isDigit).foldl (fun n c => 10 * n + (c.toNat - 48)) 0 : Nat)
  match skip text with
  | '-' :: digits => -(number digits)
  | digits => number digits

mutual

/-- Reads a number, a variable or parentheses. -/
def atom? (lookup : List Char → List Char) : Nat → List Char → Option (Int × List Char)
  | 0, _ => none
  | fuel + 1, text =>
      match skip text with
      | [] => some (0, [])
      | '-' :: rest => (atom? lookup fuel rest).map fun (a, rest) => (-a, rest)
      | '+' :: rest => atom? lookup fuel rest
      | '$' :: rest => atom? lookup fuel rest
      | '(' :: rest =>
          match level? lookup fuel 0 rest with
          | some (a, rest) =>
              match skip rest with
              | ')' :: rest => some (a, rest)
              | _ => none
          | none => none
      | c :: rest =>
          if c.isDigit then
            some (valueOf (c :: rest), rest.dropWhile Char.isDigit)
          else if c.isAlpha || c == '_' then
            let inner := fun (d : Char) => d.isAlphanum || d == '_'
            some (valueOf (lookup (c :: rest.takeWhile inner)), rest.dropWhile inner)
          else none

/-- Reads operations of a level. -/
def level? (lookup : List Char → List Char) : Nat → Nat → List Char → Option (Int × List Char)
  | 0, _, _ => none
  | fuel + 1, level, text =>
      if levels ≤ level then atom? lookup fuel text
      else match level? lookup fuel (level + 1) text with
        | some (a, rest) => more? lookup fuel level a rest
        | none => none

/-- Reads further operations of a level after a first value. -/
def more? (lookup : List Char → List Char) : Nat → Nat → Int → List Char →
    Option (Int × List Char)
  | 0, _, _, _ => none
  | fuel + 1, level, a, text =>
      let text := skip text
      match (operators level).find? fun operator => operator.toList.isPrefixOf text with
      | none => some (a, text)
      | some operator =>
          match level? lookup fuel (level + 1) (text.drop operator.length) with
          | some (b, rest) =>
              match operate? operator a b with
              | some c => more? lookup fuel level c rest
              | none => none
          | none => none

end

/-- The value of an expression. -/
def evaluate? (lookup : List Char → List Char) (text : List Char) : Option Int :=
  match level? lookup (10 * (text.length + 1)) 0 text with
  | some (a, rest) => if skip rest = [] then some a else none
  | none => none

end Enclave.Shell.Arithmetic
