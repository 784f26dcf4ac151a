/-! # Patterns

A pattern is a sequence of characters, each of which stands for itself or may be special: a star
matches any text, a question mark any character, and brackets one of several characters. -/

namespace Enclave.Shell

/-- A character of a pattern, and whether it stands for itself. -/
abbrev PatternChar := Char × Bool

/-- A text that stands for itself. -/
def literally (text : List Char) : List PatternChar :=
  text.map (·, true)

/-- A text that may hold special characters. -/
def specially (text : List Char) : List PatternChar :=
  text.map (·, false)

/-- The items between brackets: single characters and ranges. -/
def bracketItems : List PatternChar → List (Char × Char)
  | (a, _) :: ('-', false) :: (b, _) :: rest => (a, b) :: bracketItems rest
  | (a, _) :: rest => (a, a) :: bracketItems rest
  | [] => []

/-- Splits a pattern after an opening bracket at the closing one.  A closing bracket directly after
the opening one belongs to the items. -/
def splitBracket? (pattern : List PatternChar) : Option (List PatternChar × List PatternChar) :=
  let close : PatternChar := (']', false)
  let (lead, rest) := match pattern with
    | (']', false) :: rest => ([close], rest)
    | _ => ([], pattern)
  match rest.dropWhile (· != close) with
  | [] => none
  | _ :: after => some (lead ++ rest.takeWhile (· != close), after)

/-- Whether a character is one of those between brackets. -/
def bracketMatches (items : List PatternChar) (c : Char) : Bool :=
  let holds (items : List PatternChar) : Bool :=
    (bracketItems items).any fun (a, b) => a ≤ c && c ≤ b
  match items with
  | ('!', false) :: rest => !holds rest
  | ('^', false) :: rest => !holds rest
  | _ => holds items

/-- Whether a pattern of at most `fuel` characters matches the whole of a text. -/
def matchesUpTo : Nat → List PatternChar → List Char → Bool
  | _, [], text => text.isEmpty
  | 0, _ :: _, _ => false
  | fuel + 1, (c, false) :: pattern, text =>
      if c = '*' then
        (List.range (text.length + 1)).any fun n => matchesUpTo fuel pattern (text.drop n)
      else match text with
        | [] => false
        | d :: text =>
            if c = '?' then matchesUpTo fuel pattern text
            else if c = '[' then
              match splitBracket? pattern with
              | some (items, pattern) => bracketMatches items d && matchesUpTo fuel pattern text
              | none => c == d && matchesUpTo fuel pattern text
            else c == d && matchesUpTo fuel pattern text
  | _ + 1, (_, true) :: _, [] => false
  | fuel + 1, (c, true) :: pattern, d :: text => c == d && matchesUpTo fuel pattern text

/-- Whether a pattern matches the whole of a text. -/
def isMatch (pattern : List PatternChar) (text : List Char) : Bool :=
  matchesUpTo pattern.length pattern text

/-- Whether a pattern holds a special character. -/
def hasSpecial (pattern : List PatternChar) : Bool :=
  pattern.any fun (c, literal) => !literal && (c == '*' || c == '?' || c == '[')

/-- Whether the pattern matches a front or back part of a text, and the rest without the longest or
shortest such part. -/
def removeMatch (front longest : Bool) (pattern : List PatternChar) (text : List Char) :
    List Char :=
  let sizes := List.range (text.length + 1)
  let sizes := if longest then sizes.reverse else sizes
  match sizes.find? fun n =>
      isMatch pattern (if front then text.take n else text.drop (text.length - n)) with
  | some n => if front then text.drop n else text.take (text.length - n)
  | none => text

end Enclave.Shell
