import Enclave.Json.Basic
import Enclave.Json.Quoted

/-! # Writing JSON

`pretty` writes one item or member on a line of its own, indented by two blanks per level.
`compact` writes everything on one line without blanks. -/

namespace Enclave.Json

/-- The characters of a string; one that denotes no text is written as an empty string. -/
def stringChars (text : Option String) : List Char :=
  encode ((text.getD "").toList)

/-- A new line that is indented to a level. -/
def newLine (level : Nat) : List Char :=
  '\n' :: List.replicate (2 * level) ' '

/-- The word for a truth value. -/
def boolChars (value : Bool) : List Char :=
  if value then "true".toList else "false".toList

mutual

/-- A value on lines that are indented to a level. -/
def prettyAt (level : Nat) : Value → List Char
  | .null => "null".toList
  | .bool value => boolChars value
  | .number literal => literal.toList
  | .string text => stringChars text
  | .array [] => "[]".toList
  | .array (item :: items) =>
      '[' :: newLine (level + 1) ++ prettyAt (level + 1) item ++ prettyItems (level + 1) items ++
        newLine level ++ [']']
  | .object [] => ['\x7b', '\x7d']
  | .object ((key, value) :: members) =>
      '\x7b' :: newLine (level + 1) ++ stringChars key ++ ": ".toList ++
        prettyAt (level + 1) value ++ prettyMembers (level + 1) members ++ newLine level ++ ['\x7d']

/-- Further items of an array. -/
def prettyItems (level : Nat) : List Value → List Char
  | [] => []
  | item :: items => ',' :: newLine level ++ prettyAt level item ++ prettyItems level items

/-- Further members of an object. -/
def prettyMembers (level : Nat) : List (Option String × Value) → List Char
  | [] => []
  | (key, value) :: members =>
      ',' :: newLine level ++ stringChars key ++ ": ".toList ++ prettyAt level value ++
        prettyMembers level members

end

mutual

/-- A value on one line. -/
def compactChars : Value → List Char
  | .null => "null".toList
  | .bool value => boolChars value
  | .number literal => literal.toList
  | .string text => stringChars text
  | .array [] => "[]".toList
  | .array (item :: items) => '[' :: compactChars item ++ compactItems items ++ [']']
  | .object [] => ['\x7b', '\x7d']
  | .object ((key, value) :: members) =>
      '\x7b' :: stringChars key ++ ':' :: compactChars value ++ compactMembers members ++ ['\x7d']

/-- Further items of an array on one line. -/
def compactItems : List Value → List Char
  | [] => []
  | item :: items => ',' :: compactChars item ++ compactItems items

/-- Further members of an object on one line. -/
def compactMembers : List (Option String × Value) → List Char
  | [] => []
  | (key, value) :: members =>
      ',' :: stringChars key ++ ':' :: compactChars value ++ compactMembers members

end

/-- A value on indented lines. -/
def pretty (value : Value) : String :=
  String.ofList (prettyAt 0 value)

/-- A value on one line. -/
def compact (value : Value) : String :=
  String.ofList (compactChars value)

end Enclave.Json
