/-! # JSON values

A number is kept as it is written.  A string may be written with escapes that denote half of a
surrogate pair; such a string denotes no text. -/

namespace Enclave.Json

/-- A JSON value. -/
inductive Value
  | null
  | bool (value : Bool)
  | number (literal : String)
  | string (text : Option String)
  | array (items : List Value)
  | object (members : List (Option String × Value))
deriving Repr, Inhabited

namespace Value

/-- A string with a text. -/
def ofText (text : String) : Value := .string (some text)

/-- A number. -/
def ofNat (n : Nat) : Value := .number (toString n)

/-- An object with the members in the given order. -/
def ofMembers (members : List (String × Value)) : Value :=
  .object (members.map fun (key, value) => (some key, value))

/-- A text, or null where there is none. -/
def ofText? : Option String → Value
  | some text => .ofText text
  | none => .null

/-- A list of texts. -/
def ofTexts (texts : List String) : Value :=
  .array (texts.map .ofText)

/-- The text of a string that denotes one. -/
def text? : Value → Option String
  | .string text => text
  | _ => none

/-- The texts of an array of strings that denote some. -/
def texts? : Value → Option (List String)
  | .array items => items.mapM text?
  | _ => none

end Value
end Enclave.Json
