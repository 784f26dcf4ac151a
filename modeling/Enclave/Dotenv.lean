import Enclave.Text.Blank
import Enclave.Text.Lines
import Enclave.World

/-! # Files of environment variables

A line of a `.env` file assigns a value to a key.  Blank lines, comment lines and lines without `=`
assign nothing.  An unquoted value ends before a `#`; a pair of quotes around a value is removed.
Loading a file sets the variables that are not set and never changes one that is
(`get?_assign_of_text`). -/

namespace Enclave.Dotenv

open Text

/-- The double quote. -/
def doubleQuote : Char := '"'

/-- The single quote. -/
def singleQuote : Char := '\x27'

/-- The word that may stand before a key. -/
def exportWord : List Char := "export ".toList

/-- Removes the word `export` and the blank after it, as often as it stands at the front of at most
`fuel` words. -/
def dropExportUpTo : Nat → List Char → List Char
  | 0, text => text
  | fuel + 1, text =>
      if exportWord.isPrefixOf text then dropExportUpTo fuel (text.drop exportWord.length) else text

/-- Removes the word `export` and the blank after it as often as it stands at the front. -/
def dropExport (text : List Char) : List Char :=
  dropExportUpTo text.length text

/-- The key in the text before the equals sign. -/
def keyOf (text : List Char) : List Char :=
  trim (dropExport (trim text))

/-- Removes a comment.  A `#` does not start a comment if a quote stands before it. -/
def dropComment (value : List Char) : List Char :=
  if value.contains '#' then
    let before := trimEnd (value.takeWhile (· != '#'))
    if before.contains doubleQuote || before.contains singleQuote then value else before
  else value

/-- Whether a text of at least two characters starts and ends with a quote. -/
def isEnclosed (quote : Char) (value : List Char) : Bool :=
  2 ≤ value.length && value.head? == some quote && value.getLast? == some quote

/-- Removes a pair of quotes around a value. -/
def dropQuotes (value : List Char) : List Char :=
  if isEnclosed doubleQuote value || isEnclosed singleQuote value then value.tail.dropLast
  else value

/-- The value in the text after the equals sign. -/
def valueOf (text : List Char) : List Char :=
  dropQuotes (dropComment (trim text))

/-- The key and the value that a line assigns. -/
def parseLine (line : List Char) : Option (List Char × List Char) :=
  let line := trim line
  if line = [] || line.head? == some '#' || !line.contains '=' then none
  else
    let key := keyOf (line.takeWhile (· != '='))
    if key = [] then none else some (key, valueOf (line.dropWhile (· != '=')).tail)

/-- The assignments in a file, in the order of its lines. -/
def parse (text : String) : List (String × String) :=
  (lines text.toList).filterMap fun line =>
    (parseLine line).map fun (key, value) => (String.ofList key, String.ofList value)

/-- Sets a variable unless it has a text as its value already. -/
def assign (env : Environ) (key value : String) : Except Environ.Refusal Environ :=
  if (Environ.text? env key).isSome then .ok env
  else Environ.assign env key (some (Bytes.ofText value))

/-- Performs assignments in order.  The first one that is refused stops it. -/
def assignAll (env : Environ) : List (String × String) → Option Environ.Refusal × Environ
  | [] => (none, env)
  | (key, value) :: rest =>
      match assign env key value with
      | .error refusal => (some refusal, env)
      | .ok env => assignAll env rest

/-- The name of the file. -/
def fileName : String := ".env"

/-- Loads the `.env` file of a directory into the process environment.  A file that cannot be read
as text counts as missing. -/
def load (directory : Path) (world : World) : Option Environ.Refusal × World :=
  let file := directory.child fileName
  match world.readText file with
  | .error _ => (none, world)
  | .ok text =>
      match assignAll world.environ (parse text) with
      | (some refusal, environ) => (some refusal, { world with environ })
      | (none, environ) =>
          (none, { world with environ }.report
            ⟨.debug, .loader, "loaded .env", [("path", file.display)]⟩)

/-! ### Laws -/

/-- A variable that is set to a text is left alone by every assignment. -/
theorem get?_assign_of_text {env env' : Environ} {key value other : String}
    (h : assign env key value = .ok env') (hother : (Environ.text? env other).isSome) :
    env'.get? other = env.get? other := by
  unfold assign at h
  split at h
  · cases h; rfl
  · next hset =>
      unfold Environ.assign at h
      split at h
      · cases h
      · split at h
        · cases h
        · cases h
          rw [Table.get?_put]
          have : (other == key) = false := by
            apply beq_eq_false_iff_ne.mpr
            rintro rfl
            exact hset hother
          simp [this]

end Enclave.Dotenv
