import Enclave.Bytes

/-! # Commands of a shell

The language in which small programs are written: words with quoting and expansions, and commands
built from simple commands by pipelines, lists and control structures.  A script is a byte sequence;
its bytes are seen as the characters with the same numbers, so that nothing is lost. -/

namespace Enclave.Shell

/-- The characters with the numbers of the bytes. -/
def ofBytes (bytes : Bytes) : List Char :=
  bytes.map fun b => Char.ofNat b.toNat

/-- The bytes with the numbers of the characters. -/
def toBytes (text : List Char) : Bytes :=
  text.map fun c => UInt8.ofNat c.toNat

/-- The characters of a text in a script. -/
def ofText (text : String) : List Char :=
  ofBytes (Bytes.ofText text)

/-- What a redirection does with its target. -/
inductive Direction
  | read
  | write
  | append
  | duplicate
deriving Repr, DecidableEq, Inhabited

/-- Which part of a value a pattern removes. -/
inductive Side
  | front
  | back
deriving Repr, DecidableEq

mutual

/-- A part of a word. -/
inductive Piece
  /-- Characters that stand for themselves, or for patterns. -/
  | plain (text : List Char)
  /-- Characters that always stand for themselves. -/
  | quoted (text : List Char)
  /-- The value of a parameter. -/
  | parameter (name : List Char) (use : Use) (inQuotes : Bool)
  /-- What a command writes. -/
  | output (command : Command) (inQuotes : Bool)
  /-- The value of a sum of numbers and variables. -/
  | arithmetic (text : List Char) (inQuotes : Bool)

/-- How the value of a parameter is used.  With `orEmpty` an empty value counts as unset. -/
inductive Use
  | value
  | length
  /-- Another word for an unset parameter. -/
  | default (orEmpty : Bool) (word : List Piece)
  /-- A word for a parameter that is set. -/
  | instead (orEmpty : Bool) (word : List Piece)
  /-- Another word, which is assigned too. -/
  | assign (orEmpty : Bool) (word : List Piece)
  /-- A failure for an unset parameter. -/
  | require (orEmpty : Bool) (word : List Piece)
  /-- Removal of the longest or shortest match of a pattern. -/
  | remove (side : Side) (longest : Bool) (pattern : List Piece)

/-- A change of a stream. -/
inductive Redirection
  | mk (stream : Nat) (direction : Direction) (target : List Piece)

/-- A command. -/
inductive Command
  | nothing
  /-- Assignments, words and redirections, and the line on which they stand. -/
  | simple (line : Nat) (assignments : List (List Char × List Piece)) (words : List (List Piece))
      (redirections : List Redirection)
  | pipe (left right : Command)
  | negate (command : Command)
  | both (left right : Command)
  | either (left right : Command)
  | sequence (first second : Command)
  | background (command : Command)
  | group (body : Command)
  | subshell (body : Command)
  | redirected (body : Command) (redirections : List Redirection)
  | choose (condition yes no : Command)
  | select (word : List Piece) (branches : List (List (List Piece) × Command))
  | forEach (name : List Char) (words : Option (List (List Piece))) (body : Command)
  | loop (while_ : Bool) (condition body : Command)
  | define (name : List Char) (body : Command)

end

instance : Inhabited Command := ⟨.nothing⟩

/-- A word. -/
abbrev Word := List Piece

end Enclave.Shell
