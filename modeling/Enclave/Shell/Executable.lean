import Enclave.Shell.Process

/-! # Finding programs

A file is run as a program of the system or as a script, whose first line names the program that
reads it.  Names without a slash are looked up in the directories of a search path. -/

namespace Enclave.Shell

/-- A program of the system and its arguments, the name it was called by first. -/
structure Invocation where
  program : String
  arguments : List (List Char)
deriving Repr, DecidableEq

namespace Invocation

/-- Blanks in the first line of a script. -/
def isBlank (c : Char) : Bool := c == ' ' || c == '\t'

/-- The text without blanks at its ends. -/
def trim (text : List Char) : List Char :=
  ((text.dropWhile isBlank).reverse.dropWhile isBlank).reverse

/-- The program that reads a script, and an argument for it, as the first line says. -/
def interpreter? (bytes : Bytes) : Option (List Char × List (List Char)) :=
  match ofBytes (bytes.take 256) with
  | '#' :: '!' :: rest =>
      let line := trim (rest.takeWhile (· != '\n'))
      let program := line.takeWhile (!isBlank ·)
      let argument := trim (line.drop program.length)
      if program = [] then none
      else some (program, if argument = [] then [] else [argument])
  | _ => none

/-- The greatest number of scripts that read each other. -/
def maxScripts : Nat := 5

/-- What running a file means, if at most `fuel` scripts are on the way. -/
def ofFileUpTo (world : World) : Nat → List Char → List (List Char) → Except IoError Invocation
  | 0, _, _ => .error .tooManyLinks
  | fuel + 1, path, arguments =>
      match world.files.find world.base (Act.pathOf path) with
      | .error e => .error e
      | .ok (_, .program name) => .ok ⟨name, arguments⟩
      | .ok (_, .file _ content true) =>
          match interpreter? content.data with
          | none => .error .notExecutable
          | some (program, extra) =>
              ofFileUpTo world fuel program (program :: extra ++ path :: arguments.drop 1)
      | .ok _ => .error .permissionDenied

/-- What running a file means.  Where a shell takes over, an executable file that names no program
is a script for the shell. -/
def ofFile (world : World) (shellTakesOver : Bool) (path : List Char)
    (arguments : List (List Char)) : Except IoError Invocation :=
  match ofFileUpTo world maxScripts path arguments with
  | .error .notExecutable =>
      if shellTakesOver then
        .ok ⟨"sh", "/bin/sh".toList :: path :: arguments.drop 1⟩
      else .error .notExecutable
  | result => result

/-- Whether a failure lets the search go on. -/
def goesOn : IoError → Bool
  | .notFound => true
  | .notDirectory => true
  | .permissionDenied => true
  | _ => false

/-- Looks for a program in directories.  A file that must not be run is remembered as `failure`. -/
def inDirectories (world : World) (shellTakesOver : Bool) (name : List Char)
    (arguments : List (List Char)) (failure : IoError) :
    List (List Char) → Except IoError Invocation
  | [] => .error failure
  | directory :: rest =>
      let path := if directory = [] then name else directory ++ '/' :: name
      match ofFile world shellTakesOver path arguments with
      | .ok invocation => .ok invocation
      | .error e =>
          if goesOn e then
            inDirectories world shellTakesOver name arguments
              (if e = .permissionDenied then e else failure) rest
          else .error e

/-- What running a program means: a name with a slash is a path, and any other name is looked up. -/
def find (world : World) (shellTakesOver : Bool) (searchPath : List Char)
    (arguments : List (List Char)) : Except IoError Invocation :=
  let name := arguments.headD []
  if name.contains '/' then ofFile world shellTakesOver name arguments
  else if name = [] then .error .notFound
  else inDirectories world shellTakesOver name arguments .notFound
    (searchPath.splitOnP (· == ':'))

end Invocation
end Enclave.Shell
