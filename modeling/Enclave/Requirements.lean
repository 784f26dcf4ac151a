import Enclave.Layout
import Enclave.Text.Blank
import Enclave.Text.Lines
import Enclave.World

/-! # Declared requirements

Requirements are the lines of `requirements.txt` files: trimmed, without blank lines and comments,
and without repetitions.  `discover` finds the files for a project, `load` reads files and merges
their lines. -/

namespace Enclave

/-- Requirement lines and the files that they come from. -/
structure Requirements where
  sources : List Path := []
  lines : List String := []
deriving Repr, DecidableEq, Inhabited

namespace Requirements

open Text

/-- Whether nothing is required. -/
def isEmpty (requirements : Requirements) : Bool :=
  requirements.lines.isEmpty

/-- Whether a trimmed line is a requirement: neither blank nor a comment. -/
def isDeclaration (line : List Char) : Bool :=
  line != [] && line.head? != some '#'

/-- The requirement lines of a text. -/
def declarations (text : List Char) : List (List Char) :=
  ((Text.lines text).map trim).filter isDeclaration

/-- The requirement lines of a string. -/
def parseLines (text : String) : List String :=
  (declarations text.toList).map String.ofList

/-- Adds the lines that are not there yet. -/
def merge (known : List String) (new : List String) : List String :=
  new.foldl (fun lines line => if lines.contains line then lines else lines ++ [line]) known

/-- The requirements together with those of a file that was read. -/
def add (requirements : Requirements) (file : Path) (text : String) : Requirements :=
  ⟨requirements.sources ++ [file], merge requirements.lines (parseLines text)⟩

/-- The report about a file that cannot be read. -/
def unreadable (file : Path) (error : IoError) : Event :=
  ⟨.warn, .requirements, "skipping unreadable requirements file",
    [("file", file.display), ("error", error.message)]⟩

/-- Reads one more file.  A file that cannot be read as text is reported and skipped. -/
def loadNext (world : World) (state : Requirements × List Event) (file : Path) :
    Requirements × List Event :=
  match world.readText file with
  | .ok text => (state.1.add file text, state.2)
  | .error e => (state.1, state.2 ++ [unreadable file e])

/-- Reads requirement files in order. -/
def load (world : World) (files : List Path) : Requirements × List Event :=
  files.foldl (loadNext world) ({}, [])

/-- The path of an existing file or directory without links and dots, and any other path as it
is. -/
def canonicalOrSame (world : World) (path : Path) : Path :=
  (world.canonical? path).getD path

/-- The directories in which requirement files are looked for: the project directory, the
directories above it and the working directory. -/
def searchDirectories (world : World) (project working : Path) : List Path :=
  (canonicalOrSame world project).ancestors ++ [canonicalOrSame world working]

/-- Keeps the first of several entries that are the same path. -/
def firstOfEach (paths : List Path) : List Path :=
  paths.foldl (fun kept path => if kept.any (·.same path) then kept else kept ++ [path]) []

/-- The requirement files for a project, without repetitions. -/
def discover (world : World) (project working : Path) : List Path :=
  firstOfEach (((searchDirectories world project working).map
    (·.child Layout.requirementsName)).filter
    fun file => world.files.isFile world.base file)

end Requirements
end Enclave
