import Enclave.FileSystem.Operations
import Enclave.Environ
import Enclave.Event
import Enclave.Duration

/-! # The world around the program

Everything that an operation can observe or change: the files, the current directory, the process
environment, the files that are locked, the clock and the events reported so far.  Operations are
functions on this value, so what they leave alone can be stated and proved. -/

namespace Enclave

/-- The state that operations work on.  `cwdId` tells a removed working directory from a new one
with the same path; `locked` holds the numbers of the locked files. -/
structure World where
  files : FileSystem
  cwd : Location
  cwdId : Nat
  environ : Environ
  locked : List Nat := []
  clock : Duration := .zero
  events : List Event := []
deriving Inhabited

namespace World

/-- Whether the current directory still exists. -/
def cwdExists (world : World) : Bool :=
  world.files.entry? world.cwd == some (.directory world.cwdId)

/-- The location from which relative paths are seen.  A removed directory has lost its name: nothing
can be found or created below it, but a double dot still leads to the directory that it was in. -/
def base (world : World) : Location :=
  if world.cwdExists then world.cwd else world.cwd.dropLast ++ [[Path.slash]]

/-- The path of the current directory. -/
def currentDirectory (world : World) : Except IoError Path :=
  if world.cwdExists then .ok world.cwd.path else .error .notFound

/-- The current directory, or the relative path of it if it was removed. -/
def currentDirectoryOrDot (world : World) : Path :=
  match world.currentDirectory with
  | .ok path => path
  | .error _ => .ofText "."

/-- The world with another current directory, which has to exist. -/
def enter (world : World) (location : Location) : World :=
  match world.files.entry? location with
  | some (.directory id) => { world with cwd := location, cwdId := id }
  | _ => world

/-- The world with another event reported. -/
def report (world : World) (event : Event) : World :=
  { world with events := world.events ++ [event] }

/-- The world with several events reported. -/
def reportAll (world : World) (events : List Event) : World :=
  { world with events := world.events ++ events }

/-- Whether a path denotes anything. -/
def pathExists (world : World) (path : Path) : Bool :=
  world.files.exists? world.base path

/-- The path of an existing file or directory without links and dots.  A relative path has none
where the current directory was removed. -/
def canonical? (world : World) (path : Path) : Option Path :=
  if path.isAbsolute || world.cwdExists then world.files.canonical? world.base path else none

/-- The text of a file. -/
def readText (world : World) (path : Path) : Except IoError String :=
  world.files.readText world.base path

/-- The world after a change of its files that can fail. -/
def change (world : World) (operation : FileSystem → Location → Except IoError FileSystem) :
    Except IoError Unit × World :=
  match operation world.files world.base with
  | .ok files => (.ok (), { world with files })
  | .error e => (.error e, world)

/-- Creates a directory and whatever is missing above it. -/
def createDirectories (world : World) (path : Path) : Except IoError Unit × World :=
  let (result, files) := world.files.createDirectories world.base path
  (result, { world with files })

/-- Removes a directory with everything below it, what is below first. -/
def removeTree (world : World) (path : Path) : Except IoError Unit × World :=
  match world.files.removeTree world.base path with
  | .ok files => (.ok (), { world with files })
  | .error e => (.error e, { world with files := world.files.emptied world.base path })

/-- The world after some time. -/
def wait (world : World) (time : Duration) : World :=
  { world with clock := world.clock.add time }

/-! ### Laws -/

@[simp] theorem files_report (world : World) (event : Event) :
    (world.report event).files = world.files := rfl

@[simp] theorem events_report (world : World) (event : Event) :
    (world.report event).events = world.events ++ [event] := rfl

theorem change_error {world : World} {operation} {e : IoError}
    (h : operation world.files world.base = .error e) :
    world.change operation = (.error e, world) := by
  simp [change, h]

end World
end Enclave
