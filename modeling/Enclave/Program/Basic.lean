import Enclave.Explanation
import Enclave.Report.Filter
import Enclave.Report.Line
import Enclave.World

/-! # Actions of the program

What the commands of the program do: they write to the output streams, change the world, and may
fail with an explanation.  Events of the world become lines of the log as soon as they are
reported. -/

namespace Enclave.Program

/-- A file to which lines are added.  The number tells it from a later file at the same location. -/
structure LogFile where
  location : Location
  id : Nat
deriving DecidableEq, Repr

/-- Which events are shown, and how and where. -/
structure Log where
  filter : Report.Filter
  style : Report.LineStyle
  file : Option LogFile := none

/-- The state of the running program.  Without a log no event is shown. -/
structure State where
  world : World
  now : Instant
  input : Bytes
  stdout : Bytes := []
  stderr : Bytes := []
  log : Option Log := none

/-- What a command does. -/
abbrev Action (α : Type) := ExceptT Explanation (StateM State) α

/-! ### Output -/

/-- Writes a text to the standard output. -/
def print (text : String) : Action Unit :=
  modify fun state => { state with stdout := state.stdout ++ Bytes.ofText text }

/-- Writes a text to the standard error stream. -/
def printError (text : String) : Action Unit :=
  modify fun state => { state with stderr := state.stderr ++ Bytes.ofText text }

/-- Writes a line to the standard output. -/
def printLine (text : String) : Action Unit := print (text ++ "\n")

/-- Writes a line to the standard error stream. -/
def printErrorLine (text : String) : Action Unit := printError (text ++ "\n")

/-! ### Events -/

namespace LogFile

/-- The world with a text added to a file, if the file is still there. -/
def append (file : LogFile) (text : String) (world : World) : World :=
  match world.files.entry? file.location with
  | some (.file id content executable) =>
      if id = file.id then
        let content : Content := ⟨content.bytes ++ Bytes.ofText text, 0⟩
        { world with files := world.files.put file.location (.file id content executable) }
      else world
  | _ => world

end LogFile

/-- The state after an event was shown. -/
def showEvent (log : Log) (state : State) (event : Event) : State :=
  if log.filter.admits event then
    { state with
      stderr := state.stderr ++ Bytes.ofText (Report.line log.style state.now event)
      world := match log.file with
        | some file => file.append (Report.line .plain state.now event) state.world
        | none => state.world }
  else state

/-- The state after all events were shown. -/
def showEvents (state : State) : State :=
  let events := state.world.events
  let state := { state with world := { state.world with events := [] } }
  match state.log with
  | some log => events.foldl (showEvent log) state
  | none => state

/-! ### The world -/

/-- The world. -/
def world : Action World := return (← get).world

/-- Performs an operation on the world. -/
def onWorld {α : Type} (operation : World → α × World) : Action α := do
  let (answer, world) := operation (← world)
  modify fun state => showEvents { state with world }
  return answer

/-- Performs an operation that can fail. -/
def attempt {α : Type} (operation : World → Except Explanation α × World) : Action α := do
  match ← onWorld operation with
  | .ok value => return value
  | .error explanation => throw explanation

/-- Reports events. -/
def report (events : List Event) : Action Unit :=
  onWorld fun world => ((), world.reportAll events)

/-- The current directory. -/
def workingDirectory : Action Path := do
  match (← world).currentDirectory with
  | .ok path => return path
  | .error cause => throw ⟨"Failed to read current directory", [cause.message]⟩

end Enclave.Program
