import Enclave.Process.Outcome
import Enclave.Shell.Command
import Enclave.World

/-! # Running processes

The state in which a process and its children run: the world, the contents of the streams between
them, and the moment at which they are stopped.  A process has a frame of its own with its
parameters, bindings and streams.  `Act` is what a process does: it changes frame and state, and it
may stop. -/

namespace Enclave.Shell

/-- Where a stream leads. -/
inductive Stream
  /-- Nowhere. -/
  | null
  /-- Zero bytes without end. -/
  | zero
  /-- A sequence of bytes to be read. -/
  | source (index : Nat)
  /-- A sequence of bytes that is written. -/
  | sink (index : Nat)
  /-- The end of a file. -/
  | file (location : Location)
deriving Repr, DecidableEq

/-- Why a process does not go on with the next command. -/
inductive Stop
  | ends (ending : Ending)
  /-- The time is over. -/
  | deadline
  | break_ (levels : Nat)
  | continue_ (levels : Nat)
  | return_
deriving Repr, DecidableEq

/-- A variable of a shell. -/
structure Variable where
  value : List Char
  exported : Bool
deriving Repr, Inhabited

/-- What belongs to a single process.  A strict shell ends when a command fails, unless the command
is `tested`; a shell that is `wary` refuses to use a variable that is not set. -/
structure Frame where
  name : List Char
  parameters : List (List Char) := []
  bindings : Table Variable := .empty
  functions : Table Command := .empty
  streams : List (Nat × Stream) := []
  status : Nat := 0
  strict : Bool := false
  wary : Bool := false
  tested : Bool := false

/-- What processes share. -/
structure State where
  world : World
  sources : List Bytes := []
  sinks : List Bytes := []
  deadline : Option Duration := none

/-- What a process does. -/
abbrev Act (α : Type) := ExceptT Stop (StateM (Frame × State)) α

namespace Act

/-- The frame of the process. -/
def frame : Act Frame := return (← get).1

/-- The shared state. -/
def state : Act State := return (← get).2

/-- Changes the frame. -/
def changeFrame (change : Frame → Frame) : Act Unit :=
  modify fun (frame, state) => (change frame, state)

/-- Changes the shared state. -/
def changeState (change : State → State) : Act Unit :=
  modify fun (frame, state) => (frame, change state)

/-- The world. -/
def world : Act World := return (← state).world

/-- Changes the world. -/
def changeWorld (change : World → World) : Act Unit :=
  changeState fun state => { state with world := change state.world }

/-- Ends the process. -/
def finish {α : Type} (ending : Ending) : Act α := throw (.ends ending)

/-! ### Files -/

/-- The path that a word of a script denotes. -/
def pathOf (text : List Char) : Path := ⟨toBytes text⟩

/-- Performs an operation on files. -/
def onFiles (operation : FileSystem → Location → Except IoError FileSystem) :
    Act (Except IoError Unit) := do
  let (result, world) := (← world).change operation
  changeWorld fun _ => world
  return result

/-- What a path denotes. -/
def stat? (path : List Char) : Act (Option Entry) := do
  let world ← world
  return world.files.stat? world.base (pathOf path)

/-! ### Streams -/

/-- Where a stream of the process leads. -/
def stream (number : Nat) : Act Stream :=
  return ((← frame).streams.lookup number).getD .null

/-- Lets a stream of the process lead somewhere else. -/
def setStream (number : Nat) (stream : Stream) : Act Unit :=
  changeFrame fun frame =>
    { frame with streams := (number, stream) :: frame.streams.filter (·.1 != number) }

/-- A list with one item changed. -/
def changeAt {α : Type} (index : Nat) (change : α → α) (items : List α) : List α :=
  items.mapIdx fun i item => if i = index then change item else item

/-- A new stream to read bytes from. -/
def newSource (bytes : Bytes) : Act Stream := do
  let index := (← state).sources.length
  changeState fun state => { state with sources := state.sources ++ [bytes] }
  return .source index

/-- A new stream to write bytes to. -/
def newSink : Act (Nat × Stream) := do
  let index := (← state).sinks.length
  changeState fun state => { state with sinks := state.sinks ++ [[]] }
  return (index, .sink index)

/-- What was written to a stream. -/
def written (index : Nat) : Act Bytes :=
  return (← state).sinks[index]?.getD []

/-- Writes bytes to a stream of the process. -/
def writeBytes (number : Nat) (bytes : Bytes) : Act Unit := do
  match ← stream number with
  | .sink index =>
      changeState fun state =>
        { state with sinks := changeAt index (fun old => old ++ bytes) state.sinks }
  | .file location =>
      changeWorld fun world =>
        match world.files.appendBytes [] location.path bytes with
        | .ok files => { world with files }
        | .error _ => world
  | _ => return ()

/-- Writes a text of a script to a stream. -/
def write (number : Nat) (text : List Char) : Act Unit :=
  writeBytes number (toBytes text)

/-- Writes a message to the standard error stream. -/
def complain (message : String) : Act Unit :=
  writeBytes 2 (Bytes.ofText message)

/-- Everything that is left to read from the standard input. -/
def readAll : Act Bytes := do
  match ← stream 0 with
  | .source index =>
      let bytes := (← state).sources[index]?.getD []
      changeState fun state => { state with sources := changeAt index (fun _ => []) state.sources }
      return bytes
  | _ => return []

/-- At most `count` bytes from the standard input. -/
def readSome (count : Nat) : Act Bytes := do
  match ← stream 0 with
  | .source index =>
      let bytes := (← state).sources[index]?.getD []
      changeState fun state =>
        { state with sources := changeAt index (fun old => old.drop count) state.sources }
      return bytes.take count
  | .zero => return List.replicate count 0
  | _ => return []

/-- The next line from the standard input without its end, and whether it had an end. -/
def readLine : Act (Bytes × Bool) := do
  match ← stream 0 with
  | .source index =>
      let bytes := (← state).sources[index]?.getD []
      let line := bytes.takeWhile (· != 0x0A)
      let rest := bytes.dropWhile (· != 0x0A)
      changeState fun state =>
        { state with sources := changeAt index (fun _ => rest.drop 1) state.sources }
      return (line, !rest.isEmpty)
  | _ => return ([], false)

/-- The stream from which the content of a file is read. -/
def openSource (path : List Char) : Act (Except IoError Stream) := do
  let world ← world
  match world.files.find world.base (pathOf path) with
  | .error e => return .error e
  | .ok (_, .device .zero) => return .ok .zero
  | .ok (_, .device .null) => return .ok .null
  | .ok (_, .directory _) => return .error .isDirectory
  | .ok (_, _) =>
      match world.files.readBytes world.base (pathOf path) with
      | .error e => return .error e
      | .ok bytes => return .ok (← newSource bytes)

/-- The stream that writes to the end of a file, which is emptied before or not. -/
def openSink (path : List Char) (emptied : Bool) : Act (Except IoError Stream) := do
  let change (content : Content) : Content := if emptied then ⟨[], 0⟩ else content
  match ← onFiles fun files base => files.modify base (pathOf path) change with
  | .error e => return .error e
  | .ok () =>
      let world ← world
      match world.files.find world.base (pathOf path) with
      | .ok (location, .file _ _ _) => return .ok (.file location)
      | _ => return .ok .null

/-! ### Time -/

/-- Lets time pass.  A process whose time is over stops. -/
def sleep (time : Duration) : Act Unit := do
  let state ← state
  let end_ := state.world.clock.add time
  match state.deadline with
  | some deadline =>
      if end_.reaches deadline && end_ != deadline then
        changeWorld fun world => { world with clock := deadline }
        throw .deadline
      else changeWorld fun world => world.wait time
  | none => changeWorld fun world => world.wait time

end Act
end Enclave.Shell
