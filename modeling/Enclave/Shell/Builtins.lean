import Enclave.Shell.Programs
import Enclave.Shell.Executable
import Enclave.Shell.Parser

/-! # Variables and commands of the shell itself

The commands that change the state of the shell and need no further command to do so. -/

namespace Enclave.Shell

open Act

/-! ### Variables -/

/-- Whether a text is the name of a variable. -/
def isVariableName (text : List Char) : Bool :=
  match nameOf text with
  | (_ :: _, []) => true
  | _ => false

/-- The variables that a shell takes over from its environment. -/
def variablesOf (environ : Environ) : Table Variable :=
  .ofList (environ.entries.filterMap fun (key, value) =>
    if isVariableName (ofText key) then some (key, ⟨ofBytes value, true⟩) else none)

/-- The environment that a shell gives to its children. -/
def exportedOf (bindings : Table Variable) : Environ :=
  .ofList (bindings.entries.filterMap fun (key, held) =>
    if held.exported then some (key, toBytes held.value) else none)

/-- The value of a variable. -/
def valueOf? (name : String) : Act (Option (List Char)) :=
  return ((← frame).bindings.get? name).map (·.value)

/-- Gives a variable a value.  It stays exported if it was. -/
def assign (name : List Char) (value : List Char) (exported : Bool) : Act Unit :=
  changeFrame fun frame =>
    let key := String.ofList name
    let before := (frame.bindings.get? key).any (·.exported)
    { frame with bindings := frame.bindings.set key ⟨value, before || exported⟩ }

/-- The text that stands for the number of the running process. -/
def ownNumber : List Char := "4242".toList

/-- The directories in which a shell looks for programs if it is not told. -/
def defaultSearchPath : List Char :=
  "/usr/local/sbin:/usr/local/bin:/usr/sbin:/usr/bin:/sbin:/bin".toList

/-- The directories in which programs are looked up. -/
def searchPath : Act (List Char) :=
  return (← valueOf? "PATH").getD defaultSearchPath

/-- The value of a parameter that is a single text. -/
def parameter? (name : List Char) : Act (Option (List Char)) := do
  let frame ← frame
  match name with
  | ['#'] => return some (toString frame.parameters.length).toList
  | ['?'] => return some (toString frame.status).toList
  | ['$'] => return some ownNumber
  | ['-'] => return some []
  | ['!'] => return none
  | ['0'] => return some frame.name
  | ['@'] => return if frame.parameters = [] then none else some (Program.joined frame.parameters)
  | ['*'] => return if frame.parameters = [] then none else some (Program.joined frame.parameters)
  | _ =>
      match Program.number? name with
      | some 0 => return some frame.name
      | some (n + 1) => return frame.parameters[n]?
      | none => valueOf? (String.ofList name)

/-- Writes a message about a line of the script. -/
def complainAt (line : Nat) (message : List Char) : Act Unit := do
  write 2 ((← frame).name ++ ofText s!": {line}: " ++ message ++ ['\n'])

/-- The path by which a shell that starts knows its current directory: the one in its environment
if that leads there. -/
def directoryName? (world : World) (given : Option (List Char)) : Option (List Char) :=
  let leadsHere (text : List Char) : Bool :=
    text.head? == some '/' && match world.files.find world.base (pathOf text) with
      | .ok (location, _) => location == world.cwd && world.cwdExists
      | .error _ => false
  match given.filter leadsHere, world.currentDirectory with
  | some text, _ => some text
  | none, .ok path => some (ofBytes path.bytes)
  | none, .error _ => none

/-- Tells a shell that starts its current directory. -/
def noteDirectory : Act Unit := do
  match directoryName? (← world) (← valueOf? "PWD") with
  | some text => assign "PWD".toList text true
  | none => return ()

/-! ### Signals -/

/-- The signals by which a process can be ended, with the words for such an end. -/
def signals : List (String × Nat × String) :=
  [("HUP", 1, "Hangup"), ("INT", 2, ""), ("QUIT", 3, "Quit"), ("ILL", 4, "Illegal instruction"),
    ("TRAP", 5, "Trace/breakpoint trap"), ("ABRT", 6, "Aborted"), ("BUS", 7, "Bus error"),
    ("FPE", 8, "Floating point exception"), ("KILL", 9, "Killed"),
    ("USR1", 10, "User defined signal 1"), ("SEGV", 11, "Segmentation fault"),
    ("USR2", 12, "User defined signal 2"), ("PIPE", 13, ""), ("ALRM", 14, "Alarm clock"),
    ("TERM", 15, "Terminated")]

/-- The number of a signal that is given by number or name. -/
def signalNumber? (text : List Char) : Option Nat :=
  match Program.number? text with
  | some n => some n
  | none =>
      let text := String.ofList text
      (signals.find? fun s => s.1 == text || "SIG" ++ s.1 == text).map (·.2.1)

/-- The words for the end of a child by a signal. -/
def signalWords (number : Nat) : String :=
  ((signals.find? fun s => s.2.1 == number).map (·.2.2)).getD ""

/-- Sends a signal to the process itself. -/
def kill (line : Nat) (arguments : Arguments) : Act Nat := do
  let (signal, targets) := match arguments with
    | ['-', 's'] :: name :: rest => (signalNumber? name, rest)
    | ('-' :: name) :: rest => (signalNumber? name, rest)
    | rest => (some 15, rest)
  match signal with
  | none =>
      complainAt line (ofText "kill: invalid signal number or name")
      return 2
  | some number =>
      if targets.contains ownNumber then
        if (signals.any fun s => s.2.1 == number) then finish (.signalled number)
        else return 0
      else
        complainAt line (ofText "kill: No such process")
        return 1

/-! ### Other commands -/

/-- A status that a command is asked for. -/
def statusOf (line : Nat) (name : String) (arguments : Arguments) : Act Nat := do
  match arguments with
  | [] => return (← frame).status
  | text :: _ =>
      match Program.number? text with
      | some n => return n % 256
      | none =>
          complainAt line (ofText (name ++ ": Illegal number: ") ++ text)
          finish (.exited 2)

/-- The number of loops that a command concerns. -/
def levelsOf (arguments : Arguments) : Nat :=
  match arguments with
  | text :: _ => max 1 ((Program.number? text).getD 1)
  | [] => 1

/-- Changes the current directory. -/
def changeDirectory (line : Nat) (arguments : Arguments) : Act Nat := do
  let home := (← valueOf? "HOME").getD []
  let target := arguments.headD home
  let world ← world
  match world.files.find world.base (pathOf target) with
  | .ok (location, .directory _) =>
      assign "OLDPWD".toList ((← valueOf? "PWD").getD []) true
      changeWorld fun world => world.enter location
      assign "PWD".toList (ofBytes location.path.bytes) true
      return 0
  | _ =>
      complainAt line (ofText "cd: can't cd to " ++ target)
      return 2

/-- Splits an argument at its first equals sign. -/
def splitAssignment (argument : List Char) : List Char × Option (List Char) :=
  match argument.dropWhile (· != '=') with
  | [] => (argument, none)
  | _ :: value => (argument.takeWhile (· != '='), some value)

/-- Passes variables on to the children. -/
def export_ : Arguments → Act Nat
  | [] => return 0
  | argument :: rest => do
      let (name, value) := splitAssignment argument
      match value <|> (← valueOf? (String.ofList name)) with
      | some value => assign name value true
      | none => pure ()
      export_ rest

/-- Removes variables. -/
def unset (arguments : Arguments) : Act Nat := do
  let (functions, names) := match arguments with
    | ['-', 'f'] :: names => (true, names)
    | ['-', 'v'] :: names => (false, names)
    | names => (false, names)
  changeFrame fun frame => names.foldl (fun frame name =>
    let key := String.ofList name
    if functions then { frame with functions := frame.functions.unset key }
    else { frame with bindings := frame.bindings.unset key }) frame
  return 0

/-- Removes parameters at the front. -/
def shift (line : Nat) (arguments : Arguments) : Act Nat := do
  let count := match arguments with
    | text :: _ => (Program.number? text).getD 1
    | [] => 1
  if (← frame).parameters.length < count then
    complainAt line (ofText "shift: can't shift that many")
    finish (.exited 2)
  else
    changeFrame fun frame => { frame with parameters := frame.parameters.drop count }
    return 0

/-- Turns the modes of a shell with the given letters on or off. -/
def setModes (letters : List Char) (on : Bool) : Act Unit :=
  changeFrame fun frame =>
    { frame with
      strict := if letters.contains 'e' then on else frame.strict
      wary := if letters.contains 'u' then on else frame.wary }

/-- Turns modes on or off, and replaces the parameters if any are given. -/
def setAll : Arguments → Act Nat
  | [] => return 0
  | argument :: rest => do
      match argument with
      | ['-', '-'] => changeFrame fun frame => { frame with parameters := rest }
      | '-' :: letters => do
          setModes letters true
          let _ ← setAll rest
      | '+' :: letters => do
          setModes letters false
          let _ ← setAll rest
      | _ => changeFrame fun frame => { frame with parameters := argument :: rest }
      return 0

/-- Gives the words of a line to variables; the last one gets what is left. -/
def assignWords : Arguments → List Char → Act Unit
  | [], _ => return ()
  | [name], text => assign name (Invocation.trim text) false
  | name :: names, text => do
      let text := text.dropWhile Invocation.isBlank
      let word := text.takeWhile (!Invocation.isBlank ·)
      assign name word false
      assignWords names (text.drop word.length)

/-- Reads a line into variables. -/
def readVariables (arguments : Arguments) : Act Nat := do
  let names := arguments.filter fun argument => argument.head? != some '-'
  let (line, complete) ← readLine
  assignWords names (ofBytes line)
  return if complete then 0 else 1

/-- Does what a command of the shell does that needs no other command, if there is one of this
name. -/
def builtin? (line : Nat) (name : List Char) (arguments : Arguments) : Option (Act Nat) :=
  match String.ofList name with
  | ":" => some (return 0)
  | "true" => some (return 0)
  | "false" => some (return 1)
  | "exit" => some (do finish (.exited (← statusOf line "exit" arguments)))
  | "return" => some (do
      let status ← statusOf line "return" arguments
      changeFrame fun frame => { frame with status }
      throw .return_)
  | "break" => some (throw (.break_ (levelsOf arguments)))
  | "continue" => some (throw (.continue_ (levelsOf arguments)))
  | "cd" => some (changeDirectory line arguments)
  | "export" => some (export_ arguments)
  | "unset" => some (unset arguments)
  | "shift" => some (shift line arguments)
  | "set" => some (setAll arguments)
  | "read" => some (readVariables arguments)
  | "kill" => some (kill line arguments)
  | "wait" => some (return 0)
  | "umask" => some (return 0)
  | "trap" => some (return 0)
  | "echo" => some (Program.echo arguments)
  | "printf" => some (Program.printf arguments)
  | "pwd" => some Program.pwd
  | "test" => some (Program.test "test" arguments)
  | "[" => some (Program.bracketTest arguments)
  | _ => none

end Enclave.Shell
