import Enclave.Dotenv
import Enclave.Program.Activate
import Enclave.Program.Environments
import Enclave.Settings.Reporting

/-! # The program

The program loads the variables of a `.env` file, reads its arguments, starts the log and does what
it is asked to do.  It ends with an exit code and with what it wrote. -/

namespace Enclave.Program

open CommandLine (Arguments Task UsageError)

/-! ### The log -/

/-- The directives for warnings and errors only. -/
def quietDirective : String := "spycery=warn,spycery_env=warn"

/-- The directives that settings and a level ask for. -/
def directiveFor (settings : ReportSettings) (level : Option Threshold) : String :=
  if settings.quiet then quietDirective
  else match level with
    | some threshold => s!"spycery={threshold.label},spycery_env={threshold.label}"
    | none => settings.directive

/-- The filter that the process environment and a level ask for, and the warnings about it. -/
def filterFor (environ : Environ) (settings : ReportSettings) (level : Option Threshold) :
    Report.Filter × List String :=
  let given := if level.isSome then none
    else (Environ.text? environ Variable.filter).bind Report.Filter.parse?
  match given with
  | some filter => (filter, [])
  | none => Report.Filter.parse (directiveFor settings level)

/-- Whether the process environment asks for lines without colours. -/
def wantsNoColour (environ : Environ) : Bool :=
  match Environ.text? environ Variable.noColour with
  | some text => text != ""
  | none => false

/-- The form of the lines on the standard error stream. -/
def styleFor (environ : Environ) (settings : ReportSettings) : Report.LineStyle :=
  if settings.json then .document else if wantsNoColour environ then .plain else .coloured

/-- The path of the log file with a name. -/
def logPath (settings : ReportSettings) (name : String) : Path :=
  (Path.ofText settings.directory).join (.ofText (name ++ ".log"))

/-- Creates a log file in a directory. -/
def openLogFile (directory path : Path) (world : World) :
    Except Explanation LogFile × World :=
  match world.createDirectories directory with
  | (.error cause, world) =>
      (.error ⟨s!"Failed to create log directory: {directory.display}", [cause.message]⟩, world)
  | (.ok (), world) =>
      match world.files.touch world.base path with
      | .error cause =>
          (.error ⟨s!"Failed to open log file: {path.display}", [cause.message]⟩, world)
      | .ok (files, id) =>
          let world := { world with files }
          match world.files.find world.base path with
          | .ok (location, _) => (.ok ⟨location, id⟩, world)
          | .error _ => (.ok ⟨[], id⟩, world)

/-- Starts the log. -/
def startLog (mode : LogMode) (name : String) (level : Option Threshold) : Action Unit := do
  if mode = .none then return ()
  let environ := (← world).environ
  let settings := ReportSettings.fromEnviron environ
  let (filter, warnings) := filterFor environ settings level
  warnings.forM printError
  let log : Log := { filter, style := styleFor environ settings }
  match mode with
  | .file =>
      let path := logPath settings name
      let file ← attempt (openLogFile (.ofText settings.directory) path)
      modify fun state => { state with log := some { log with file := some file } }
      report [⟨.debug, .program, "logging to file", [("file", path.display)]⟩]
  | _ => modify fun state => { state with log := some log }

/-- The log mode that arguments or settings ask for. -/
def logModeFor (given : Option LogMode) : Action LogMode := do
  match given with
  | some mode => return mode
  | none =>
      let (mode, warning) := (ReportSettings.fromEnviron (← world).environ).logMode
      match warning with
      | some warning => printError warning
      | none => pure ()
      return mode

/-! ### Running -/

/-- The greatest level at which an activation reports. -/
def thresholdFor (mode : LogMode) (level : Option Threshold) : Threshold :=
  if mode = .none then .off else level.getD (.upTo .info)

/-- Does what the arguments ask for.  The result is the exit code. -/
def perform (arguments : Arguments) : Action Nat := do
  let mode ← logModeFor arguments.logMode
  startLog mode arguments.logName arguments.logLevel
  let threshold := thresholdFor mode arguments.logLevel
  match arguments.task with
  | .activate target versions shell => do
      activate arguments.root target threshold versions shell arguments.json
      return 0
  | .run target command => run arguments.root target threshold command
  | .freeze name system => do
      freeze arguments.root name system threshold arguments.json
      return 0
  | .list => do
      list arguments.root arguments.json
      return 0
  | .clean dryRun force => do
      clean arguments.root dryRun force
      return 0

/-- How the program ended. -/
structure Exit where
  code : Nat
  stdout : Bytes := []
  stderr : Bytes := []
deriving DecidableEq, Repr

/-- The name of the program. -/
def programName : String := "spycery"

/-- How the program ends for arguments that ask for no task. -/
def refuse (e : UsageError) : Exit :=
  match e with
  | .displayVersion => ⟨0, Bytes.ofText s!"{programName} {BuildRecord.currentVersion}\n", []⟩
  | .displayHelp => ⟨0, Bytes.ofText s!"Usage: {programName} [OPTIONS] <COMMAND>\n", []⟩
  | e => ⟨e.exitCode, [], Bytes.ofText s!"error: {e.label}\n"⟩

/-- The exit code of a failure. -/
def failureCode : Nat := 1

/-- The exit code after a variable that cannot be set. -/
def refusedVariableCode : Nat := 101

/-- Whether the arguments ask for a command that may read the input of the program. -/
def readsInput (environ : Environ) (arguments : List String) : Bool :=
  match Arguments.parse environ arguments with
  | .ok { task := .run _ _, .. } => true
  | _ => false

/-- Runs the program with arguments and an input at a moment. -/
def start (now : Instant) (arguments : List String) (input : Bytes) (world : World) :
    Exit × World :=
  match Dotenv.load world.currentDirectoryOrDot world with
  | (some _, world) => (⟨refusedVariableCode, [], []⟩, world)
  | (none, world) =>
      match Arguments.parse world.environ arguments with
      | .error e => (refuse e, world)
      | .ok arguments =>
          let world := { world with events := [] }
          let (result, state) := (perform arguments).run { world, now, input }
          match result with
          | .ok code => (⟨code, state.stdout, state.stderr⟩, state.world)
          | .error explanation =>
              (⟨failureCode, state.stdout, state.stderr ++ Bytes.ofText explanation.report⟩,
                state.world)

end Enclave.Program
