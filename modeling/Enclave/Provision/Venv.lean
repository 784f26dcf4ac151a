import Enclave.Event
import Enclave.Layout
import Enclave.Procedure
import Enclave.Process.Command
import Enclave.Process.Outcome
import Enclave.Provision.Plan
import Enclave.Text.Blank
import Enclave.Text.Lines

/-! # Building virtual environments

A virtual environment is built by running an interpreter: first the environment is created, and if
anything is required, the installer is brought up to date and then installs it.  All steps share one
budget of time.  A build that fails leaves nothing behind that it has created.

Building is a procedure: files, the clock and the child processes are on the other side of its
requests. -/

namespace Enclave.Venv

/-! ### Requests to the outside -/

/-- What building asks for. -/
inductive Request
  /-- Whether there is anything at a path. -/
  | isThere (path : Path)
  /-- To remove a directory with everything below it. -/
  | removeTree (path : Path)
  /-- To create a directory and whatever is missing above it. -/
  | createDirectories (path : Path)
  /-- The file that a program name denotes. -/
  | findProgram (name : String)
  /-- The time on a clock that never goes back. -/
  | clock
  /-- To run a command for a limited time. -/
  | run (command : ChildCommand) (limit : Duration)
  /-- To report an event. -/
  | report (event : Event)

/-- The answers to these requests. -/
abbrev Request.Answer : Request → Type
  | isThere _ => Bool
  | removeTree _ => Except IoError Unit
  | createDirectories _ => Except IoError Unit
  | findProgram _ => Option Path
  | clock => Duration
  | run _ _ => Except Explanation BoundedOutput
  | report _ => Unit

/-- A procedure that makes these requests. -/
abbrev Steps (α : Type) := Procedure Request.Answer α

/-- A single request. -/
def ask (request : Request) : Steps request.Answer :=
  Procedure.request request

/-- Reports an event. -/
def report (level : Level) (message : String) (fields : List (String × FieldValue)) : Steps Unit :=
  ask (.report ⟨level, .venv, message, fields⟩)

/-! ### Commands -/

/-- A step of a build. -/
inductive Step
  | create
  | upgrade
  | install
deriving DecidableEq, Repr

/-- The name of a step. -/
def Step.name : Step → String
  | .create => "venv"
  | .upgrade => "pip upgrade"
  | .install => "pip install"

/-- The command that creates an environment. -/
def createCommand (interpreter location : Path) : ChildCommand :=
  ⟨interpreter, ["-m", "venv", "--clear"].map Bytes.ofText ++ [location.bytes], .empty⟩

/-- The arguments in front of the packages to install. -/
def installOptions : List String :=
  ["-m", "pip", "install", "--quiet", "--disable-pip-version-check", "--no-input"]

/-- The command that installs packages into an environment. -/
def installCommand (location : Path) (packages : List String) : ChildCommand :=
  .ofTexts (Layout.interpreter location) (installOptions ++ packages)

/-- The packages that bring the installer up to date. -/
def upgradePackages : List String := ["--upgrade", "pip"]

/-- The command that lists the packages of an environment. -/
def freezeCommand (location : Path) : ChildCommand :=
  .ofTexts (Layout.interpreter location) ["-m", "pip", "freeze", "--disable-pip-version-check"]

/-- The command that tells the version of the interpreter. -/
def versionCommand (location : Path) : ChildCommand :=
  .ofTexts (Layout.interpreter location) ["--version"]

/-! ### Time -/

/-- The time for all steps of a build. -/
structure Budget where
  start : Duration
  total : Duration

namespace Budget

/-- The error of a step that has no time, or took too much. -/
def exceeded (budget : Budget) (step : Step) : ProvisionError :=
  .timedOut step.name budget.total

/-- What is left at a time. -/
def leftAt (budget : Budget) (now : Duration) : Duration :=
  budget.total.remainder (now.remainder budget.start)

/-- What is left for a step now. -/
def remaining (budget : Budget) (step : Step) : Steps (Except ProvisionError Duration) := do
  let left := budget.leftAt (← ask .clock)
  return if left.isZero then .error (budget.exceeded step) else .ok left

end Budget

/-! ### Steps -/

/-- How a child that failed ended. -/
def failureDetail (output : BoundedOutput) : String :=
  let ending := match output.exitCode with
    | some code => s!"exit code {code}"
    | none => "terminated by signal"
  s!"{ending}: {Text.trimmed output.stderr}"

/-- Whether the child of a step did what it was asked to do. -/
def checkStep (budget : Budget) (step : Step) (output : BoundedOutput) :
    Except ProvisionError Unit :=
  if output.timedOut then .error (budget.exceeded step)
  else if output.success then .ok ()
  else .error (.stepFailed step.name (failureDetail output))

/-- Runs a step in the time that is left. -/
def runStep (budget : Budget) (step : Step) (command : ChildCommand) :
    Steps (Except ProvisionError Unit) := do
  match ← budget.remaining step with
  | .error e => return .error e
  | .ok limit =>
      match ← ask (.run command limit) with
      | .error explanation => return .error (.other explanation)
      | .ok output => return checkStep budget step output

/-- A failed operation on files as the failure of a build. -/
def fileFailure (statement : String) (cause : IoError) : ProvisionError :=
  .other ⟨statement, [cause.message]⟩

/-- The names by which a system's interpreter is looked for. -/
def interpreterNames : List String := ["python3", "python"]

/-- The first program that is found under one of several names. -/
def findFirst : List String → Steps (Option Path)
  | [] => return none
  | name :: rest => do
      match ← ask (.findProgram name) with
      | some path => return some path
      | none => findFirst rest

/-- The explanation for a system without an interpreter. -/
def noInterpreter : Explanation := ⟨"python3 or python not found in PATH", []⟩

/-- The interpreter of the system. -/
def systemInterpreter : Steps (Except Explanation Path) := do
  match ← findFirst interpreterNames with
  | some path => return .ok path
  | none => return .error noInterpreter

/-- The interpreter that creates an environment: a fixed one, or the one that the plan names, or the
system's. -/
def baseInterpreter (fixed : Option Path) (plan : ProvisionPlan) :
    Steps (Except ProvisionError Path) := do
  match fixed with
  | some path => return .ok path
  | none =>
      match ← findFirst (plan.interpreter :: interpreterNames) with
      | some path => return .ok path
      | none => return .error (.other noInterpreter)

/-- Creates the directory in which an environment will be. -/
def createParent (location : Path) : Steps (Except ProvisionError Unit) := do
  match location.parent? with
  | none => return .ok ()
  | some parent =>
      match ← ask (.createDirectories parent) with
      | .ok () => return .ok ()
      | .error cause => return .error (fileFailure s!"Failed to create {parent.display}" cause)

/-- Creates an environment. -/
def create (fixed : Option Path) (location : Path) (plan : ProvisionPlan) (budget : Budget) :
    Steps (Except ProvisionError Unit) := do
  match ← baseInterpreter fixed plan with
  | .error e => return .error e
  | .ok interpreter =>
      match ← createParent location with
      | .error e => return .error e
      | .ok () =>
          report .debug "creating virtual environment"
            [("location", location.display), ("python", interpreter.display)]
          runStep budget .create (createCommand interpreter location)

/-- Installs the requirements, if there are any. -/
def install (location : Path) (requirements : List String) (budget : Budget) :
    Steps (Except ProvisionError Unit) := do
  if requirements.isEmpty then return .ok ()
  else
    report .debug "upgrading pip" []
    match ← runStep budget .upgrade (installCommand location upgradePackages) with
    | .error e => return .error e
    | .ok () =>
        report .debug "installing requirements" [("count", .number requirements.length)]
        runStep budget .install (installCommand location requirements)

/-- Removes what a failed build has created. -/
def discard (location : Path) : Steps Unit := do
  match ← ask (.removeTree location) with
  | .ok () => return ()
  | .error .notFound => return ()
  | .error cause =>
      report .warn "failed to remove partial environment"
        [("location", location.display), ("error", cause.message)]

/-- Whether a usable environment is at a location. -/
def isPresent (location : Path) : Steps Bool :=
  ask (.isThere (Layout.interpreter location))

/-- Removes what is left of an environment that is not usable. -/
def removeIncomplete (location : Path) : Steps (Except ProvisionError Unit) := do
  if ← ask (.isThere location) then
    match ← ask (.removeTree location) with
    | .ok () => return .ok ()
    | .error cause =>
        return .error (fileFailure
          s!"Failed to remove incomplete environment: {location.display}" cause)
  else return .ok ()

/-- Builds an environment from nothing, or leaves nothing behind. -/
def buildNew (fixed : Option Path) (location : Path) (plan : ProvisionPlan) (budget : Budget) :
    Steps (Except ProvisionError Unit) := do
  match ← removeIncomplete location with
  | .error e => return .error e
  | .ok () =>
      let created ← create fixed location plan budget
      let result ← match created with
        | .ok () => install location plan.requirements budget
        | .error e => pure (.error e)
      match result with
      | .ok () => return .ok ()
      | .error e =>
          discard location
          return .error e

/-- Makes the environment at a location what a plan asks for. -/
def ensure (fixed : Option Path) (location : Path) (plan : ProvisionPlan) (total : Duration) :
    Steps (Except ProvisionError Unit) := do
  let budget : Budget := ⟨← ask .clock, total⟩
  if ← isPresent location then install location plan.requirements budget
  else buildNew fixed location plan budget

/-- Removes the environment at a location. -/
def destroy (location : Path) : Steps (Except ProvisionError Unit) := do
  if ← ask (.isThere location) then
    match ← ask (.removeTree location) with
    | .ok () => return .ok ()
    | .error cause =>
        return .error (fileFailure s!"Failed to remove environment: {location.display}" cause)
  else return .ok ()

/-! ### Installed packages -/

/-- The text before the first occurrence of two equals signs, and the text after it. -/
def splitPin : List Char → Option (List Char × List Char)
  | '=' :: '=' :: rest => some ([], rest)
  | c :: rest => (splitPin rest).map fun (front, back) => (c :: front, back)
  | [] => none

/-- The package and the version on a line.  A line without a version names the package alone. -/
def packageOf (line : List Char) : String × String :=
  match splitPin line with
  | some (name, version) =>
      (String.ofList (Text.trim name), String.ofList (Text.trim version))
  | none => (String.ofList line, "")

/-- Whether a line is about a package: it is neither blank nor a comment. -/
def namesPackage (line : List Char) : Bool :=
  line != [] && line.head? != some '#'

/-- The packages in a listing; the last line about a package counts. -/
def packagesOf (listing : String) : Table String :=
  .ofList ((((Text.lines listing.toList).map Text.trim).filter namesPackage).map packageOf)

/-- The packages of an environment. -/
def installedPackages (location : Path) (limit : Duration) :
    Steps (Except Explanation (Table String)) := do
  match ← ask (.run (freezeCommand location) limit) with
  | .error explanation => return .error explanation
  | .ok output =>
      return if output.success then .ok (packagesOf output.stdout)
        else .error ⟨s!"pip freeze failed: {Text.trimmed output.stderr}", []⟩

end Enclave.Venv
