import Enclave.CommandLine.Parser

/-! # What the arguments ask for -/

namespace Enclave.CommandLine

/-- Which environment to activate, and how. -/
structure Target where
  name : Option String
  system : Bool
  refresh : RefreshPolicy
  requirements : List Path
  interpreter : Option String
  provisionSeconds : Option Nat
  lockSeconds : Option Nat
  lockMode : Option LockMode
deriving DecidableEq, Repr

/-- What to do. -/
inductive Task
  | activate (target : Target) (versions shell : Bool)
  | run (target : Target) (command : List String)
  | freeze (name : Option String) (system : Bool)
  | list
  | clean (dryRun force : Bool)
deriving DecidableEq, Repr

/-- What the arguments ask for. -/
structure Arguments where
  task : Task
  root : Option Path
  logMode : Option LogMode
  logName : String
  logLevel : Option Threshold
  json : Bool
deriving DecidableEq, Repr

/-- The last value of an option on the levels, the innermost one first.  A value from a stronger
source on an outer level wins. -/
def lastGiven (key : Key) : List Level → Option Given
  | [] => none
  | level :: outer =>
      let here := (level.given.filter (·.key = key)).getLast?
      match here, lastGiven key outer with
      | some here, some other =>
          some (if here.origin.rank < other.origin.rank then other else here)
      | here, other => here <|> other

namespace Level

/-- Whether a flag was given at a level. -/
def flag (level : Level) (key : Key) : Bool := level.has key

/-- The values of an option at a level. -/
def values (level : Level) (key : Key) : List Bytes :=
  (level.given.filter (·.key = key)).map (·.value)

/-- The text of an option at a level. -/
def text? (level : Level) (key : Key) : Option String :=
  (level.values key).getLast?.bind (·.text?)

/-- The target that the options at a level describe. -/
def target (level : Level) : Target where
  name := level.text? .name
  system := level.flag .system
  refresh :=
    ((level.text? .refresh).bind fun text => (RefreshPolicy.parse text).toOption).getD .smart
  requirements := (level.values .requirements).map fun value => ⟨value⟩
  interpreter := level.text? .interpreter
  provisionSeconds := (level.text? .provisionTimeout).bind Text.seconds?
  lockSeconds := (level.text? .lockTimeout).bind Text.seconds?
  lockMode := (level.text? .lockMode).bind fun text => (LockMode.parse text).toOption

/-- The task that a level describes.  A group describes none. -/
def task? (level : Level) : Option Task :=
  match level.stage with
  | .activate => some (.activate level.target (level.flag .versions) (level.flag .shell))
  | .run => some (.run level.target (level.operands.getD []))
  | .freeze => some (.freeze (level.text? .name) (level.flag .system))
  | .list => some .list
  | .clean => some (.clean (level.flag .dryRun) (level.flag .force))
  | _ => none

end Level

namespace Arguments

/-- The name of the log file unless another one is asked for. -/
def standardLogName : String := "results"

/-- What the levels ask for together with a task. -/
def ofLevels (levels : List Level) (task : Task) : Arguments :=
  let bytes (key : Key) : Option Bytes := (lastGiven key levels).map (·.value)
  let text (key : Key) : Option String := (bytes key).bind (·.text?)
  { task
    root := (bytes .root).map fun value => ⟨value⟩
    logMode := (text .logMode).bind LogMode.ofWord?
    logName := (text .logName).getD standardLogName
    logLevel := (text .logLevel).bind Threshold.parse?
    json := (bytes .json).isSome }

/-- Reads arguments.  Some options take their values from variables. -/
def parse (environ : Environ) (arguments : List String) : Except UsageError Arguments := do
  let levels ← readLevels environ [] { stage := .top } arguments
  match levels.head?.bind Level.task? with
  | some task => .ok (ofLevels levels task)
  | none => .error .missingSubcommand

end Arguments
end Enclave.CommandLine
