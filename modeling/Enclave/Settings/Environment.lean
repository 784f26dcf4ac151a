import Enclave.Settings.Lookup
import Enclave.Lock.Mode

/-! # Settings of environments

Where environments live, what the default one is called, which interpreter builds them and how long
building and waiting may take.  The settings come from variables; options of the command line
override single ones (`EnvironmentSettings.override`). -/

namespace Enclave

namespace Variable

/-- The directory that holds the environments. -/
def root : String := "SPYCERY_ENV_ROOT"

/-- Another name for the directory that holds the environments. -/
def rootAlias : String := "WORKON_HOME"

/-- The name of the default environment. -/
def name : String := "SPYCERY_ENV_NAME"

/-- The interpreter that creates environments. -/
def interpreter : String := "SPYCERY_PYTHON"

/-- Another name for the interpreter that creates environments. -/
def interpreterAlias : String := "PYTHON"

/-- The greatest number of seconds that building may take. -/
def provisionTimeout : String := "SPYCERY_PROVISION_TIMEOUT_SECS"

/-- The greatest number of seconds to wait for the build lock. -/
def lockTimeout : String := "SPYCERY_LOCK_TIMEOUT_SECS"

/-- What to do when the build lock is held. -/
def lockMode : String := "SPYCERY_LOCK_MODE"

/-- The search path for programs. -/
def searchPath : String := "PATH"

/-- The location of the active environment. -/
def activeLocation : String := "VIRTUAL_ENV"

/-- The installation directory of an interpreter, which an environment must not inherit. -/
def interpreterHome : String := "PYTHONHOME"

end Variable

/-- Settings of environments. -/
structure EnvironmentSettings where
  root : Path
  defaultName : String
  interpreter : Option String
  provisionSeconds : Nat
  lockSeconds : Nat
  lockMode : LockMode
deriving Repr, DecidableEq

namespace EnvironmentSettings

/-- The name of the default environment unless a variable says otherwise. -/
def standardName : String := "venv"

/-- How many seconds building may take unless a variable says otherwise. -/
def standardProvisionSeconds : Nat := 600

/-- How many seconds to wait for the build lock unless a variable says otherwise. -/
def standardLockSeconds : Nat := 300

/-- The lock mode that a variable asks for.  One that cannot be read is reported. -/
def lockModeFrom (env : Environ) : LockMode × List Event :=
  match Settings.optionalText env [Variable.lockMode] with
  | none => (.block, [])
  | some text =>
      match LockMode.parse text with
      | .ok mode => (mode, [])
      | .error refusal =>
          (.block, [⟨.warn, .settings, s!"Invalid {Variable.lockMode}: {refusal}, using block", []⟩])

/-- The settings that the process environment asks for, and the reports about values that cannot be
read. -/
def fromWorld (world : World) : EnvironmentSettings × List Event :=
  let env := world.environ
  let root :=
    match Settings.optionalText env [Variable.root, Variable.rootAlias] with
    | some text => Path.ofText text
    | none => world.currentDirectoryOrDot
  let (provisionSeconds, provisionReports) :=
    Settings.number env Variable.provisionTimeout [] standardProvisionSeconds
  let (lockSeconds, lockReports) := Settings.number env Variable.lockTimeout [] standardLockSeconds
  let (lockMode, modeReports) := lockModeFrom env
  ({ root
     defaultName := Settings.textOr env [Variable.name] standardName
     interpreter := Settings.optionalText env [Variable.interpreter, Variable.interpreterAlias]
     provisionSeconds, lockSeconds, lockMode },
   provisionReports ++ lockReports ++ modeReports)

/-- Options that replace single settings. -/
structure Overrides where
  root : Option Path := none
  provisionSeconds : Option Nat := none
  lockSeconds : Option Nat := none
  lockMode : Option LockMode := none
deriving Repr, DecidableEq

/-- The settings with the given ones replaced. -/
def override (settings : EnvironmentSettings) (overrides : Overrides) : EnvironmentSettings :=
  { settings with
    root := overrides.root.getD settings.root
    provisionSeconds := overrides.provisionSeconds.getD settings.provisionSeconds
    lockSeconds := overrides.lockSeconds.getD settings.lockSeconds
    lockMode := overrides.lockMode.getD settings.lockMode }

/-- Without options nothing is replaced. -/
theorem override_none (settings : EnvironmentSettings) : settings.override {} = settings := rfl

end EnvironmentSettings
end Enclave
