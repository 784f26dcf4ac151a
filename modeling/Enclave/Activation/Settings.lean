import Enclave.Duration
import Enclave.Settings.Environment

/-! # Settings of an activator -/

namespace Enclave

/-- What all activations of one activator share. -/
structure ActivatorSettings where
  /-- The directory of the environments. -/
  root : Path
  /-- Where the search for requirement files starts. -/
  projectDir : Path
  /-- Whether requirement files are looked for in the working directory too. -/
  includeWorkingDir : Bool
  /-- The interpreter that environments are built with. -/
  interpreter : String
  provisionTimeout : Duration
  lockTimeout : Duration
  lockMode : LockMode
deriving DecidableEq, Repr

namespace ActivatorSettings

/-- The interpreter unless another one is asked for. -/
def standardInterpreter : String := "python3"

/-- The settings for a directory of environments that is a project directory at the same time. -/
def standard (root : Path) : ActivatorSettings where
  root
  projectDir := root
  includeWorkingDir := true
  interpreter := standardInterpreter
  provisionTimeout := .ofSeconds EnvironmentSettings.standardProvisionSeconds
  lockTimeout := .ofSeconds EnvironmentSettings.standardLockSeconds
  lockMode := .block

/-- The settings that settings of environments ask for. -/
def ofEnvironment (settings : EnvironmentSettings) (projectDir : Path) : ActivatorSettings where
  root := settings.root
  projectDir
  includeWorkingDir := true
  interpreter := settings.interpreter.getD standardInterpreter
  provisionTimeout := .ofSeconds settings.provisionSeconds
  lockTimeout := .ofSeconds settings.lockSeconds
  lockMode := settings.lockMode

end ActivatorSettings
end Enclave
