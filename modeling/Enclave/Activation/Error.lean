import Enclave.Duration
import Enclave.Path

/-! # Errors of an activation -/

namespace Enclave

/-- Why an activation failed. -/
inductive ActivationError
  | invalidDescriptor (name reason : String)
  | environmentNotFound (name : String) (location : Path)
  | provisioningFailed (name reason : String)
  | lockTimeout (name : String) (lock : Path) (waited : Duration)
deriving DecidableEq, Repr

namespace ActivationError

/-- The wording of an error. -/
def message : ActivationError → String
  | invalidDescriptor name reason => s!"invalid environment descriptor '{name}': {reason}"
  | environmentNotFound name location =>
      s!"environment '{name}' not found at {location.display} and refresh policy is 'never'"
  | provisioningFailed name reason => s!"provisioning environment '{name}' failed: {reason}"
  | lockTimeout name lock waited =>
      s!"environment '{name}' is being built by another process (lock {lock.display} not " ++
        s!"acquired after {waited.seconds}s)"

/-- The name of the kind of an error. -/
def kind : ActivationError → String
  | invalidDescriptor _ _ => "invalid_descriptor"
  | environmentNotFound _ _ => "environment_not_found"
  | provisioningFailed _ _ => "provisioning_failed"
  | lockTimeout _ _ _ => "lock_timeout"

/-- Whether the same request may succeed when it is made again. -/
def isRetryable : ActivationError → Bool
  | provisioningFailed _ _ => true
  | lockTimeout _ _ _ => true
  | _ => false

end ActivationError
end Enclave
