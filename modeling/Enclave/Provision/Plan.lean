import Enclave.Explanation
import Enclave.Fingerprint

/-! # Plans for environments

A plan says what an environment is to be built from.  A provisioner is whatever can tell whether an
environment is there, build it from a plan and destroy it. -/

namespace Enclave

/-- What to build. -/
structure ProvisionPlan where
  fingerprint : Fingerprint
  interpreter : String
  requirements : List String
deriving DecidableEq, Repr

/-- Why an environment could not be built or destroyed. -/
inductive ProvisionError
  | stepFailed (step detail : String)
  | timedOut (step : String) (timeout : Duration)
  | other (explanation : Explanation)
deriving DecidableEq, Repr

namespace ProvisionError

/-- The wording of an error. -/
def message : ProvisionError → String
  | stepFailed step detail => s!"{step} failed: {detail}"
  | timedOut step timeout => s!"{step} exceeded the provisioning timeout of {timeout.seconds}s"
  | other explanation => explanation.statement

end ProvisionError

/-- What builds environments in the world, with a memory of its own. -/
structure Provisioner (Memory : Type) where
  /-- Whether a usable environment is at a location. -/
  isPresent : Path → World × Memory → Bool × (World × Memory)
  /-- Makes the environment at a location what a plan asks for, in a given time. -/
  ensure : Path → ProvisionPlan → Duration → World × Memory →
    Except ProvisionError Unit × (World × Memory)
  /-- Removes the environment at a location. -/
  destroy : Path → World × Memory → Except ProvisionError Unit × (World × Memory)

end Enclave
