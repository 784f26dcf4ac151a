import Enclave.Event
import Enclave.Path
import Enclave.Text.Blank

/-! # Requests for an activation

A request names an environment, says whether it has to be an isolated one, and says when an existing
one is rebuilt. -/

namespace Enclave

/-- Whether an isolated environment is asked for. -/
inductive EnvironmentMode
  /-- An isolated environment, which is built if need be. -/
  | isolated
  /-- What the system offers, as it is. -/
  | system
deriving DecidableEq, Repr, Inhabited

namespace EnvironmentMode

/-- The word for a mode. -/
def word : EnvironmentMode → String
  | isolated => "virtual"
  | system => "system"

/-- The mode that a text names, or the wording of the refusal. -/
def parse (text : String) : Except String EnvironmentMode :=
  let word := Text.lowered (Text.trimmed text)
  if ["virtual", "venv"].contains word then .ok isolated
  else if ["system", "native"].contains word then .ok system
  else .error s!"unsupported environment mode '{word}'"

end EnvironmentMode

/-- When an existing environment is rebuilt. -/
inductive RefreshPolicy
  /-- Never, and a missing one is not built either. -/
  | never
  /-- Always. -/
  | always
  /-- If its record does not match what is declared now. -/
  | smart
deriving DecidableEq, Repr, Inhabited

namespace RefreshPolicy

/-- The word for a policy. -/
def word : RefreshPolicy → String
  | never => "never"
  | always => "always"
  | smart => "smart"

/-- The policy that a text names, or the wording of the refusal. -/
def parse (text : String) : Except String RefreshPolicy :=
  let word := Text.lowered (Text.trimmed text)
  if ["never", "none"].contains word then .ok never
  else if ["always", "force"].contains word then .ok always
  else if word == "smart" then .ok smart
  else .error s!"unknown refresh policy '{word}' (expected never, always or smart)"

end RefreshPolicy

/-- How far an activation has come. -/
inductive ActivationState
  | unresolved
  | building
  | active
  | failed
deriving DecidableEq, Repr, Inhabited

namespace ActivationState

/-- The word for a state. -/
def word : ActivationState → String
  | unresolved => "unresolved"
  | building => "building"
  | active => "active"
  | failed => "failed"

/-- The level at which a transition into a state is reported. -/
def level : ActivationState → Level
  | failed => .warn
  | active => .info
  | building => .info
  | unresolved => .debug

end ActivationState

/-- A step from one state to another. -/
abbrev Transition := ActivationState × ActivationState

/-- The environment that is asked for.  Without requirement files these are looked for. -/
structure Descriptor where
  name : String
  mode : EnvironmentMode
  requirementFiles : Option (List Path) := none
deriving DecidableEq, Repr, Inhabited

namespace Descriptor

/-- The descriptor of what the system offers. -/
def system : Descriptor := ⟨"system", .system, none⟩

end Descriptor

/-- What a single activation is asked to do. -/
structure ActivationRequest where
  descriptor : Descriptor
  policy : RefreshPolicy
  threshold : Threshold := .upTo .info
deriving DecidableEq, Repr, Inhabited

end Enclave
