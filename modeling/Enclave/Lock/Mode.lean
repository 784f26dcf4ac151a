import Enclave.Text.Blank
import Enclave.Text.LowerCase

/-! # What to do when a lock is held -/

namespace Enclave

/-- What a builder does when another process holds the build lock. -/
inductive LockMode
  /-- Wait for the lock until the lock timeout. -/
  | block
  /-- Give up at once. -/
  | failFast
deriving DecidableEq, Repr, Inhabited

namespace LockMode

/-- The mode that a text names, or the wording of the refusal. -/
def parse (text : String) : Except String LockMode :=
  let word := Text.lowered (Text.trimmed text)
  if ["block", "wait"].contains word then .ok block
  else if ["fail-fast", "failfast", "fail_fast"].contains word then .ok failFast
  else .error s!"unknown lock mode '{word}' (expected block or fail-fast)"

/-- The name of a mode. -/
def label : LockMode → String
  | block => "Block"
  | failFast => "FailFast"

end LockMode
end Enclave
