import Enclave.Bytes
import Enclave.Table

/-! # The process environment

An environment is a table of variables.  A value is any byte sequence; reading a variable as text
gives nothing when its value is not well-formed UTF-8.  A key must be nonempty and free of `=` and
NUL, and a value free of NUL; `assign` refuses anything else. -/

namespace Enclave

/-- The variables of a process. -/
abbrev Environ := Table Bytes

namespace Environ

/-- The value of a variable that is text. -/
def text? (env : Environ) (key : String) : Option String :=
  (env.get? key).bind Bytes.text?

/-- Whether a variable can have this key. -/
def validKey (key : String) : Bool :=
  key != "" && !key.contains '=' && !key.contains (Char.ofNat 0)

/-- Whether a variable can have this value. -/
def validValue (value : Bytes) : Bool :=
  !value.contains 0

/-- A key or a value that no variable can have. -/
inductive Refusal
  | badKey (key : String)
  | badValue (key : String)
deriving DecidableEq, Repr

/-- Sets a variable, or removes it, if its key and value are allowed. -/
def assign (env : Environ) (key : String) (value : Option Bytes) : Except Refusal Environ :=
  if !validKey key then .error (.badKey key)
  else if !value.all validValue then .error (.badValue key)
  else .ok (env.put key value)

/-- Performs assignments in order.  The first one that is refused stops it. -/
def assignAll (env : Environ) : List (String × Option Bytes) → Option Refusal × Environ
  | [] => (none, env)
  | (key, value) :: rest =>
      match Environ.assign env key value with
      | .error refusal => (some refusal, env)
      | .ok env => assignAll env rest

end Environ
end Enclave
