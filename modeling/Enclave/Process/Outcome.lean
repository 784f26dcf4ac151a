import Enclave.Bytes
import Enclave.Duration
import Enclave.Decimal.Shortest

/-! # How a child ends

A child process ends with an exit code or by a signal, or it is stopped because its time is over.
`BoundedOutput` is what is known of it then. -/

namespace Enclave

/-- How a process ended. -/
inductive Ending
  | exited (code : Nat)
  | signalled (number : Nat)
deriving Repr, DecidableEq, Inhabited

namespace Ending

/-- The status that a shell gives to an ending. -/
def status : Ending → Nat
  | exited code => code
  | signalled number => 128 + number

/-- The exit code of a process that was not ended by a signal. -/
def code? : Ending → Option Nat
  | exited code => some code
  | signalled _ => none

end Ending

/-- What a child with a limited time has written, and how it ended.  A child that was ended by a
signal, and one that was stopped, has no exit code. -/
structure BoundedOutput where
  stdout : String
  stderr : String
  exitCode : Option Int
  timedOut : Bool
deriving Repr, DecidableEq, Inhabited

namespace BoundedOutput

/-- Whether the child did what it was asked to do. -/
def success (output : BoundedOutput) : Bool :=
  !output.timedOut && output.exitCode == some 0

/-- The output of a child that ended in time.  A stream that is not well-formed text is lost. -/
def ofEnded (ending : Ending) (stdout stderr : Bytes) : BoundedOutput where
  stdout := stdout.text?.getD ""
  stderr := stderr.text?.getD ""
  exitCode := ending.code?.map Int.ofNat
  timedOut := false

/-- The output of a child that was stopped after a time. -/
def ofStopped (limit : Duration) : BoundedOutput where
  stdout := ""
  stderr := s!"Process killed: exceeded timeout of {limit.fractionalSeconds.text} seconds"
  exitCode := none
  timedOut := true

theorem success_ofEnded (ending : Ending) (stdout stderr : Bytes) :
    (ofEnded ending stdout stderr).success = true ↔ ending = .exited 0 := by
  cases ending with
  | exited code => simp [ofEnded, success, Ending.code?]
  | signalled number => simp [ofEnded, success, Ending.code?]

theorem success_ofStopped (limit : Duration) : (ofStopped limit).success = false := rfl

end BoundedOutput
end Enclave
