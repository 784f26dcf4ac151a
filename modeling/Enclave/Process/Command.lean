import Enclave.Environ
import Enclave.Path

/-! # Commands for child processes -/

namespace Enclave

/-- What a child is asked to do.  `overrides` are set, or removed, in its environment. -/
structure ChildCommand where
  program : Path
  arguments : List Bytes
  overrides : Table (Option Bytes) := .empty
deriving DecidableEq, Repr

namespace ChildCommand

/-- A command with text arguments. -/
def ofTexts (program : Path) (arguments : List String) : ChildCommand :=
  ⟨program, arguments.map Bytes.ofText, .empty⟩

/-- The environment of the child of a process. -/
def environ (command : ChildCommand) (inherited : Environ) : Environ :=
  command.overrides.entries.foldl (fun env (key, value) => env.put key value) inherited

/-- The program and all arguments. -/
def words (command : ChildCommand) : List Bytes :=
  command.program.bytes :: command.arguments

end ChildCommand
end Enclave
