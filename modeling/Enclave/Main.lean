import Enclave.Program.Start
import Enclave.World.Image
import Std.Time.DateTime

/-! # The command line

The outermost layer of the program: it takes the arguments, the variables, the clock and the input
from its process, runs the program in a bare system that is held in memory, and writes out how the
program ended. -/

namespace Enclave.Program

/-- The variables that the program takes from its process. -/
def variableNames : List String :=
  [Variable.root, Variable.rootAlias, Variable.name, Variable.interpreter,
    Variable.interpreterAlias, Variable.provisionTimeout, Variable.lockTimeout, Variable.lockMode,
    Variable.searchPath, Variable.activeLocation, Variable.interpreterHome, Variable.quiet,
    Variable.logLevel, Variable.logJson, Variable.logMode, Variable.logDirectory, Variable.filter,
    Variable.noColour, ResolutionContext.homeVariable]

/-- The variables of the process. -/
def readEnviron : IO Environ :=
  variableNames.foldlM (fun environ name => do
    match ← IO.getEnv name with
    | some value => return environ.set name (Bytes.ofText value)
    | none => return environ) .empty

/-- The point in time that the clock of the process shows. -/
def readClock : IO Instant := do
  let moment := Std.Time.DateTime.ofTimestampWithZone (← Std.Time.Timestamp.now) .UTC
  let second := moment.hour.toNat * 3600 + moment.minute.toNat * 60 + moment.second.toNat
  return ((Date.ofParts? moment.year.toInt moment.month.toNat moment.day.toNat).bind
    fun date => Instant.ofParts? date second moment.nanosecond.toNat).getD Instant.epoch

/-- The input of the process, if the arguments ask for a command that may read it. -/
def readInput (environ : Environ) (arguments : List String) : IO Bytes := do
  if readsInput environ arguments then
    return (← (← IO.getStdin).readBinToEnd).toList
  else return []

/-- The directory in which the program starts. -/
def homeDirectory : String := "/home"

end Enclave.Program

open Enclave in
/-- Runs the program as a process. -/
def main (arguments : List String) : IO UInt32 := do
  let environ ← Program.readEnviron
  let input ← Program.readInput environ arguments
  let world := { World.start Program.homeDirectory with environ }
  let (ending, _) := Program.start (← Program.readClock) arguments input world
  (← IO.getStdout).write ⟨ending.stdout.toArray⟩
  (← IO.getStderr).write ⟨ending.stderr.toArray⟩
  return UInt32.ofNat ending.code
