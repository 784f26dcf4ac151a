import Enclave.Explanation
import Enclave.Process.Command
import Enclave.Settings.Environment
import Enclave.Shell.Evaluate

/-! # Child processes

A child gets a program, arguments and an environment, and it is run in the world.  `runBounded`
gives it a limited time: the child is looked after at fixed intervals, and it is stopped at the first
of these moments at which its time is over. -/

namespace Enclave

namespace ChildCommand

/-- Where programs are looked up if no variable says so. -/
def defaultSearchPath : Bytes := Bytes.ofText "/bin:/usr/bin"

/-- What running the command means.  A child whose search path is changed looks up its program
itself, and runs it as a script of the shell if it is nothing else. -/
def invocation (command : ChildCommand) (world : World) : Except IoError Shell.Invocation :=
  if command.words.any (·.contains 0) then .error .nulInArgument
  else
    let looksUp := (command.overrides.get? Variable.searchPath).isSome
    let environ := if looksUp then command.environ world.environ else world.environ
    let searchPath := (environ.get? Variable.searchPath).getD defaultSearchPath
    let isPath := command.program.bytes.contains Path.slash
    Shell.Invocation.find world (looksUp && !isPath) (Shell.ofBytes searchPath)
      (command.words.map Shell.ofBytes)

/-- The time that a child takes to start. -/
def startTime : Duration := .ofMillis 1

/-- The bound on nested calls in a child. -/
def fuel : Nat := 8000

/-- Runs a program with an environment and an input up to a moment.  The result is its ending, if it
came to one, and what it wrote. -/
def execute (invocation : Shell.Invocation) (environ : Environ) (input : Bytes)
    (deadline : Option Duration) (world : World) : (Option Ending × Bytes × Bytes) × World :=
  let act : Shell.Act Ending := do
    Shell.Act.sleep startTime
    Shell.launch fuel invocation environ
  let frame : Shell.Frame :=
    { name := []
      streams := [(0, .source 0), (1, .sink 0), (2, .sink 1)] }
  let (result, _, state) := act.run
    (frame, { world, sources := [input], sinks := [[], []], deadline })
  ((result.toOption, state.sinks.headD [], (state.sinks.drop 1).headD []),
    { state.world with cwd := world.cwd, cwdId := world.cwdId, environ := world.environ })

/-- How often a child is looked after. -/
def interval : Duration := .ofMillis 50

/-- The first moment at which a child is looked after when a time has passed. -/
def roundUp (time : Duration) : Duration :=
  ⟨(time.nanos + interval.nanos - 1) / interval.nanos * interval.nanos⟩

/-- The explanation for a child that cannot be started. -/
def spawnFailure (command : ChildCommand) (cause : IoError) : Explanation :=
  ⟨s!"Failed to spawn {command.program.display}", [cause.message]⟩

/-- Runs a command, without input, for a limited time. -/
def runBounded (command : ChildCommand) (limit : Duration) (world : World) :
    Except Explanation BoundedOutput × World :=
  match command.invocation world with
  | .error cause => (.error (command.spawnFailure cause), world)
  | .ok invocation =>
      let deadline := world.clock.add (roundUp limit)
      let ((ending, stdout, stderr), after) :=
        execute invocation (command.environ world.environ) [] (some deadline) world
      let spent : Duration := roundUp (after.clock.remainder world.clock)
      let after := { after with clock := world.clock.add spent }
      match ending with
      | some ending => (.ok (.ofEnded ending stdout stderr), after)
      | none => (.ok (.ofStopped limit), after)

/-- Runs a command with an input and waits for its end. -/
def runAttached (command : ChildCommand) (input : Bytes) (world : World) :
    Except IoError (Ending × Bytes × Bytes) × World :=
  match command.invocation world with
  | .error cause => (.error cause, world)
  | .ok invocation =>
      let ((ending, stdout, stderr), after) :=
        execute invocation (command.environ world.environ) input none world
      (.ok (ending.getD (.signalled 9), stdout, stderr), after)

end ChildCommand
end Enclave
