import Enclave.Activation.Machine
import Enclave.Settings.Reporting

/-! # Activators

An activator carries out activations in the world with a provisioner, and remembers in which state
the last activation of every name ended. -/

namespace Enclave

/-- Settings, and the last state of every name. -/
structure Activator where
  settings : ActivatorSettings
  states : Table ActivationState := .empty

/-- A successful activation with everything that its caller gets to know. -/
structure Activation where
  descriptor : Descriptor
  location : Option Path
  policy : RefreshPolicy
  fingerprint : Option Fingerprint
  rebuilt : Bool
  transitions : List Transition
  journal : Journal
deriving DecidableEq, Repr

namespace Activator

open Activation (Request Outcome)

/-- The last state of a name. -/
def state (activator : Activator) (name : String) : ActivationState :=
  (activator.states.get? name).getD .unresolved

/-- Where the environment with a name is. -/
def locate (activator : Activator) (world : World) (name : String) :
    Except ActivationError Path :=
  Activation.locate activator.settings.root name world.currentDirectory

/-- The second directory in which requirement files are looked for. -/
def searchStart (settings : ActivatorSettings) (world : World) : Path :=
  match settings.includeWorkingDir, world.currentDirectory with
  | true, .ok directory => directory
  | _, _ => settings.projectDir

/-- The requirements in the given files, or in those that are found, and the reports about files
that cannot be read. -/
def declarations (settings : ActivatorSettings) (world : World) (files : Option (List Path)) :
    Requirements × List Event :=
  let files := match files with
    | some files => files
    | none => Requirements.discover world settings.projectDir (searchStart settings world)
  Requirements.load world files

/-- A change of the world beside the memory of a provisioner. -/
def onWorld {α Memory : Type} (operation : World → α × World) (state : World × Memory) :
    α × (World × Memory) :=
  let (answer, world) := operation state.1
  (answer, world, state.2)

theorem onWorld_fst {α Memory : Type} (operation : World → α × World)
    (state : World × Memory) : (onWorld operation state).1 = (operation state.1).1 := rfl

theorem onWorld_world {α Memory : Type} (operation : World → α × World)
    (state : World × Memory) : (onWorld operation state).2.1 = (operation state.1).2 := rfl

/-- How the world and a provisioner answer the requests of an activation.  `now` is the time. -/
def handle {Memory : Type} (settings : ActivatorSettings) (provisioner : Provisioner Memory)
    (now : Instant) : (request : Request) → World × Memory → request.Answer × (World × Memory)
  | .workingDirectory => onWorld fun world => (world.currentDirectory, world)
  | .declarations files => onWorld fun world =>
      let (requirements, events) := declarations settings world files
      (requirements, world.reportAll events)
  | .isPresent location => provisioner.isPresent location
  | .readRecord location => onWorld fun world =>
      let (record, events) := BuildRecord.load world location
      (record, world.reportAll events)
  | .acquireLock path mode timeout => onWorld (BuildLock.acquireIn path mode timeout)
  | .releaseLock lock => onWorld fun world => ((), lock.release world)
  | .removeRecord location => onWorld (BuildRecord.remove location)
  | .destroy location => provisioner.destroy location
  | .ensure location plan timeout => provisioner.ensure location plan timeout
  | .now => onWorld fun world => (now, world)
  | .writeDraft location record => onWorld (record.writeDraft location)
  | .moveDraft location => onWorld (BuildRecord.moveDraft location)
  | .report event => onWorld fun world => ((), world.report event)

/-- Whether the process environment asks for warnings and errors only. -/
def isQuiet (world : World) : Bool :=
  (ReportSettings.fromEnviron world.environ).quiet

/-- The activation that a successful outcome describes. -/
def activationOf (request : ActivationRequest) (transitions : List Transition)
    (success : Activation.Success) : Activation where
  descriptor := request.descriptor
  location := success.location
  policy := request.policy
  fingerprint := success.fingerprint
  rebuilt := success.rebuilt
  transitions
  journal := success.journal

/-- What an activation leaves behind besides the world: its result, the activator and the
context. -/
structure Completion where
  result : Except ActivationError Activation
  activator : Activator
  context : ResolutionContext

/-- What an outcome means for the activator and the context. -/
def complete (activator : Activator) (request : ActivationRequest) (outcome : Outcome) :
    Completion where
  result := outcome.result.map (activationOf request outcome.transitions)
  activator :=
    { activator with states := activator.states.set request.descriptor.name outcome.state }
  context := outcome.context

/-- Activates what a request asks for. -/
def activate {Memory : Type} (activator : Activator) (provisioner : Provisioner Memory)
    (now : Instant) (context : ResolutionContext) (request : ActivationRequest)
    (state : World × Memory) : Completion × (World × Memory) :=
  let steps := Activation.activate activator.settings (isQuiet state.1) context request
  let (outcome, state) := steps.run (handle activator.settings provisioner now) state
  (activator.complete request outcome, state)

/-- The report about the end of an activation. -/
def deactivated (name : String) : Event :=
  ⟨.info, .activator, "deactivated", [("env", name)]⟩

/-- Undoes what an activation changed in the context. -/
def deactivate (activator : Activator) (context : ResolutionContext) (activation : Activation) :
    Activator × ResolutionContext :=
  ({ activator with states := activator.states.set activation.descriptor.name .unresolved },
    context.revert activation.journal)

end Activator
end Enclave
