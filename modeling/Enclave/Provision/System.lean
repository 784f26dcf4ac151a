import Enclave.Context.Use
import Enclave.Process.Child
import Enclave.Provision.Venv

/-! # Building virtual environments in the world

How the world answers the requests of a build, and the provisioner that builds this way. -/

namespace Enclave.Venv

/-- The directories in which the process looks up programs. -/
def searchDirectories (world : World) : List Path :=
  match world.environ.get? Variable.searchPath with
  | some text => Path.splitSearchPath text
  | none => []

/-- How the world answers the requests of a build. -/
def handle : (request : Request) → World → request.Answer × World
  | .isThere path, world => (world.pathExists path, world)
  | .removeTree path, world => world.removeTree path
  | .createDirectories path, world => world.createDirectories path
  | .findProgram name, world =>
      (ResolutionContext.findProgram world (.ofText name) (searchDirectories world), world)
  | .clock, world => (world.clock, world)
  | .run command limit, world => command.runBounded limit world
  | .report event, world => ((), world.report event)

/-- Carries out a procedure in the world. -/
def perform {α : Type} (steps : Steps α) (world : World) : α × World :=
  steps.run handle world

/-- Carries out a procedure in the world beside an empty memory. -/
def performBeside {α : Type} (steps : Steps α) (state : World × Unit) : α × (World × Unit) :=
  let (result, world) := perform steps state.1
  (result, world, state.2)

/-- The provisioner that builds virtual environments, with a fixed interpreter or with those that
the plans name. -/
def provisioner (fixed : Option Path) : Provisioner Unit where
  isPresent location := performBeside (isPresent location)
  ensure location plan timeout := performBeside (ensure fixed location plan timeout)
  destroy location := performBeside (destroy location)

end Enclave.Venv
