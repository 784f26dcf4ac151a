import Enclave.Provision.Plan

/-! # Scripted provisioners

A scripted provisioner follows a script instead of building anything real.  An environment is there
when it holds a marker file, unless the script says otherwise; building and destroying succeed or
fail as the script says.  All calls are remembered. -/

namespace Enclave

namespace Scripted

/-- What building does. -/
inductive EnsureScript
  /-- Make the directory of executables and the marker. -/
  | build
  /-- Succeed and leave everything as it is. -/
  | pretend
  /-- Fail and leave everything as it is. -/
  | fail (error : ProvisionError)

/-- What destroying does. -/
inductive DestroyScript
  | remove
  | fail (error : ProvisionError)

/-- A script.  As long as there are answers left, these say whether an environment is there. -/
structure Script where
  ensure : EnsureScript := .build
  destroy : DestroyScript := .remove
  answers : List Bool := []

/-- A call that was made. -/
inductive Call
  | ensure (location : Path) (plan : ProvisionPlan) (timeout : Duration)
  | destroy (location : Path)

/-- The rest of the script, and the calls so far. -/
structure Memory where
  script : Script := {}
  calls : List Call := []

/-- The file that marks an environment. -/
def marker (location : Path) : Path :=
  location.child "env.ok"

/-- A failed operation on files as the failure of a provisioner. -/
def ofIoError {α : Type} (result : Except IoError α) : Except ProvisionError α :=
  result.mapError fun cause => .other ⟨cause.message, []⟩

/-- Whether the script or the marker says that an environment is there. -/
def isPresent (location : Path) (state : World × Memory) : Bool × (World × Memory) :=
  let (world, memory) := state
  match memory.script.answers with
  | answer :: answers =>
      (answer, world, { memory with script := { memory.script with answers } })
  | [] => (world.files.isFile world.base (marker location), world, memory)

/-- Makes the directory of executables and the marker. -/
def build (location : Path) (world : World) : Except IoError Unit × World :=
  match world.createDirectories (Layout.binDir location) with
  | (.error cause, world) => (.error cause, world)
  | (.ok (), world) => world.change fun files base => files.writeBytes base (marker location) []

/-- Removes an environment if there is anything at its location. -/
def remove (location : Path) (world : World) : Except IoError Unit × World :=
  if world.pathExists location then world.removeTree location else (.ok (), world)

/-- Builds an environment as the script says. -/
def ensure (location : Path) (plan : ProvisionPlan) (timeout : Duration)
    (state : World × Memory) : Except ProvisionError Unit × (World × Memory) :=
  let (world, memory) := state
  let memory := { memory with calls := memory.calls ++ [Call.ensure location plan timeout] }
  match memory.script.ensure with
  | .build =>
      let (result, world) := build location world
      (ofIoError result, world, memory)
  | .pretend => (.ok (), world, memory)
  | .fail error => (.error error, world, memory)

/-- Destroys an environment as the script says. -/
def destroy (location : Path) (state : World × Memory) :
    Except ProvisionError Unit × (World × Memory) :=
  let (world, memory) := state
  let memory := { memory with calls := memory.calls ++ [Call.destroy location] }
  match memory.script.destroy with
  | .remove =>
      let (result, world) := remove location world
      (ofIoError result, world, memory)
  | .fail error => (.error error, world, memory)

/-- The provisioner that follows its script. -/
def provisioner : Provisioner Memory :=
  ⟨isPresent, ensure, destroy⟩

end Scripted
end Enclave
