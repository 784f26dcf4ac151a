import Enclave.Activation.Document
import Enclave.CommandLine.Arguments
import Enclave.Context.Use
import Enclave.Json.Printer
import Enclave.Program.Basic
import Enclave.Provision.System
import Enclave.Provision.Versions

/-! # Activating an environment

The commands that activate an environment: to describe it, to list its packages, and to run a
command in it. -/

namespace Enclave.Program

open CommandLine (Target)

/-! ### Settings -/

/-- The settings that the process environment and a target ask for. -/
def settingsFor (root : Option Path) (target : Target) (world : World) :
    EnvironmentSettings × List Event :=
  let (settings, events) := EnvironmentSettings.fromWorld world
  let overrides : EnvironmentSettings.Overrides :=
    { root
      provisionSeconds := target.provisionSeconds
      lockSeconds := target.lockSeconds
      lockMode := target.lockMode }
  let settings := settings.override overrides
  ({ settings with interpreter := target.interpreter <|> settings.interpreter }, events)

/-- The settings for a command. -/
def settings (root : Option Path) (target : Target) : Action EnvironmentSettings := do
  let (settings, events) := settingsFor root target (← world)
  report events
  return settings

/-- The target of a command that only says which environment it is about. -/
def existing (name : Option String) (system : Bool) : Target where
  name
  system
  refresh := .never
  requirements := []
  interpreter := none
  provisionSeconds := none
  lockSeconds := none
  lockMode := none

/-- The environment that a target describes. -/
def descriptorOf (settings : EnvironmentSettings) (target : Target) : Descriptor :=
  if target.system then Descriptor.system
  else
    { name := target.name.getD settings.defaultName
      mode := .isolated
      requirementFiles :=
        if target.requirements.isEmpty then none else some target.requirements }

/-! ### Activation -/

/-- An activation with the context in which it is in effect, and the time that building takes at
most. -/
structure Active where
  activation : Activation
  context : ResolutionContext
  timeout : Duration

/-- Activates the environment that a target describes. -/
def activateTarget (root : Option Path) (target : Target) (threshold : Threshold) :
    Action Active := do
  let settings ← settings root target
  let directory ← workingDirectory
  let activator : Activator := { settings := .ofEnvironment settings directory }
  let request : ActivationRequest := ⟨descriptorOf settings target, target.refresh, threshold⟩
  let context := ResolutionContext.ofEnviron (← world).environ
  let now := (← get).now
  let done ← onWorld fun world =>
    let (done, world, _) :=
      activator.activate (Venv.provisioner none) now context request (world, ())
    (done, world)
  match done.result with
  | .ok activation =>
      return ⟨activation, done.context, activator.settings.provisionTimeout⟩
  | .error e => throw ⟨e.message, []⟩

/-- The versions in an active environment. -/
def versionsOf (active : Active) : Action VersionReport :=
  attempt (Venv.perform (VersionReport.ofEnvironment active.activation.location active.timeout))

/-! ### Output -/

/-- The description of an activation. -/
def summary (activation : Activation) : List String :=
  let first := match activation.location with
    | none => "✓ Using system environment"
    | some location =>
        let how := if activation.rebuilt then "built" else "reused"
        s!"✓ Environment '{activation.descriptor.name}' active at {location.display} ({how})"
  let fingerprint := activation.fingerprint.map fun fingerprint =>
    s!"  fingerprint: {fingerprint.short}"
  first :: fingerprint.toList

/-- The document about an activation. -/
def activationDocument (activation : Activation) (versions : Option VersionReport) : Json.Value :=
  .ofMembers [("activation", activation.toJson),
    ("versions", (versions.map fun report =>
      Json.Value.ofMembers [("packages", .ofMembers (report.packages.sorted.map fun (name, version) =>
        (name, .ofText version))), ("python", .ofText report.interpreter)]).getD .null)]

/-- Reports the versions. -/
def reportVersions (versions : VersionReport) : Action Unit :=
  report (versions.rows.map fun row => ⟨.debug, .report, VersionReport.row row, []⟩)

/-- Activates an environment and describes it. -/
def activate (root : Option Path) (target : Target) (threshold : Threshold)
    (versions shell json : Bool) : Action Unit := do
  let active ← activateTarget root target threshold
  let found ← if versions then do
      let found ← versionsOf active
      reportVersions found
      pure (some found)
    else pure none
  if shell then
    match active.context.shellStatements with
    | .ok statements => print statements
    | .error explanation => throw explanation
  else if json then
    printLine (Json.pretty (activationDocument active.activation found))
  else
    (summary active.activation).forM printLine
    match found with
    | some found =>
        printLine ""
        (found.rows.map VersionReport.row).forM printLine
    | none => return ()

/-- Lists the packages of an environment. -/
def freeze (root : Option Path) (name : Option String) (system : Bool) (threshold : Threshold)
    (json : Bool) : Action Unit := do
  let active ← activateTarget root (existing name system) threshold
  let versions ← versionsOf active
  if json then printLine (Json.pretty versions.toJson)
  else versions.listing.forM printLine

/-! ### Running a command -/

/-- Runs a command in an environment.  The result is the exit code of the command. -/
def run (root : Option Path) (target : Target) (threshold : Threshold) (command : List String) :
    Action Nat := do
  match command with
  | [] => throw ⟨"No command given", []⟩
  | program :: arguments =>
      let active ← activateTarget root target threshold
      let resolved := (active.context.resolve (← world) program).getD (.ofText program)
      report [⟨.debug, .runner, "running command",
        [("env", active.activation.descriptor.name), ("program", resolved.display)]⟩]
      match active.context.childVariables? with
      | none =>
          throw ⟨"Search path contains an entry that cannot be joined",
            [ResolutionContext.unjoinable]⟩
      | some overrides =>
          let child : ChildCommand := ⟨resolved, arguments.map Bytes.ofText, overrides⟩
          let input := (← get).input
          match ← onWorld (child.runAttached input) with
          | .error cause => throw ⟨s!"Failed to start '{program}'", [cause.message]⟩
          | .ok (ending, stdout, stderr) =>
              modify fun state =>
                { state with stdout := state.stdout ++ stdout, stderr := state.stderr ++ stderr }
              return ending.status

end Enclave.Program
