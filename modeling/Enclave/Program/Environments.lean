import Enclave.CommandLine.Arguments
import Enclave.Json.Printer
import Enclave.Lock.Build
import Enclave.Program.Basic
import Enclave.Provision.System
import Enclave.Record
import Enclave.Size
import Enclave.Text.LowerCase

/-! # Listing and removing environments

The environments in a directory are those of its directories that hold a build record or an
interpreter. -/

namespace Enclave.Program

/-- An environment in a directory of environments. -/
structure Listed where
  name : String
  location : Path
  size : Nat
  record : Option BuildRecord

namespace Listed

/-- The total size of the files in the directory that a path denotes. -/
def sizeAt (world : World) (path : Path) : Nat :=
  match world.files.find world.base path with
  | .ok (location, _) => world.files.sizeBelow location
  | .error _ => 0

/-- The environment at a path, if there is one, and the reports about its record. -/
def at? (world : World) (path : Path) : Option Listed × List Event :=
  if !world.files.isDirectory world.base path then (none, [])
  else
    let (record, events) := BuildRecord.load world path
    if record.isNone && !(Venv.perform (Venv.isPresent path) world).1 then (none, events)
    else
      (some ⟨Bytes.display (path.fileName?.getD []), path, sizeAt world path, record⟩, events)

/-- When and from what an environment was built. -/
def origin (listed : Listed) : String :=
  match listed.record with
  | some record => s!"{record.fingerprint.short}, built {record.builtAt.tableText}"
  | none => "no build record"

/-- The line about an environment in the list. -/
def line (listed : Listed) : String :=
  s!"  • {listed.name} ({Size.text listed.size}, {listed.origin})"

/-- The line about an environment that is about to be removed. -/
def sizeLine (listed : Listed) : String :=
  s!"  • {listed.name} ({Size.text listed.size})"

/-- An environment as a document. -/
def toJson (listed : Listed) : Json.Value :=
  let ofRecord (record : BuildRecord) : List (String × Json.Value) :=
    [("fingerprint", .ofText record.fingerprint.text), ("built_at", .ofText record.builtAt.text)] ++
      if record.requirements = [] then [] else [("requirements", .ofTexts record.requirements)]
  .ofMembers ([("name", .ofText listed.name), ("location", .ofText listed.location.display),
    ("size_bytes", .ofNat listed.size)] ++ ((listed.record.map ofRecord).getD []))

end Listed

/-- The environments in a directory in the order of their names, and the reports about their
records. -/
def scan (world : World) (root : Path) : Except IoError (List Listed × List Event) :=
  match world.files.listDirectory world.base root with
  | .error cause => .error cause
  | .ok names =>
      let found := names.map fun name => Listed.at? world (root.join ⟨name⟩)
      .ok ((found.filterMap (·.1)).mergeSort fun a b => a.name ≤ b.name, found.flatMap (·.2))

/-- The environments in a directory in the order of their names. -/
def environmentsIn (root : Path) : Action (List Listed) := do
  match scan (← world) root with
  | .ok (listed, events) =>
      report events
      return listed
  | .error cause => throw ⟨s!"Failed to read {root.display}", [cause.message]⟩

/-- The directory of environments. -/
def rootDirectory (root : Option Path) : Action Path := do
  let (settings, events) := EnvironmentSettings.fromWorld (← world)
  report events
  return (settings.override { root }).root

/-- The environments in a directory; a missing one holds none. -/
def environmentsOf (root : Path) : Action (List Listed) := do
  if (← world).pathExists root then environmentsIn root else return []

/-- The directory of environments and the environments in it. -/
def findEnvironments (root : Option Path) : Action (Path × List Listed) := do
  let root ← rootDirectory root
  let listed ← environmentsOf root
  return (root, listed)

/-- Says that there are no environments. -/
def printNone (root : Path) : Action Unit :=
  printErrorLine s!"No environments found at {root.display}"

/-- Prints the environments in a directory. -/
def printEnvironments (root : Path) (listed : List Listed) (json : Bool) : Action Unit := do
  if json then
    if listed.all (·.location.bytes.text?.isSome) then
      printLine (Json.pretty (.array (listed.map Listed.toJson)))
    else throw ⟨"path contains invalid UTF-8 characters", []⟩
  else if listed.isEmpty then printNone root
  else
    printLine s!"Environments ({listed.length}) in {root.display}:"
    (listed.map Listed.line).forM printLine

/-- Lists the environments. -/
def list (root : Option Path) (json : Bool) : Action Unit := do
  let (root, listed) ← findEnvironments root
  printEnvironments root listed json

/-! ### Removal -/

/-- What became of an environment that was to be removed. -/
inductive Removal
  | removed (size : Nat)
  | skipped (notice : String)
  | failed (notice : String)
deriving DecidableEq, Repr

namespace Removal

/-- What has to be said about a removal. -/
def notice? : Removal → Option String
  | removed _ => none
  | skipped notice => some notice
  | failed notice => some notice

/-- Whether an environment was removed. -/
def isRemoved : Removal → Bool
  | removed _ => true
  | _ => false

/-- Whether an environment was in use. -/
def isSkipped : Removal → Bool
  | skipped _ => true
  | _ => false

/-- Whether an environment could not be removed. -/
def isFailed : Removal → Bool
  | failed _ => true
  | _ => false

/-- The size of what was removed. -/
def freed : Removal → Nat
  | removed size => size
  | _ => 0

/-- Removes an environment while its lock is held. -/
def ofEnvironment (listed : Listed) (world : World) : Removal × World :=
  match BuildLock.attempt (Layout.lockFile listed.location) world with
  | (.error cause, world) =>
      let e := LockError.io (Layout.lockFile listed.location) cause
      (.failed s!"  ✗ Failed to lock {listed.name}: {e.message}", world)
  | (.ok none, world) =>
      (.skipped s!"  - Skipping {listed.name}: being built by another process", world)
  | (.ok (some lock), world) =>
      let (result, world) := world.removeTree listed.location
      let world := lock.release world
      match result with
      | .ok () => (.removed listed.size, world)
      | .error cause => (.failed s!"  ✗ Failed to remove {listed.name}: {cause.message}", world)

end Removal

/-- The last line about the removals of some environments. -/
def removalSummary (environments : Nat) (removals : List Removal) : String :=
  let removed := removals.countP Removal.isRemoved
  let skipped := removals.countP Removal.isSkipped
  let failed := removals.countP Removal.isFailed
  let freed := (removals.map Removal.freed).foldl (· + ·) 0
  if failed = 0 ∧ skipped = 0 then
    s!"✓ Removed {removed} environment(s), freed {Size.text freed}"
  else s!"⚠ Removed {removed}/{environments} environments ({skipped} skipped, {failed} errors)"

/-- Removes environments one after the other. -/
def removeAll : List Listed → Action (List Removal)
  | [] => return []
  | listed :: rest => do
      let removal ← onWorld (Removal.ofEnvironment listed)
      match removal.notice? with
      | some notice => printErrorLine notice
      | none => pure ()
      let removals ← removeAll rest
      return removal :: removals

/-- The first line of the input with its end. -/
def firstLine (input : Bytes) : Bytes :=
  input.takeWhile (· != 0x0A) ++ (input.dropWhile (· != 0x0A)).take 1

/-- Whether an answer is a yes. -/
def isYes (answer : String) : Bool :=
  ["y", "yes"].contains (Text.lowered (Text.trimmed answer))

/-- Asks whether the environments are to be removed. -/
def confirm : Action Bool := do
  printError "\nRemove all environments? [y/N] "
  match (firstLine (← get).input).text? with
  | some answer => return isYes answer
  | none => throw ⟨IoError.notUtf8.message, []⟩

/-- The lines about the environments that are to be removed. -/
def overview (root : Path) (listed : List Listed) : List String :=
  let total := (listed.map Listed.size).foldl (· + ·) 0
  [s!"🗂  Environments ({listed.length}) in {root.display}:", ""] ++ listed.map Listed.sizeLine ++
    ["", s!"Total: {Size.text total} ({listed.length} environments)"]

/-- Removes the environments in a directory if that is wanted. -/
def removeEnvironments (root : Path) (listed : List Listed) (dryRun force : Bool) :
    Action Unit := do
  if listed.isEmpty then printNone root
  else
    (overview root listed).forM printErrorLine
    if dryRun then
      printErrorLine ""
      printErrorLine "(Dry run: no files removed. Remove --dry-run to delete.)"
    else
      let agreed ← if force then pure true else confirm
      if agreed then
        let removals ← removeAll listed
        printErrorLine ""
        printErrorLine (removalSummary listed.length removals)
      else printErrorLine "Cancelled."

/-- Removes all environments. -/
def clean (root : Option Path) (dryRun force : Bool) : Action Unit := do
  let (root, listed) ← findEnvironments root
  removeEnvironments root listed dryRun force

end Enclave.Program
