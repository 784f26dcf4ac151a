import Enclave.Activation.Error
import Enclave.Activation.Request
import Enclave.Activation.Settings
import Enclave.Context.Basic
import Enclave.Lock.Build
import Enclave.Name
import Enclave.Provision.Plan
import Enclave.Record

/-! # The activation of an environment

An activation starts in the state `unresolved`.  It finds out whether the environment is there and
what it was built from, and decides from the policy whether to use it, to build it or to fail.
Building goes through the state `building`, under the build lock.  The activation ends in the state
`active` or `failed`, and the resolution context changes only on the way into `active`.

The activation is a procedure: files, locks and the provisioner are on the other side of its
requests, so statements about it hold whatever the answers are. -/

namespace Enclave.Activation

/-! ### Requests to the outside -/

/-- What an activation asks for. -/
inductive Request
  /-- The current directory. -/
  | workingDirectory
  /-- The requirements in the given files, or in those that are found. -/
  | declarations (files : Option (List Path))
  /-- Whether an environment is at a location. -/
  | isPresent (location : Path)
  /-- The build record of an environment. -/
  | readRecord (location : Path)
  /-- The lock at a path. -/
  | acquireLock (path : Path) (mode : LockMode) (timeout : Duration)
  /-- To give a lock back. -/
  | releaseLock (lock : BuildLock)
  /-- To remove a build record. -/
  | removeRecord (location : Path)
  /-- To remove an environment. -/
  | destroy (location : Path)
  /-- To build an environment. -/
  | ensure (location : Path) (plan : ProvisionPlan) (timeout : Duration)
  /-- The current time. -/
  | now
  /-- To write the draft of a build record. -/
  | writeDraft (location : Path) (record : BuildRecord)
  /-- To make the draft the build record. -/
  | moveDraft (location : Path)
  /-- To report an event. -/
  | report (event : Event)

/-- The answers to these requests. -/
abbrev Request.Answer : Request → Type
  | workingDirectory => Except IoError Path
  | declarations _ => Requirements
  | isPresent _ => Bool
  | readRecord _ => Option BuildRecord
  | acquireLock _ _ _ => Except LockError BuildLock
  | releaseLock _ => Unit
  | removeRecord _ => Except BuildRecord.Failure Unit
  | destroy _ => Except ProvisionError Unit
  | ensure _ _ _ => Except ProvisionError Unit
  | now => Instant
  | writeDraft _ _ => Except BuildRecord.Failure Unit
  | moveDraft _ => Except BuildRecord.Failure Unit
  | report _ => Unit

/-- A procedure that makes these requests. -/
abbrev Steps (α : Type) := Procedure Request.Answer α

/-- A single request. -/
def ask (request : Request) : Steps request.Answer :=
  Procedure.request request

/-! ### Reports -/

/-- Whom an activation reports to: the name it reports under, the level up to which it was asked to
report, and whether only warnings and errors are wanted. -/
structure Reporter where
  name : String
  threshold : Threshold
  quiet : Bool

namespace Reporter

/-- Whether events of a level are reported. -/
def admits (reporter : Reporter) (level : Level) : Bool :=
  reporter.threshold.admits level && (level.rank ≤ Level.warn.rank || !reporter.quiet)

/-- The events of a level that are reported. -/
def events (reporter : Reporter) (level : Level) (message : String)
    (fields : List (String × FieldValue)) : List Event :=
  if reporter.admits level then
    [⟨level, .activation, message, ("env", reporter.name) :: fields⟩]
  else []

/-- The reported events of a transition. -/
def ofTransition (reporter : Reporter) (transition : Transition) (detail : String) : List Event :=
  reporter.events transition.2.level detail
    [("from", transition.1.word), ("to", transition.2.word)]

end Reporter

/-- Reports events. -/
def reportAll : List Event → Steps Unit
  | [] => return ()
  | event :: rest => do
      ask (.report event)
      reportAll rest

/-! ### Decisions -/

/-- What to do about an environment. -/
inductive Decision
  | reuse
  | build (destroyFirst : Bool)
  | notFound
deriving DecidableEq, Repr

/-- The decision that a policy makes when it is known whether the environment is there, which
fingerprint its record has, and which one it should have. -/
def decide (policy : RefreshPolicy) (present : Bool) (recorded : Option Fingerprint)
    (current : Fingerprint) : Decision :=
  match policy with
  | .never => if present then .reuse else .notFound
  | .always => .build true
  | .smart => if present && recorded == some current then .reuse else .build false

/-- Why an environment is built. -/
def buildReason (present destroyFirst : Bool) (recorded : Option Fingerprint) : String :=
  if !present then "environment missing"
  else if destroyFirst then "refresh forced"
  else if recorded == none then "no build record"
  else "requirements changed"

/-! ### Locations -/

/-- The absolute path of the directory of environments, or why there is none. -/
def absoluteRoot (root : Path) (working : Except IoError Path) : Except String Path :=
  if root.isAbsolute then .ok root
  else match working with
    | .ok directory => .ok (directory.join root)
    | .error cause => .error s!"cannot resolve root {root.display}: {cause.message}"

/-- The location of the environment with a name. -/
def locate (root : Path) (name : String) (working : Except IoError Path) :
    Except ActivationError Path :=
  match Name.check name with
  | some refusal => .error (.invalidDescriptor name refusal.message)
  | none =>
      match absoluteRoot root working with
      | .error reason => .error (.invalidDescriptor name reason)
      | .ok root =>
          match Path.joinBelow? root (.ofText name) with
          | some location => .ok location
          | none => .error (.invalidDescriptor name (Layout.escapeMessage name))

/-- Asks for the current directory only if the location of a name depends on it. -/
def findLocation (root : Path) (name : String) : Steps (Except ActivationError Path) :=
  if (Name.check name).isSome || root.isAbsolute then
    return locate root name (.error .notFound)
  else do
    let working ← ask .workingDirectory
    return locate root name working

/-! ### Building -/

/-- What a build needs to know. -/
structure BuildTask where
  settings : ActivatorSettings
  reporter : Reporter
  name : String
  policy : RefreshPolicy
  location : Path
  plan : ProvisionPlan
  destroyFirst : Bool

namespace BuildTask

/-- A failed build. -/
def failure (task : BuildTask) (reason : String) : ActivationError :=
  .provisioningFailed task.name reason

/-- Reports a note about a build. -/
def note (task : BuildTask) (level : Level) (message : String) : Steps Unit :=
  reportAll (task.reporter.events level message [])

/-- Whether another process has built the same environment in the meantime. -/
def alreadyBuilt (task : BuildTask) : Steps Bool := do
  if task.policy == .smart then
    if ← ask (.isPresent task.location) then
      let recorded ← ask (.readRecord task.location)
      return recorded.any (·.fingerprint == task.plan.fingerprint)
    else return false
  else return false

/-- Removes an environment that has to be rebuilt from nothing. -/
def clear (task : BuildTask) : Steps (Except ActivationError Unit) := do
  if task.destroyFirst then
    task.note .debug "destroying existing environment"
    match ← ask (.destroy task.location) with
    | .ok () => return .ok ()
    | .error e => return .error (task.failure s!"destroy: {e.message}")
  else return .ok ()

/-- Builds the environment. -/
def provision (task : BuildTask) : Steps (Except ActivationError Unit) := do
  task.note .debug s!"provisioning {task.plan.requirements.length} requirement(s)"
  match ← ask (.ensure task.location task.plan task.settings.provisionTimeout) with
  | .ok () => return .ok ()
  | .error e => return .error (task.failure e.message)

/-- Records the build. -/
def record (task : BuildTask) : Steps (Except ActivationError Unit) := do
  let now ← ask .now
  let record := BuildRecord.make task.name task.plan.interpreter task.plan.fingerprint
    task.plan.requirements now
  match ← ask (.writeDraft task.location record) with
  | .error e => return .error (task.failure e.explanation.line)
  | .ok () =>
      match ← ask (.moveDraft task.location) with
      | .error e => return .error (task.failure e.explanation.line)
      | .ok () => return .ok ()

/-- Removes the old record, builds the environment and records the build. -/
def rebuild (task : BuildTask) : Steps (Except ActivationError Unit) := do
  match ← ask (.removeRecord task.location) with
  | .error e => return .error (task.failure e.explanation.line)
  | .ok () =>
      match ← task.clear with
      | .error e => return .error e
      | .ok () =>
          match ← task.provision with
          | .error e => return .error e
          | .ok () => task.record

/-- What is done while the lock is held.  The result is whether the environment was built. -/
def underLock (task : BuildTask) : Steps (Except ActivationError Bool) := do
  if ← task.alreadyBuilt then
    task.note .info "reusing environment built by a concurrent activation"
    return .ok false
  else
    match ← task.rebuild with
    | .error e => return .error e
    | .ok () => return .ok true

/-- The error of a build whose lock was not acquired. -/
def lockFailure (task : BuildTask) : LockError → ActivationError
  | .busy path waited => .lockTimeout task.name path waited
  | .io path cause => task.failure (LockError.io path cause).message

/-- Builds an environment under its lock. -/
def run (task : BuildTask) : Steps (Except ActivationError Bool) := do
  match ← ask (.acquireLock (Layout.lockFile task.location) task.settings.lockMode
      task.settings.lockTimeout) with
  | .error e => return .error (task.lockFailure e)
  | .ok lock =>
      let result ← task.underLock
      ask (.releaseLock lock)
      return result

end BuildTask

/-! ### The machine -/

/-- A successful activation.  System environments have no location and no fingerprint. -/
structure Success where
  location : Option Path
  fingerprint : Option Fingerprint
  rebuilt : Bool
  journal : Journal
deriving DecidableEq, Repr

/-- How an activation ended: its result, the transitions and the context after it. -/
structure Outcome where
  result : Except ActivationError Success
  transitions : List Transition
  context : ResolutionContext

/-- The last state of a sequence of transitions. -/
def lastState (transitions : List Transition) : ActivationState :=
  match transitions.getLast? with
  | some transition => transition.2
  | none => .unresolved

/-- The state in which an activation ended. -/
def Outcome.state (outcome : Outcome) : ActivationState :=
  lastState outcome.transitions

/-- The edits that put an environment first and mark it as the active one. -/
def edits (location : Path) : List Edit :=
  [.prepend (Layout.binDir location),
    .set Variable.activeLocation location.display,
    .unset Variable.interpreterHome]

/-- Goes into another state. -/
def advance (reporter : Reporter) (transitions : List Transition) (next : ActivationState)
    (detail : String) : Steps (List Transition) := do
  let transition := (lastState transitions, next)
  reportAll (reporter.ofTransition transition detail)
  return transitions ++ [transition]

/-- Ends in failure. -/
def fail (reporter : Reporter) (context : ResolutionContext) (transitions : List Transition)
    (error : ActivationError) : Steps Outcome := do
  let transitions ← advance reporter transitions .failed error.message
  return ⟨.error error, transitions, context⟩

/-- Ends in success, with the environment active in the context. -/
def succeed (reporter : Reporter) (context : ResolutionContext) (transitions : List Transition)
    (location : Path) (fingerprint : Fingerprint) (rebuilt : Bool) : Steps Outcome := do
  let (context, journal) := context.applyAll (edits location)
  reportAll (reporter.events .debug s!"{journal.changes.length} context change(s)" [])
  let transitions ← advance reporter transitions .active s!"activated {location.display}"
  return ⟨.ok ⟨some location, some fingerprint, rebuilt, journal⟩, transitions, context⟩

/-- What was found out about an environment. -/
structure Detection where
  location : Path
  plan : ProvisionPlan
  present : Bool
  recorded : Option Fingerprint

/-- Finds out what is declared, whether the environment is there and what it was built from. -/
def detect (settings : ActivatorSettings) (reporter : Reporter) (descriptor : Descriptor)
    (location : Path) : Steps Detection := do
  let requirements ← ask (.declarations descriptor.requirementFiles)
  if requirements.isEmpty then
    reportAll (reporter.events .debug "no requirements declared" [])
  let fingerprint := Fingerprint.compute settings.interpreter requirements
  let present ← ask (.isPresent location)
  let record ← if present then ask (.readRecord location) else pure none
  let recorded := record.map BuildRecord.fingerprint
  let shown := (recorded.map Fingerprint.short).getD "none"
  reportAll (reporter.events .debug
    s!"detected: exists={present} recorded={shown} current={fingerprint.short}" [])
  return ⟨location, ⟨fingerprint, settings.interpreter, requirements.lines⟩, present, recorded⟩

/-- Activates an isolated environment whose location is known. -/
def activateAt (settings : ActivatorSettings) (reporter : Reporter) (context : ResolutionContext)
    (request : ActivationRequest) (location : Path) : Steps Outcome := do
  let found ← detect settings reporter request.descriptor location
  match decide request.policy found.present found.recorded found.plan.fingerprint with
  | .notFound =>
      fail reporter context [] (.environmentNotFound request.descriptor.name location)
  | .reuse => succeed reporter context [] location found.plan.fingerprint false
  | .build destroyFirst =>
      let transitions ← advance reporter [] .building
        (buildReason found.present destroyFirst found.recorded)
      let task : BuildTask :=
        ⟨settings, reporter, request.descriptor.name, request.policy, location, found.plan,
          destroyFirst⟩
      match ← task.run with
      | .error e => fail reporter context transitions e
      | .ok rebuilt =>
          succeed reporter context transitions location found.plan.fingerprint rebuilt

/-- Activates what a request asks for. -/
def activate (settings : ActivatorSettings) (quiet : Bool) (context : ResolutionContext)
    (request : ActivationRequest) : Steps Outcome := do
  let reporter : Reporter := ⟨request.descriptor.name, request.threshold, quiet⟩
  match request.descriptor.mode with
  | .system =>
      let transitions ← advance reporter [] .active "using system environment"
      return ⟨.ok ⟨none, none, false, {}⟩, transitions, context⟩
  | .isolated =>
      match ← findLocation settings.root request.descriptor.name with
      | .error e => fail reporter context [] e
      | .ok location => activateAt settings reporter context request location

end Enclave.Activation
