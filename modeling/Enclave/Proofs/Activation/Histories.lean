import Enclave.Activation.Activator
import Enclave.Proofs.Environment.Records
import Enclave.Proofs.Procedure
import Mathlib.Logic.Relation

/-! # Histories of environments

A system is an activator in its world together with the history of what its provisioner was asked to
do, the latest first.  It makes steps (`Step`): activations and deactivations, a new process that
takes over, and changes from elsewhere.  A process may be stopped between any two requests of an
activation, and also while a request is answered; then the history says only that the operation was
begun.  `BuiltFrom` is what the history tells about the content of an environment.

Taking down the history does not change what an activation does (`activate_eq`). -/

namespace Enclave

open Layout Procedure
open Activation (Request Steps Outcome)

/-! ### Operations -/

/-- What a provisioner was asked to change, and its answer if it came to one. -/
inductive Operation
  | ensure (location : Path) (plan : ProvisionPlan) (result : Option (Except ProvisionError Unit))
  | destroy (location : Path) (result : Option (Except ProvisionError Unit))

namespace Operation

/-- The environment that an operation is about. -/
def location : Operation → Path
  | ensure location _ _ => location
  | destroy location _ => location

/-- The plan that an operation builds. -/
def plan? : Operation → Option ProvisionPlan
  | ensure _ plan _ => some plan
  | destroy _ _ => none

/-- The operation behind a request that was answered. -/
def answered : (request : Request) → request.Answer → List Operation
  | .ensure location plan _, answer => [ensure location plan (some answer)]
  | .destroy location, answer => [destroy location (some answer)]
  | _, _ => []

/-- The operation behind a request that was not answered. -/
def begun : Request → List Operation
  | .ensure location plan _ => [ensure location plan none]
  | .destroy location => [destroy location none]
  | _ => []

end Operation

/-- Whether the last operation on a location has built what a plan asks for. -/
def BuiltFrom (history : List Operation) (location : Path) (plan : ProvisionPlan) : Prop :=
  history.find? (·.location == location) = some (.ensure location plan (some (.ok ())))

theorem builtFrom_cons_self (history : List Operation) (location : Path) (plan : ProvisionPlan) :
    BuiltFrom (.ensure location plan (some (.ok ())) :: history) location plan := by
  simp [BuiltFrom, Operation.location]

/-- What was done to another environment does not matter. -/
theorem builtFrom_cons {history : List Operation} {location : Path} {plan : ProvisionPlan}
    {operation : Operation} (hne : operation.location ≠ location) :
    BuiltFrom (operation :: history) location plan ↔ BuiltFrom history location plan := by
  rw [BuiltFrom, List.find?_cons_of_neg (by simpa using hne), BuiltFrom]

/-- Nothing is built where there was no operation. -/
theorem not_builtFrom {history : List Operation} {location : Path}
    (h : (history.find? (·.location == location)).isNone) (plan : ProvisionPlan) :
    ¬ BuiltFrom history location plan := by
  rw [BuiltFrom, Option.isNone_iff_eq_none.mp h]
  nofun

/-! ### Systems -/

variable {Memory : Type}

/-- What is relied on from a provisioner: it leaves the records alone. -/
structure Provisioner.Spares (provisioner : Provisioner Memory) (root : Path) (ban : Ban) :
    Prop where
  isPresent : ∀ location, IsEnvironment root location → ∀ state : World × Memory,
    FileSystem.Keeps root ban state.1.files (provisioner.isPresent location state).2.1.files
  ensure : ∀ location, IsEnvironment root location → ∀ plan timeout, ∀ state : World × Memory,
    FileSystem.Keeps root ban state.1.files
      (provisioner.ensure location plan timeout state).2.1.files
  destroy : ∀ location, IsEnvironment root location → ∀ state : World × Memory,
    FileSystem.Keeps root ban state.1.files (provisioner.destroy location state).2.1.files

/-- A provisioner that leaves the files alone and remembers what it was asked to build. -/
def Provisioner.remembering : Provisioner (List Path) where
  isPresent location state := (state.2.contains location, state)
  ensure location _ _ state := (.ok (), state.1, location :: state.2)
  destroy location state := (.ok (), state.1, state.2.erase location)

theorem Provisioner.remembering_spares (root : Path) (ban : Ban) :
    remembering.Spares root ban :=
  ⟨fun _ _ _ => .refl root ban _, fun _ _ _ _ _ => .refl root ban _,
    fun _ _ _ => .refl root ban _⟩

/-- A moment of an activation: the world beside the memory of a provisioner, and the history of the
provisioner's operations. -/
abbrev Moment (Memory : Type) :=
  (World × Memory) × List Operation

namespace Moment

/-- The files at a moment. -/
abbrev files (moment : Moment Memory) : FileSystem :=
  moment.1.1.files

/-- The operations up to a moment. -/
abbrev history (moment : Moment Memory) : List Operation :=
  moment.2

end Moment

/-- How an activator's requests are answered while the history is taken down. -/
abbrev Activator.watch (settings : ActivatorSettings) (provisioner : Provisioner Memory)
    (now : Instant) : (request : Request) → Moment Memory → request.Answer × Moment Memory :=
  watched Operation.answered (handle settings provisioner now)

/-- A request that begins no operation leaves the history as it is. -/
theorem history_watch {settings : ActivatorSettings} {provisioner : Provisioner Memory}
    {now : Instant} {request : Request} {moment : Moment Memory}
    (h : Operation.begun request = []) :
    (Activator.watch settings provisioner now request moment).2.history = moment.history := by
  rw [Moment.history, watched_notes]
  cases request with
  | ensure => simp [Operation.begun] at h
  | destroy => simp [Operation.begun] at h
  | _ => rfl

/-- An activator and a context at a moment. -/
structure System (Memory : Type) where
  activator : Activator
  context : ResolutionContext
  moment : Moment Memory

namespace System

/-- The steps of an activation. -/
def steps (system : System Memory) (request : ActivationRequest) : Steps Outcome :=
  Activation.activate system.activator.settings (Activator.isQuiet system.moment.1.1)
    system.context request

/-- The system after an activation, and what its caller gets to know. -/
def activate (system : System Memory) (provisioner : Provisioner Memory) (now : Instant)
    (request : ActivationRequest) : Activator.Completion × System Memory :=
  let (outcome, moment) := (system.steps request).run
    (Activator.watch system.activator.settings provisioner now) system.moment
  let completion := system.activator.complete request outcome
  (completion, ⟨completion.activator, completion.context, moment⟩)

/-- The activator does the same without the history. -/
theorem activate_eq (system : System Memory) (provisioner : Provisioner Memory) (now : Instant)
    (request : ActivationRequest) :
    system.activator.activate provisioner now system.context request system.moment.1 =
      ((system.activate provisioner now request).1,
        (system.activate provisioner now request).2.moment.1) := by
  obtain ⟨houtcome, hstate⟩ := run_watched
    (Activator.handle system.activator.settings provisioner now) Operation.answered
    (system.steps request) system.moment.1 system.moment.history
  exact Prod.ext (congrArg (system.activator.complete request) houtcome.symm) hstate.symm

/-- What the caller gets to know of a success. -/
theorem exists_success {system : System Memory} {provisioner : Provisioner Memory} {now : Instant}
    {request : ActivationRequest} {activation : Activation}
    (h : (system.activate provisioner now request).1.result = .ok activation) :
    ∃ success : Activation.Success,
      ((system.steps request).run (Activator.watch system.activator.settings provisioner now)
        system.moment).1.result = .ok success ∧
      success.location = activation.location ∧ success.fingerprint = activation.fingerprint ∧
      success.rebuilt = activation.rebuilt := by
  generalize houtcome : ((system.steps request).run
    (Activator.watch system.activator.settings provisioner now) system.moment).1 = outcome
  have hresult : outcome.result.map (Activator.activationOf request outcome.transitions) =
      .ok activation := by
    rw [← houtcome]
    exact h
  cases hok : outcome.result with
  | error e =>
      rw [hok] at hresult
      cases hresult
  | ok success =>
      rw [hok] at hresult
      obtain rfl := Except.ok.inj hresult
      exact ⟨success, rfl, rfl, rfl, rfl⟩

/-- Whether the environments that a system works on are those below a root. -/
def WorksIn (system : System Memory) (root : Path) : Prop :=
  ∀ path, Activation.absoluteRoot system.activator.settings.root
    system.moment.1.1.currentDirectory = .ok path → path = root

theorem worksIn_of_isAbsolute {system : System Memory} {root : Path}
    (h : system.activator.settings.root = root) (habsolute : root.isAbsolute) :
    system.WorksIn root := by
  intro path hpath
  rw [h] at hpath
  simp only [Activation.absoluteRoot, if_pos habsolute] at hpath
  exact (Except.ok.inj hpath).symm

/-- What an activation of a system can come to before it ends. -/
def Reaches (system : System Memory) (provisioner : Provisioner Memory) (now : Instant)
    (request : ActivationRequest) (rest : Steps Outcome) (moment : Moment Memory) : Prop :=
  Procedure.Reaches (Activator.watch system.activator.settings provisioner now)
    (system.steps request) system.moment rest moment

/-- The steps of a system whose files are changed by others only in ways that keep the records. -/
inductive Step (provisioner : Provisioner Memory) (root : Path) (ban : Ban) :
    System Memory → System Memory → Prop
  /-- An activation is carried out. -/
  | activate (system : System Memory) (now : Instant) (request : ActivationRequest) :
      system.WorksIn root →
      Step provisioner root ban system (system.activate provisioner now request).2
  /-- An activation is undone. -/
  | deactivate (system : System Memory) (activation : Activation) :
      Step provisioner root ban system
        { system with
          activator := (system.activator.deactivate system.context activation).1
          context := (system.activator.deactivate system.context activation).2 }
  /-- Another process takes over. -/
  | replace (system : System Memory) (activator : Activator) (context : ResolutionContext) :
      Step provisioner root ban system { system with activator, context }
  /-- A process is stopped between two requests of an activation. -/
  | stop (system : System Memory) (now : Instant) (request : ActivationRequest)
      (rest : Steps Outcome) (moment : Moment Memory) :
      system.WorksIn root → system.Reaches provisioner now request rest moment →
      Step provisioner root ban system { system with moment }
  /-- A process is stopped while a request is answered. -/
  | interrupt (system : System Memory) (now : Instant) (request : ActivationRequest)
      (current : Request) (next : current.Answer → Steps Outcome) (moment : Moment Memory)
      (state : World × Memory) :
      system.WorksIn root → system.Reaches provisioner now request (.ask current next) moment →
      FileSystem.Keeps root ban moment.files state.1.files →
      Step provisioner root ban system
        { system with moment := (state, Operation.begun current ++ moment.history) }
  /-- The world is changed from elsewhere. -/
  | elsewhere (system : System Memory) (state : World × Memory) :
      FileSystem.Keeps root ban system.moment.files state.1.files →
      Step provisioner root ban system { system with moment := (state, system.moment.history) }

/-- What a system can come to. -/
abbrev Reachable (provisioner : Provisioner Memory) (root : Path) (ban : Ban) :
    System Memory → System Memory → Prop :=
  Relation.ReflTransGen (Step provisioner root ban)

end System
end Enclave
