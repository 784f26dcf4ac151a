import Enclave.Proofs.Activation.Calls

/-! # Activations at several levels

The level of a request decides which reports an activation makes, and nothing else: an activation at
one level is that at the most detailed level with some reports left out (`thin`, `thin_activate`).
Every part of the machine is compared with itself, along its text. -/

namespace Enclave.Activation

open Procedure

variable {α β : Type} {keep : Event → Bool} {threshold : Threshold}

/-! ### Leaving out reports -/

/-- The procedure without the reports that are not kept. -/
def thin (keep : Event → Bool) : Steps α → Steps α
  | .done value => .done value
  | .ask (.report event) next =>
      if keep event then .ask (.report event) fun answer => thin keep (next answer)
      else thin keep (next ())
  | .ask request next => .ask request fun answer => thin keep (next answer)

/-- Whether a request reports an event. -/
def Request.isReport : Request → Bool
  | .report _ => true
  | _ => false

theorem thin_ask_of_not_isReport {request : Request} (h : request.isReport = false)
    (next : request.Answer → Steps α) :
    thin keep (.ask request next) = .ask request fun answer => thin keep (next answer) := by
  cases request with
  | report event => cases h
  | _ => rfl

theorem thin_pure (value : α) : thin keep (pure value : Steps α) = pure value := rfl

theorem thin_bind (p : Steps α) (f : α → Steps β) :
    thin keep (p >>= f) = thin keep p >>= fun value => thin keep (f value) := by
  have hbind : ∀ {γ : Type} (p : Steps γ) (f : γ → Steps β), p >>= f = p.bind f := fun _ _ => rfl
  simp only [hbind]
  induction p with
  | done value => rfl
  | ask request next ih =>
      cases request with
      | report event =>
          simp only [Procedure.bind, thin, ih]
          split <;> rfl
      | _ => simp only [Procedure.bind, thin, ih]

theorem thin_reportAll (events : List Event) :
    thin keep (reportAll events) = reportAll (events.filter keep) := by
  induction events with
  | nil => rfl
  | cons event rest ih =>
      have hcons : reportAll (event :: rest) = .ask (.report event) fun _ => reportAll rest := rfl
      rw [hcons, thin, ih, List.filter_cons]
      split <;> rfl

theorem thin_ite {c : Prop} [Decidable c] (p q : Steps α) :
    thin keep (if c then p else q) = if c then thin keep p else thin keep q := by
  split <;> rfl

/-! ### Levels -/

/-- Whether of the events that an activation reports those up to a level are kept. -/
def Selects (threshold : Threshold) (keep : Event → Bool) : Prop :=
  ∀ event : Event, event.source = .activation → keep event = threshold.admits event.level

/-- The same reporter at a level. -/
def Reporter.upTo (threshold : Threshold) (reporter : Reporter) : Reporter :=
  { reporter with threshold }

/-- The most detailed level. -/
def everything : Threshold := .upTo .trace

theorem admits_everything (level : Level) : everything.admits level = true := by
  cases level <;> rfl

variable (hkeep : Selects threshold keep)

include hkeep

theorem filter_events (reporter : Reporter) (level : Level) (message : String)
    (fields : List (String × FieldValue)) :
    ((reporter.upTo everything).events level message fields).filter keep =
      (reporter.upTo threshold).events level message fields := by
  have hquiet : (reporter.upTo everything).admits level =
      (level.rank ≤ Level.warn.rank || !reporter.quiet) := by
    rw [Reporter.admits, Reporter.upTo, admits_everything, Bool.true_and]
  have hadmits : (reporter.upTo threshold).admits level =
      (threshold.admits level && (reporter.upTo everything).admits level) := by
    rw [hquiet]
    rfl
  have hname : (reporter.upTo everything).name = (reporter.upTo threshold).name := rfl
  have hevent : ∀ fields, keep ⟨level, .activation, message, fields⟩ = threshold.admits level :=
    fun fields => hkeep ⟨level, .activation, message, fields⟩ rfl
  rw [Reporter.events, Reporter.events, hadmits, hname]
  cases (reporter.upTo everything).admits level <;> cases hlevel : threshold.admits level <;>
    simp [hevent, hlevel]

theorem thin_events (reporter : Reporter) (level : Level) (message : String)
    (fields : List (String × FieldValue)) :
    thin keep (reportAll ((reporter.upTo everything).events level message fields)) =
      reportAll ((reporter.upTo threshold).events level message fields) := by
  rw [thin_reportAll, filter_events hkeep]

/-! ### The parts of the machine -/

theorem thin_advance (reporter : Reporter) (transitions : List Transition) (next : ActivationState)
    (detail : String) :
    thin keep (advance (reporter.upTo everything) transitions next detail) =
      advance (reporter.upTo threshold) transitions next detail := by
  rw [advance, advance, thin_bind, Reporter.ofTransition, thin_events hkeep]
  rfl

theorem thin_fail (reporter : Reporter) (context : ResolutionContext)
    (transitions : List Transition) (error : ActivationError) :
    thin keep (fail (reporter.upTo everything) context transitions error) =
      fail (reporter.upTo threshold) context transitions error := by
  rw [fail, fail, thin_bind, thin_advance hkeep]
  rfl

theorem thin_succeed (reporter : Reporter) (context : ResolutionContext)
    (transitions : List Transition) (location : Path) (fingerprint : Fingerprint) (rebuilt : Bool) :
    thin keep
        (succeed (reporter.upTo everything) context transitions location fingerprint rebuilt) =
      succeed (reporter.upTo threshold) context transitions location fingerprint rebuilt := by
  rw [succeed, succeed, thin_bind, thin_events hkeep]
  refine bind_congr fun _ => ?_
  rw [thin_bind, thin_advance hkeep]
  rfl

omit hkeep in
theorem thin_findLocation (root : Path) (name : String) :
    thin keep (findLocation root name) = findLocation root name := by
  rw [findLocation]
  split
  · rfl
  · rfl

theorem thin_detect (settings : ActivatorSettings) (reporter : Reporter) (descriptor : Descriptor)
    (location : Path) :
    thin keep (detect settings (reporter.upTo everything) descriptor location) =
      detect settings (reporter.upTo threshold) descriptor location := by
  simp only [detect, thin_bind, thin_ite, thin_pure, thin_events hkeep]
  rfl

namespace BuildTask

variable (task : BuildTask)

/-- The same build reported at a level. -/
def upTo (threshold : Threshold) : BuildTask :=
  { task with reporter := task.reporter.upTo threshold }

theorem thin_note (level : Level) (message : String) :
    thin keep ((task.upTo everything).note level message) =
      (task.upTo threshold).note level message :=
  thin_events hkeep _ _ _ _

omit hkeep in
theorem thin_alreadyBuilt : thin keep task.alreadyBuilt = task.alreadyBuilt := by
  simp only [alreadyBuilt, thin_bind, thin_ite, thin_pure]
  rfl

theorem thin_clear :
    thin keep (task.upTo everything).clear = (task.upTo threshold).clear := by
  simp only [clear, thin_ite, thin_bind, thin_note hkeep, thin_pure]
  refine ite_congr rfl (fun _ => bind_congr fun _ => bind_congr fun result => ?_) fun _ => rfl
  cases result <;> rfl

theorem thin_provision :
    thin keep (task.upTo everything).provision = (task.upTo threshold).provision := by
  simp only [provision, thin_bind, thin_note hkeep]
  refine bind_congr fun _ => bind_congr fun result => ?_
  cases result <;> rfl

omit hkeep in
theorem thin_record :
    thin keep (task.upTo everything).record = (task.upTo threshold).record := by
  simp only [record, thin_bind]
  refine bind_congr fun _ => bind_congr fun written => ?_
  cases written with
  | error e => rfl
  | ok _ =>
      simp only [thin_bind]
      refine bind_congr fun moved => ?_
      cases moved <;> rfl

theorem thin_rebuild :
    thin keep (task.upTo everything).rebuild = (task.upTo threshold).rebuild := by
  simp only [rebuild, thin_bind]
  refine bind_congr fun removed => ?_
  cases removed with
  | error e => rfl
  | ok _ =>
      simp only [thin_bind, thin_clear hkeep]
      refine bind_congr fun cleared => ?_
      cases cleared with
      | error e => rfl
      | ok _ =>
          simp only [thin_bind, thin_provision hkeep]
          refine bind_congr fun provisioned => ?_
          cases provisioned with
          | error e => rfl
          | ok _ => exact task.thin_record

theorem thin_underLock :
    thin keep (task.upTo everything).underLock = (task.upTo threshold).underLock := by
  simp only [underLock, thin_bind, thin_alreadyBuilt]
  refine bind_congr fun built => ?_
  cases built with
  | true =>
      simp only [if_true, thin_bind, thin_note hkeep]
      rfl
  | false =>
      simp only [Bool.false_eq_true, if_false, thin_bind, thin_rebuild hkeep]
      refine bind_congr fun rebuilt => ?_
      cases rebuilt <;> rfl

theorem thin_run :
    thin keep (task.upTo everything).run = (task.upTo threshold).run := by
  simp only [run, thin_bind]
  refine bind_congr fun acquired => ?_
  cases acquired with
  | error e => rfl
  | ok lock =>
      simp only [thin_bind, thin_underLock hkeep]
      rfl

end BuildTask

theorem thin_activateAt (settings : ActivatorSettings) (reporter : Reporter)
    (context : ResolutionContext) (request : ActivationRequest) (location : Path) :
    thin keep
        (activateAt settings (reporter.upTo everything) context request location) =
      activateAt settings (reporter.upTo threshold) context request location := by
  rw [activateAt, activateAt, thin_bind, thin_detect hkeep]
  refine bind_congr fun found => ?_
  cases decide request.policy found.present found.recorded found.plan.fingerprint with
  | notFound => exact thin_fail hkeep _ _ _ _
  | reuse => exact thin_succeed hkeep _ _ _ _ _ _
  | build destroyFirst =>
      simp only [thin_bind, thin_advance hkeep]
      refine bind_congr fun transitions => ?_
      let task : BuildTask :=
        ⟨settings, reporter, request.descriptor.name, request.policy, location, found.plan,
          destroyFirst⟩
      have hrun : thin keep (task.upTo everything).run = (task.upTo threshold).run :=
        task.thin_run hkeep
      refine (congrArg (· >>= _) hrun).trans (bind_congr fun built => ?_)
      cases built with
      | error e => exact thin_fail hkeep _ _ _ _
      | ok rebuilt => exact thin_succeed hkeep _ _ _ _ _ _

/-- **Levels only leave out reports.**  An activation at a level is the one at the most detailed level
without the reports above it. -/
theorem thin_activate (settings : ActivatorSettings) (quiet : Bool) (context : ResolutionContext)
    (request : ActivationRequest) :
    thin keep
        (activate settings quiet context { request with threshold := everything }) =
      activate settings quiet context { request with threshold } := by
  let reporter : Reporter := ⟨request.descriptor.name, threshold, quiet⟩
  simp only [activate]
  cases request.descriptor.mode with
  | system =>
      simp only [thin_bind]
      exact congrArg (· >>= _) (thin_advance hkeep reporter _ _ _)
  | isolated =>
      simp only [thin_bind, thin_findLocation]
      refine bind_congr fun located => ?_
      cases located with
      | error e => exact thin_fail hkeep reporter _ _ _
      | ok location => exact thin_activateAt hkeep settings reporter context request location

end Enclave.Activation
