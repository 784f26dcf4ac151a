import Enclave.Activation.Activator
import Enclave.Proofs.Procedure

/-! # How an activation ends

Whatever files, locks and the provisioner answer, an activation ends in one of four sequences of
transitions: at most the one into `building` and then the one into `active` or `failed`
(`Outcome.Closes`, `ends_activate`).  The context is edited exactly on the way into `active`, so a
failed activation leaves nothing behind but its state (`activate_atomic`). -/

namespace Enclave.Activation

open Procedure

/-! ### Outcomes -/

/-- The transitions that may come before the last one. -/
def beginnings : List (List Transition) := [[], [(.unresolved, .building)]]

/-- The edits of a successful activation; there are none without a location. -/
def Success.edits (success : Success) : List Edit :=
  success.location.elim [] Activation.edits

/-- How an outcome closes an activation that began in a context: a failure goes into `failed` and
keeps the context, a success goes into `active` and makes its edits. -/
def Outcome.Closes (context : ResolutionContext) (request : ActivationRequest)
    (outcome : Outcome) : Prop :=
  ∃ earlier ∈ beginnings,
    match outcome.result with
    | .error _ =>
        outcome.transitions = earlier ++ [(lastState earlier, .failed)] ∧ outcome.context = context
    | .ok success =>
        outcome.transitions = earlier ++ [(lastState earlier, .active)] ∧
          (outcome.context, success.journal) = context.applyAll success.edits ∧
          (success.location.isSome ↔ request.descriptor.mode = .isolated)

/-- An outcome ends in `active` if it is a success, and in `failed` if it is not. -/
theorem Outcome.Closes.state_eq {context : ResolutionContext} {request : ActivationRequest}
    {outcome : Outcome} (h : outcome.Closes context request) :
    outcome.state = if outcome.result.isOk then .active else .failed := by
  obtain ⟨earlier, _, hclose⟩ := h
  cases hresult : outcome.result with
  | error e =>
      rw [hresult] at hclose
      simp [Outcome.state, lastState, hclose.1, Except.isOk, Except.toBool]
  | ok success =>
      rw [hresult] at hclose
      simp [Outcome.state, lastState, hclose.1, Except.isOk, Except.toBool]

/-! ### The parts of the machine -/

theorem ends_advance (reporter : Reporter) (transitions : List Transition) (next : ActivationState)
    (detail : String) :
    (advance reporter transitions next detail).Ends
      (· = transitions ++ [(lastState transitions, next)]) :=
  ends_bind (ends_of_forall fun _ => ends_pure rfl)

theorem ends_fail (reporter : Reporter) (context : ResolutionContext) (request : ActivationRequest)
    {transitions : List Transition} (h : transitions ∈ beginnings) (error : ActivationError) :
    (fail reporter context transitions error).Ends (·.Closes context request) := by
  apply ends_bind
  apply (ends_advance _ _ _ _).mono
  rintro _ rfl
  exact ⟨transitions, h, rfl, rfl⟩

theorem ends_succeed (reporter : Reporter) (context : ResolutionContext)
    {request : ActivationRequest} (hmode : request.descriptor.mode = .isolated)
    {transitions : List Transition} (h : transitions ∈ beginnings) (location : Path)
    (fingerprint : Fingerprint) (rebuilt : Bool) :
    (succeed reporter context transitions location fingerprint rebuilt).Ends
      (·.Closes context request) := by
  apply ends_bind
  apply ends_of_forall
  intro _
  apply ends_bind
  apply (ends_advance _ _ _ _).mono
  rintro _ rfl
  exact ⟨transitions, h, rfl, rfl, by simp [hmode]⟩

theorem ends_activateAt (settings : ActivatorSettings) (reporter : Reporter)
    (context : ResolutionContext) {request : ActivationRequest}
    (hmode : request.descriptor.mode = .isolated) (location : Path) :
    (activateAt settings reporter context request location).Ends (·.Closes context request) := by
  have hfirst : [] ∈ beginnings := by simp [beginnings]
  have hsecond : [(ActivationState.unresolved, ActivationState.building)] ∈ beginnings := by
    simp [beginnings]
  apply ends_bind
  apply ends_of_forall
  intro found
  split
  · exact ends_fail reporter context request hfirst _
  · exact ends_succeed reporter context hmode hfirst _ _ _
  · apply ends_bind
    apply (ends_advance _ _ _ _).mono
    rintro _ rfl
    apply ends_bind
    apply ends_of_forall
    intro result
    cases result with
    | error e => exact ends_fail reporter context request hsecond e
    | ok rebuilt => exact ends_succeed reporter context hmode hsecond _ _ rebuilt

/-- Every activation closes, whatever is answered to its requests. -/
theorem ends_activate (settings : ActivatorSettings) (quiet : Bool) (context : ResolutionContext)
    (request : ActivationRequest) :
    (activate settings quiet context request).Ends (·.Closes context request) := by
  unfold activate
  dsimp only
  split
  · next hmode =>
      apply ends_bind
      apply (ends_advance _ _ _ _).mono
      rintro _ rfl
      exact ⟨[], by simp [beginnings], rfl, rfl, by simp [hmode]⟩
  · next hmode =>
      apply ends_bind
      apply ends_of_forall
      intro found
      cases found with
      | error e => exact ends_fail _ context request (by simp [beginnings]) e
      | ok location => exact ends_activateAt settings _ context hmode location

end Enclave.Activation

namespace Enclave.Activator

open Activation (Outcome lastState)

/-! ### Activators -/

variable {Memory : Type} (activator : Activator) (provisioner : Provisioner Memory) (now : Instant)
  (context : ResolutionContext) (request : ActivationRequest) (state : World × Memory)

/-- The outcome of the machine behind an activation. -/
def outcomeOf : Outcome :=
  ((Activation.activate activator.settings (isQuiet state.1) context request).run
    (handle activator.settings provisioner now) state).1

theorem activate_fst :
    (activator.activate provisioner now context request state).1 =
      activator.complete request (activator.outcomeOf provisioner now context request state) := rfl

theorem closes_outcomeOf :
    (activator.outcomeOf provisioner now context request state).Closes context request :=
  (Activation.ends_activate _ _ _ _).run _ _

/-- Remembering the state of one name changes the state of that name only. -/
theorem state_complete (outcome : Outcome) (name : String) :
    (activator.complete request outcome).activator.state name =
      if name = request.descriptor.name then outcome.state else activator.state name := by
  simp only [complete, Activator.state, Table.get?_set, beq_iff_eq]
  split <;> simp

/-- A failed activation changes neither the context nor the state of any other name, and its last
transition goes into `failed`, as no transition before does; a successful one changes the state of
its own name only. -/
theorem activate_atomic (activator : Activator) (provisioner : Provisioner Memory) (now : Instant)
    (context : ResolutionContext) (request : ActivationRequest) (state : World × Memory) :
    let completion := (activator.activate provisioner now context request state).1
    let transitions := (activator.outcomeOf provisioner now context request state).transitions
    (∀ other, other ≠ request.descriptor.name →
      completion.activator.state other = activator.state other) ∧
    match completion.result with
    | .error _ =>
        completion.context = context ∧
          completion.activator.state request.descriptor.name = .failed ∧
          ∃ earlier, transitions = earlier ++ [(lastState earlier, .failed)] ∧
            ∀ transition ∈ earlier, transition.2 ≠ .failed
    | .ok activation =>
        completion.activator.state request.descriptor.name = .active ∧
          activation.transitions = transitions := by
  dsimp only
  rw [activate_fst]
  generalize houtcome : activator.outcomeOf provisioner now context request state = outcome
  have hcloses := closes_outcomeOf activator provisioner now context request state
  rw [houtcome] at hcloses
  obtain ⟨earlier, hearlier, hclose⟩ := hcloses
  constructor
  · intro other hother
    rw [state_complete, if_neg hother]
  · rw [state_complete, if_pos rfl]
    cases hresult : outcome.result with
    | error e =>
        rw [hresult] at hclose
        obtain ⟨htransitions, hcontext⟩ := hclose
        simp only [complete, hresult, Except.map]
        refine ⟨hcontext, ?_, earlier, htransitions, ?_⟩
        · simp [Outcome.state, lastState, htransitions]
        · intro transition htransition
          simp only [Activation.beginnings, List.mem_cons, List.not_mem_nil, or_false] at hearlier
          rcases hearlier with rfl | rfl
          · simp at htransition
          · simp only [List.mem_singleton] at htransition
            simp [htransition]
    | ok success =>
        rw [hresult] at hclose
        obtain ⟨htransitions, _⟩ := hclose
        simp only [complete, hresult, Except.map]
        refine ⟨?_, rfl⟩
        simp [Outcome.state, lastState, htransitions]

end Enclave.Activator
