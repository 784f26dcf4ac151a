import Enclave.Proofs.Activation.Building
import Enclave.Proofs.Activation.Locations
import Enclave.Proofs.Activation.Traces

/-! # Runs of an activation

An activation that begins at a sound moment makes every request at a moment that admits it, and ends
at a sound moment (`safe_activate`).  A successful one says what it has found or left behind
(`Achieves`): the environment has a record with the fingerprint of what is declared, and without a
build nothing was asked of the provisioner. -/

namespace Enclave

open Layout Procedure FileSystem
open Activation (Request Steps BuildTask Reporter Outcome Success Detection reportAll)

variable {Memory : Type} {root location : Path} {ban : Ban} {settings : ActivatorSettings}
  {provisioner : Provisioner Memory} {now : Instant} {moment : Moment Memory}

/-! ### Plans -/

/-- The plan for what is declared in the world. -/
def Activator.planFor (settings : ActivatorSettings) (world : World)
    (files : Option (List Path)) : ProvisionPlan :=
  Activation.planOf settings (declarations settings world files).1

theorem Activator.isComputed_planFor (settings : ActivatorSettings) (world : World)
    (files : Option (List Path)) : (planFor settings world files).IsComputed :=
  ⟨rfl, Requirements.feedFree_load _ _⟩

/-! ### Ends -/

namespace Activation

section

variable {asks : Request → Moment Memory → Prop} {reporter : Reporter}
  (hasks : ∀ event reported, asks (.report event) (moment.withEvents reported))

include hasks

theorem safe_advance {ends : List Transition → Moment Memory → Prop}
    {transitions : List Transition} {next : ActivationState} {detail : String}
    (hends : ∀ transitions reported, ends transitions (moment.withEvents reported)) :
    (advance reporter transitions next detail).Safe (Activator.watch settings provisioner now)
      asks ends moment :=
  safe_bind (safe_reportAll _ hasks (hends _))

theorem safe_fail {ends : Outcome → Moment Memory → Prop} {context : ResolutionContext}
    {transitions : List Transition} {error : ActivationError}
    (hends : ∀ transitions reported,
      ends ⟨.error error, transitions, context⟩ (moment.withEvents reported)) :
    (fail reporter context transitions error).Safe (Activator.watch settings provisioner now)
      asks ends moment :=
  safe_bind (safe_advance hasks hends)

theorem safe_succeed {ends : Outcome → Moment Memory → Prop} {context : ResolutionContext}
    {transitions : List Transition} {fingerprint : Fingerprint} {rebuilt : Bool}
    (hends : ∀ journal transitions context reported,
      ends ⟨.ok ⟨some location, some fingerprint, rebuilt, journal⟩, transitions, context⟩
        (moment.withEvents reported)) :
    (succeed reporter context transitions location fingerprint rebuilt).Safe
      (Activator.watch settings provisioner now) asks ends moment := by
  apply safe_bind
  apply safe_reportAll _ hasks
  intro reported
  apply safe_bind
  apply safe_advance
  · exact fun event reported => hasks event reported
  · exact fun transitions reported => hends _ transitions _ reported

end

/-! ### Locations -/

theorem safe_findLocation {asks : Request → Moment Memory → Prop}
    {ends : Except ActivationError Path → Moment Memory → Prop} {base : Path} {name : String}
    (hasks : asks .workingDirectory moment)
    (hends : ends (locate base name moment.1.1.currentDirectory) moment) :
    (findLocation base name).Safe (Activator.watch settings provisioner now) asks ends moment := by
  rw [findLocation]
  split
  · next hneedless =>
      rw [locate_congr hneedless]
      exact hends
  · exact safe_request_bind hasks hends

/-! ### Conclusions -/

/-- What a success says about a location: it is that of the name, there is a record of what is
declared unless the policy was not to look, and without a build there were no operations. -/
structure Success.Achieves (success : Success) (root : Path) (ban : Ban)
    (request : ActivationRequest) (plan : ProvisionPlan) (location : Path)
    (before after : Moment Memory) : Prop where
  named : Name.check request.descriptor.name = none
  located : Path.joinBelow? root (.ofText request.descriptor.name) = some location
  fingerprint : success.fingerprint = some plan.fingerprint
  history : success.rebuilt = false → after.history = before.history
  recorded : request.policy ≠ .never → (success.rebuilt = true → ban.IsStrict) →
    Recorded location plan.fingerprint after.files

/-- How an activation ends that began at a sound moment. -/
structure Outcome.Concludes (outcome : Outcome) (root : Path) (ban : Ban)
    (request : ActivationRequest) (plan : ProvisionPlan) (before after : Moment Memory) :
    Prop where
  sound : Sound root ban after.files after.history
  achieves : ∀ success, outcome.result = .ok success → ∀ location,
    success.location = some location →
      success.Achieves root ban request plan location before after

/-- What detecting an environment says about it. -/
structure Detection.Tells (found : Detection) (root : Path) (ban : Ban) (location : Path)
    (plan : ProvisionPlan) (before after : Moment Memory) : Prop where
  sound : Sound root ban after.files after.history
  history : after.history = before.history
  planned : found.plan = plan
  recorded : found.recorded = some plan.fingerprint →
    Recorded location plan.fingerprint after.files

section

variable {reporter : Reporter} {context : ResolutionContext} {request : ActivationRequest}
  (habsolute : root.isAbsolute) (hspares : provisioner.Spares root ban)
  (henvironment : IsEnvironment root location)

include habsolute henvironment

theorem safe_readRecord (present : Bool) (h : Sound root ban moment.files moment.history) :
    (if present then ask (.readRecord location) else pure none).Safe
      (Activator.watch settings provisioner now) (Admits root ban)
      (fun recorded after => Sound root ban after.files after.history ∧
        after.history = moment.history ∧
        ∀ record, recorded = some record → after.files.recordAt location = some record)
      moment := by
  split
  · refine ⟨h.admits rfl, h, rfl, fun record hrecord => ?_⟩
    exact (recordAt_eq_load (henvironment.isAbsolute habsolute) _).trans hrecord
  · refine ⟨h, rfl, fun record hrecord => ?_⟩
    cases hrecord

include hspares

/-- Detecting an environment finds the record that is there. -/
theorem safe_detect (h : Sound root ban moment.files moment.history) :
    (detect settings reporter request.descriptor location).Safe
      (Activator.watch settings provisioner now) (Admits root ban)
      (fun found after => found.Tells root ban location
        (Activator.planFor settings moment.1.1 request.descriptor.requirementFiles) moment after)
      moment := by
  rw [detect]
  refine safe_request_bind (h.admits rfl) ?_
  apply safe_ite_reportAll
  · exact fun _ _ => h.admits rfl
  intro reported
  refine safe_request_bind (h.admits rfl) ?_
  apply safe_ite_bind
  refine (safe_readRecord habsolute henvironment _ ?_).mono ?_
  · exact Sound.of_isPresent settings now h hspares henvironment
  rintro recorded after ⟨hsound, hhistory, hrecorded⟩
  apply safe_bind
  apply safe_reportAll
  · exact fun _ _ => hsound.admits rfl
  · refine fun _ => ⟨hsound, hhistory, rfl, fun hmatch => ?_⟩
    obtain ⟨record, hrecord, hfingerprint⟩ := Option.map_eq_some_iff.mp hmatch
    exact ⟨record, hrecorded record hrecord, hfingerprint⟩

omit henvironment in
/-- An activation at the location of its name comes to a conclusion. -/
theorem safe_activateAt (hnamed : Name.check request.descriptor.name = none)
    (hlocated : Path.joinBelow? root (.ofText request.descriptor.name) = some location)
    (h : Sound root ban moment.files moment.history) :
    (activateAt settings reporter context request location).Safe
      (Activator.watch settings provisioner now) (Admits root ban)
      (fun outcome after => outcome.Concludes root ban request
        (Activator.planFor settings moment.1.1 request.descriptor.requirementFiles) moment after)
      moment := by
  have henvironment : IsEnvironment root location :=
    ⟨request.descriptor.name, hnamed, joinBelow?_eq_some hlocated⟩
  rw [activateAt]
  apply safe_bind
  apply (safe_detect habsolute hspares henvironment h).mono
  rintro found after ⟨hsound, hhistory, hplanned, hrecorded⟩
  rw [hplanned]
  split
  · apply safe_fail
    · exact fun _ _ => hsound.admits rfl
    · exact fun _ _ => ⟨hsound, nofun⟩
  · next hreuse =>
      apply safe_succeed
      · exact fun _ _ => hsound.admits rfl
      · refine fun _ _ _ _ => ⟨hsound, ?_⟩
        rintro _ ⟨⟩ _ ⟨⟩
        exact ⟨hnamed, hlocated, rfl, fun _ => hhistory,
          fun hpolicy _ => hrecorded ((decide_eq_reuse hreuse).resolve_left hpolicy).2.2⟩
  · apply safe_bind
    apply safe_advance
    · exact fun _ _ => hsound.admits rfl
    · intro transitions reported
      apply safe_bind
      refine (BuildTask.safe_run hspares ?_ habsolute ?_ ?_).mono ?_
      · exact henvironment
      · exact Activator.isComputed_planFor _ _ _
      · exact hsound
      rintro result after' ⟨hsound', hrebuilt, hreused⟩
      split
      · apply safe_fail
        · exact fun _ _ => hsound'.admits rfl
        · exact fun _ _ => ⟨hsound', nofun⟩
      · next rebuilt =>
          apply safe_succeed
          · exact fun _ _ => hsound'.admits rfl
          · refine fun _ _ _ _ => ⟨hsound', ?_⟩
            rintro _ ⟨⟩ _ ⟨⟩
            refine ⟨hnamed, hlocated, rfl, ?_, ?_⟩
            · rintro rfl
              exact (hreused rfl).1.trans hhistory
            · intro _ hstrict
              cases rebuilt with
              | false => exact (hreused rfl).2
              | true => exact hrebuilt rfl (hstrict rfl)

omit henvironment in
/-- An activation that works below a root comes to a conclusion. -/
theorem safe_activate {quiet : Bool}
    (hworks : ∀ path, absoluteRoot settings.root moment.1.1.currentDirectory = .ok path →
      path = root)
    (h : Sound root ban moment.files moment.history) :
    (activate settings quiet context request).Safe
      (Activator.watch settings provisioner now) (Admits root ban)
      (fun outcome after => outcome.Concludes root ban request
        (Activator.planFor settings moment.1.1 request.descriptor.requirementFiles) moment after)
      moment := by
  rw [activate]
  split
  · apply safe_bind
    apply safe_advance
    · exact fun _ _ => h.admits rfl
    · refine fun _ _ => ⟨h, ?_⟩
      rintro _ ⟨⟩ _ ⟨⟩
  · apply safe_bind
    apply safe_findLocation (h.admits rfl)
    split
    · apply safe_fail
      · exact fun _ _ => h.admits rfl
      · exact fun _ _ => ⟨h, nofun⟩
    · next location hlocation =>
        obtain ⟨hnamed, top, htop, hlocated⟩ := locate_eq_ok_iff.mp hlocation
        rw [hworks top htop] at hlocated
        exact safe_activateAt habsolute hspares hnamed hlocated h

end

end Activation

/-! ### Systems -/

variable {system after : System Memory}

/-- The plan for what a request declares. -/
def System.planFor (system : System Memory) (request : ActivationRequest) : ProvisionPlan :=
  Activator.planFor system.activator.settings system.moment.1.1
    request.descriptor.requirementFiles

/-- An activation of a sound system comes to a conclusion. -/
theorem Sound.safe_steps (habsolute : root.isAbsolute) (hspares : provisioner.Spares root ban)
    (h : Sound root ban system.moment.files system.moment.history)
    (hworks : system.WorksIn root) (now : Instant) (request : ActivationRequest) :
    (system.steps request).Safe (Activator.watch system.activator.settings provisioner now)
      (Admits root ban)
      (fun outcome after => outcome.Concludes root ban request (system.planFor request)
        system.moment after) system.moment :=
  Activation.safe_activate habsolute hspares hworks h

/-- A step of a system keeps it sound. -/
theorem Sound.of_step (habsolute : root.isAbsolute) (hspares : provisioner.Spares root ban)
    (h : Sound root ban system.moment.files system.moment.history)
    (hstep : system.Step provisioner root ban after) :
    Sound root ban after.moment.files after.moment.history := by
  have hsafe := h.safe_steps habsolute hspares
  cases hstep with
  | activate now request hworks => exact (hsafe hworks now request).run.sound
  | deactivate => exact h
  | replace => exact h
  | stop now request rest moment hworks hreaches =>
      have hrest := (hsafe hworks now request).reaches hreaches
      cases rest with
      | done outcome => exact hrest.sound
      | ask current next => exact hrest.1.1
  | interrupt now request current next moment state hworks hreaches hkeeps =>
      exact ((hsafe hworks now request).reaches hreaches).1.of_interrupt hkeeps
  | elsewhere state hkeeps => exact h.of_keeps hkeeps

/-- Whatever a sound system comes to is sound. -/
theorem Sound.of_reachable (habsolute : root.isAbsolute) (hspares : provisioner.Spares root ban)
    (h : Sound root ban system.moment.files system.moment.history)
    (hreachable : system.Reachable provisioner root ban after) :
    Sound root ban after.moment.files after.moment.history := by
  induction hreachable with
  | refl => exact h
  | tail _ hstep ih => exact ih.of_step habsolute hspares hstep

/-- What a successful activation of a sound system says about its location. -/
theorem Sound.exists_achieves (habsolute : root.isAbsolute)
    (hspares : provisioner.Spares root ban)
    (h : Sound root ban system.moment.files system.moment.history)
    (hworks : system.WorksIn root) {request : ActivationRequest} {activation : Activation}
    (hresult : (system.activate provisioner now request).1.result = .ok activation)
    (hlocation : activation.location = some location) :
    ∃ success : Success, success.rebuilt = activation.rebuilt ∧
      success.fingerprint = activation.fingerprint ∧
      success.Achieves root ban request (system.planFor request) location system.moment
        (system.activate provisioner now request).2.moment := by
  obtain ⟨success, hok, hplace, hfingerprint, hrebuilt⟩ := System.exists_success hresult
  have hconcludes := (h.safe_steps habsolute hspares hworks now request).run
  exact ⟨success, hrebuilt, hfingerprint,
    hconcludes.achieves success hok location (hplace.trans hlocation)⟩

/-- Whether a system begins below a root: nothing was done yet, there are no records, and nothing
stands in the way of the environments. -/
structure System.Begins (system : System Memory) (root : Path) (ban : Ban) : Prop where
  orderly : Orderly system.moment.files root ban
  unrecorded : ∀ location, IsEnvironment root location →
    (BuildRecord.load system.moment.1.1 location).1 = none
  history : system.moment.history = []

theorem System.Begins.sound (h : system.Begins root ban) (habsolute : root.isAbsolute) :
    Sound root ban system.moment.files system.moment.history := by
  refine ⟨h.orderly, fun location henvironment record hrecord => ?_, ?_⟩
  · rw [recordAt_eq_load (henvironment.isAbsolute habsolute),
      h.unrecorded location henvironment] at hrecord
    cases hrecord
  · simp [h.history]

end Enclave
