import Enclave.Proofs.Activation.Soundness

/-! # Builds keep moments sound

Every request of a build is made at a moment that admits it, whatever the provisioner answers.  The
parts of a build take an environment from one stage to the next (`safe_clear`, `safe_provision`,
`safe_record`), and `safe_run` says how a build under its lock ends: at a sound moment, and if it
succeeds, with the record of the environment in its place (`BuildTask.Concludes`). -/

namespace Enclave

open Layout Procedure FileSystem
open Activation (Request Steps BuildTask reportAll ask)

variable {Memory : Type} {root : Path} {ban : Ban} {settings : ActivatorSettings}
  {provisioner : Provisioner Memory} {now : Instant} {moment : Moment Memory}

/-! ### Reports -/

/-- A moment with other reported events. -/
def Moment.withEvents (moment : Moment Memory) (events : List Event) : Moment Memory :=
  (({ moment.1.1 with events }, moment.1.2), moment.2)

/-- Reports change the reported events only. -/
theorem safe_reportAll {asks : Request → Moment Memory → Prop} {ends : Unit → Moment Memory → Prop}
    (events : List Event)
    (hasks : ∀ event reported, asks (.report event) (moment.withEvents reported))
    (hends : ∀ reported, ends () (moment.withEvents reported)) :
    (reportAll events).Safe (Activator.watch settings provisioner now) asks ends moment := by
  induction events generalizing moment with
  | nil => exact hends moment.1.1.events
  | cons event events ih =>
      apply safe_bind
      exact ⟨hasks event moment.1.1.events, ih (fun event reported => hasks event reported)
        fun reported => hends reported⟩

/-- Reports that are made under a condition. -/
theorem safe_ite_reportAll {β : Type} {asks : Request → Moment Memory → Prop}
    {ends : β → Moment Memory → Prop} {c : Prop} [Decidable c] {events : List Event}
    {next : Unit → Steps β}
    (hasks : ∀ event reported, asks (.report event) (moment.withEvents reported))
    (hnext : ∀ reported, (next ()).Safe (Activator.watch settings provisioner now) asks ends
      (moment.withEvents reported)) :
    (if c then reportAll events >>= next else next ()).Safe
      (Activator.watch settings provisioner now) asks ends moment := by
  split
  · exact safe_bind (safe_reportAll events hasks hnext)
  · exact hnext moment.1.1.events

/-! ### Looking and locking -/

variable {location : Path}

/-- Looking for an environment keeps a moment sound. -/
theorem Sound.of_isPresent (settings : ActivatorSettings) (now : Instant)
    (h : Sound root ban moment.files moment.history) (hspares : provisioner.Spares root ban)
    (henvironment : IsEnvironment root location) :
    Sound root ban
      (Activator.watch settings provisioner now (.isPresent location) moment).2.files
      (Activator.watch settings provisioner now (.isPresent location) moment).2.history :=
  h.of_keeps (hspares.isPresent location henvironment moment.1)

theorem world_acquireLock (path : Path) (mode : LockMode) (timeout : Duration) :
    (Activator.watch settings provisioner now (.acquireLock path mode timeout) moment).2.1.1 =
      (BuildLock.acquireIn path mode timeout moment.1.1).2 := by
  rw [watched_state, Activator.handle, Activator.onWorld_world]

/-- Acquiring a lock keeps a moment sound. -/
theorem Sound.of_acquireLock (h : Sound root ban moment.files moment.history)
    (habsolute : root.isAbsolute) (henvironment : IsEnvironment root location) {mode : LockMode}
    {timeout : Duration} {answer : Except LockError BuildLock} {after : Moment Memory}
    (hanswer : Activator.watch settings provisioner now
      (.acquireLock (lockFile location) mode timeout) moment = (answer, after)) :
    Sound root ban after.files after.history ∧ after.history = moment.history := by
  have hhistory : (Activator.watch settings provisioner now
      (.acquireLock (lockFile location) mode timeout) moment).2.history = moment.history :=
    history_watch rfl
  have hkeeps : Keeps root ban moment.files _ :=
    BuildLock.keeps_acquireIn habsolute henvironment mode timeout moment.1.1
  rw [hanswer] at hhistory
  rw [← world_acquireLock, hanswer] at hkeeps
  exact ⟨hhistory ▸ h.of_keeps hkeeps, hhistory⟩

/-! ### From one stage to the next -/

theorem Vacant.of_operation (h : Vacant root ban location moment)
    (henvironment : IsEnvironment root location) (operation : Operation)
    (hlocation : operation.location = location) (hcomputed : operation.IsComputed)
    {state : World × Memory} (hkeeps : Keeps root ban moment.files state.1.files) :
    Vacant root ban location (state, operation :: moment.history) :=
  ⟨(h.sound.of_operation (hlocation ▸ h.vacant) hcomputed).of_keeps hkeeps,
    recordAt_of_keeps hkeeps h.sound.orderly henvironment h.vacant⟩

theorem Vacant.admits (h : Vacant root ban location moment) {request : Request}
    {operation : Operation} (hbegun : Operation.begun request = [operation])
    (hlocation : operation.location = location) (hcomputed : operation.IsComputed) :
    Admits root ban request moment := by
  refine ⟨h.sound, ?_⟩
  rw [hbegun]
  intro other hother
  rw [List.mem_singleton.mp hother]
  exact ⟨hlocation ▸ h.vacant, hcomputed⟩

namespace Activation.BuildTask

/-- How a build ends that began at a moment: at a sound moment, and if it succeeds, with a record
with its fingerprint.  Without a build there were no operations. -/
structure Concludes (task : BuildTask) (root : Path) (ban : Ban) (before : Moment Memory)
    (result : Except ActivationError Bool) (after : Moment Memory) : Prop where
  sound : Sound root ban after.files after.history
  rebuilt : result = .ok true → ban.IsStrict →
    Recorded task.location task.plan.fingerprint after.files
  reused : result = .ok false →
    after.history = before.history ∧ Recorded task.location task.plan.fingerprint after.files

variable {task : BuildTask} (hspares : provisioner.Spares root ban)
  (henvironment : IsEnvironment root task.location)

include hspares henvironment

/-- Clearing leaves an environment vacant. -/
theorem safe_clear (h : Vacant root ban task.location moment) :
    task.clear.Safe (Activator.watch settings provisioner now) (Admits root ban)
      (fun result after => Sound root ban after.files after.history ∧
        (result = .ok () → Vacant root ban task.location after)) moment := by
  rw [clear]
  split
  · apply safe_bind
    apply safe_reportAll
    · exact fun _ _ => h.sound.admits rfl
    · intro reported
      have hvacant : Vacant root ban task.location (moment.withEvents reported) :=
        ⟨h.sound, h.vacant⟩
      refine safe_request_bind (hvacant.admits rfl rfl trivial) ?_
      have hafter : Vacant root ban task.location
          (Activator.watch settings provisioner now (.destroy task.location)
            (moment.withEvents reported)).2 :=
        hvacant.of_operation henvironment (.destroy _ (some _)) rfl trivial
          (hspares.destroy _ henvironment _)
      split
      · exact ⟨hafter.sound, fun _ => hafter⟩
      · exact ⟨hafter.sound, nofun⟩
  · exact ⟨h.sound, fun _ => h⟩

/-- Provisioning builds what the plan asks for. -/
theorem safe_provision (hcomputed : task.plan.IsComputed)
    (h : Vacant root ban task.location moment) :
    task.provision.Safe (Activator.watch settings provisioner now) (Admits root ban)
      (fun result after => Sound root ban after.files after.history ∧
        (result = .ok () → Built root ban task.location task.plan after)) moment := by
  rw [provision]
  apply safe_bind
  apply safe_reportAll
  · exact fun _ _ => h.sound.admits rfl
  · intro reported
    have hvacant : Vacant root ban task.location (moment.withEvents reported) :=
      ⟨h.sound, h.vacant⟩
    refine safe_request_bind (hvacant.admits rfl rfl hcomputed) ?_
    have hafter : Vacant root ban task.location
        (Activator.watch settings provisioner now
          (.ensure task.location task.plan task.settings.provisionTimeout)
          (moment.withEvents reported)).2 :=
      hvacant.of_operation henvironment (.ensure _ _ (some _)) rfl hcomputed
        (hspares.ensure _ henvironment _ _ _)
    split
    · next hanswer =>
        have hbuilt := builtFrom_cons_self moment.history task.location task.plan
        rw [← hanswer] at hbuilt
        exact ⟨hafter.sound, fun _ => ⟨hafter, hbuilt⟩⟩
    · exact ⟨hafter.sound, nofun⟩

omit hspares in
/-- Recording a build puts its record into place. -/
theorem safe_record (habsolute : root.isAbsolute) (hcomputed : task.plan.IsComputed)
    (h : Built root ban task.location task.plan moment) :
    task.record.Safe (Activator.watch settings provisioner now) (Admits root ban)
      (fun result after => Sound root ban after.files after.history ∧ (result = .ok () →
        ban.IsStrict → Recorded task.location task.plan.fingerprint after.files)) moment := by
  rw [record]
  refine safe_request_bind (h.sound.admits rfl) ?_
  generalize hrecord : BuildRecord.make task.name task.plan.interpreter task.plan.fingerprint
    task.plan.requirements (Activator.watch settings provisioner now .now moment).1 = record
  have hplan : record.plan = task.plan := hrecord ▸ rfl
  have hformed : record.fingerprint.isWellFormed := by
    rw [← hrecord, BuildRecord.make, hcomputed.fingerprint]
    exact Fingerprint.isWellFormed_compute _ _
  obtain ⟨hkeeps, hdrafted⟩ : Keeps root ban moment.files _ ∧ _ :=
    BuildRecord.keeps_writeDraft habsolute henvironment record moment.1.1
  have hsound := h.sound.of_keeps hkeeps
  refine safe_request_bind (h.sound.admits rfl) ?_
  split
  · exact ⟨hsound, nofun⟩
  · next hwritten =>
      refine safe_request_bind (hsound.admits rfl) ?_
      obtain ⟨hmoved, hread⟩ := hsound.of_moveDraft habsolute henvironment
        (hplan ▸ h.built) hformed (hdrafted hwritten h.sound.orderly)
      split
      · exact ⟨hmoved, nofun⟩
      · next hanswer =>
          exact ⟨hmoved, fun _ hstrict =>
            ⟨record, hread hanswer hstrict, congrArg ProvisionPlan.fingerprint hplan⟩⟩

/-- Rebuilding goes through all stages. -/
theorem safe_rebuild (habsolute : root.isAbsolute) (hcomputed : task.plan.IsComputed)
    (h : Sound root ban moment.files moment.history) :
    task.rebuild.Safe (Activator.watch settings provisioner now) (Admits root ban)
      (fun result after => Sound root ban after.files after.history ∧ (result = .ok () →
        ban.IsStrict → Recorded task.location task.plan.fingerprint after.files)) moment := by
  rw [rebuild]
  obtain ⟨hkeeps, hnone⟩ : Keeps root ban moment.files _ ∧ _ :=
    BuildRecord.keeps_remove habsolute henvironment moment.1.1
  have hsound := h.of_keeps hkeeps
  refine safe_request_bind (h.admits rfl) ?_
  split
  · exact ⟨hsound, nofun⟩
  · next hremoved =>
      have hvacant : Vacant root ban task.location (Activator.watch settings provisioner now
          (.removeRecord task.location) moment).2 := ⟨hsound, hnone hremoved h.orderly⟩
      apply safe_bind
      apply (safe_clear hspares henvironment hvacant).mono
      rintro result after ⟨hsound, hcleared⟩
      split
      · exact ⟨hsound, nofun⟩
      · apply safe_bind
        apply (safe_provision hspares henvironment hcomputed (hcleared rfl)).mono
        rintro result after ⟨hsound, hbuilt⟩
        split
        · exact ⟨hsound, nofun⟩
        · exact safe_record henvironment habsolute hcomputed (hbuilt rfl)

/-- Looking for another build changes no record. -/
theorem safe_alreadyBuilt (habsolute : root.isAbsolute)
    (h : Sound root ban moment.files moment.history) :
    task.alreadyBuilt.Safe (Activator.watch settings provisioner now) (Admits root ban)
      (fun found after => Sound root ban after.files after.history ∧
        after.history = moment.history ∧
        (found = true → Recorded task.location task.plan.fingerprint after.files)) moment := by
  rw [alreadyBuilt]
  split
  · refine safe_request_bind (h.admits rfl) ?_
    have hsound := h.of_isPresent settings now hspares henvironment
    split
    · refine safe_request_bind (hsound.admits rfl) ?_
      refine ⟨hsound, rfl, fun hfound => ?_⟩
      obtain ⟨record, hrecord, hmatch⟩ := (Option.any_eq_true _ _).mp hfound
      refine ⟨record, ?_, by simpa using hmatch⟩
      exact (recordAt_eq_load (henvironment.isAbsolute habsolute) _).trans hrecord
    · exact ⟨hsound, rfl, nofun⟩
  · exact ⟨h, rfl, nofun⟩

theorem safe_underLock (habsolute : root.isAbsolute) (hcomputed : task.plan.IsComputed)
    (h : Sound root ban moment.files moment.history) :
    task.underLock.Safe (Activator.watch settings provisioner now) (Admits root ban)
      (task.Concludes root ban moment) moment := by
  rw [underLock]
  apply safe_bind
  apply (safe_alreadyBuilt hspares henvironment habsolute h).mono
  rintro found after ⟨hsound, hhistory, hfound⟩
  split
  · next htrue =>
      apply safe_bind
      apply safe_reportAll
      · exact fun _ _ => hsound.admits rfl
      · exact fun _ => ⟨hsound, nofun, fun _ => ⟨hhistory, hfound htrue⟩⟩
  · apply safe_bind
    apply (safe_rebuild hspares henvironment habsolute hcomputed hsound).mono
    rintro result after ⟨hsound, hrecorded⟩
    split
    · exact ⟨hsound, nofun, nofun⟩
    · exact ⟨hsound, fun _ => hrecorded rfl, nofun⟩

/-- A build under its lock comes to a conclusion. -/
theorem safe_run (habsolute : root.isAbsolute) (hcomputed : task.plan.IsComputed)
    (h : Sound root ban moment.files moment.history) :
    task.run.Safe (Activator.watch settings provisioner now) (Admits root ban)
      (task.Concludes root ban moment) moment := by
  rw [run]
  refine safe_request_bind (h.admits rfl) ?_
  generalize hanswer : Activator.watch settings provisioner now (.acquireLock
    (lockFile task.location) task.settings.lockMode task.settings.lockTimeout) moment = answered
  obtain ⟨answer, after⟩ := answered
  obtain ⟨hsound, hhistory⟩ := h.of_acquireLock habsolute henvironment hanswer
  cases answer with
  | error e => exact ⟨hsound, nofun, nofun⟩
  | ok lock =>
      apply safe_bind
      apply (safe_underLock hspares henvironment habsolute hcomputed hsound).mono
      intro result after hconcludes
      refine safe_request_bind (hconcludes.sound.admits rfl) ?_
      exact ⟨hconcludes.sound, hconcludes.rebuilt, hhistory ▸ hconcludes.reused⟩

end Activation.BuildTask
end Enclave
