import Enclave.Proofs.Activation.Records
import Enclave.Provision.Scripted

/-! # Reuse is sound and settles

A system begins without records below its root, and neither links nor devices stand in the place of
an environment, of a record or of its draft.  When a smart activation succeeds without a build, the
last operation on its environment has built exactly what it asks for, unless two byte sequences with
one hash were met.  And once an activation that looks at the record has succeeded, a smart one that
follows and asks for the same only looks and reports, as long as the provisioner sees the
environment (`reuse_settles`). -/

namespace Enclave

open Layout Procedure FileSystem
open Activation (Request Steps Outcome Detection Reporter ask)

/-! ### What is asked for and what was built -/

variable {Memory : Type} {root location : Path} {settings : ActivatorSettings}
  {provisioner : Provisioner Memory} {now : Instant} {moment : Moment Memory}
  {request : ActivationRequest}

/-- Whether the provisioner sees an environment at a moment, whatever was reported, and changes no
file by looking. -/
def Provisioner.Sees (provisioner : Provisioner Memory) (location : Path)
    (moment : Moment Memory) : Prop :=
  ∀ reported, (provisioner.isPresent location (moment.withEvents reported).1).1 = true ∧
    (provisioner.isPresent location (moment.withEvents reported).1).2.1.files = moment.files

theorem Provisioner.remembering_sees {moment : Moment (List Path)}
    (hmem : location ∈ moment.1.2) : remembering.Sees location moment :=
  fun _ => ⟨List.contains_iff_mem.mpr hmem, rfl⟩

/-- Whether what was built can be told from what a plan asks for. -/
structure ProvisionPlan.IsDistinguished (plan : ProvisionPlan) (history : List Operation) :
    Prop where
  nulFree : '\x00' ∉ plan.interpreter.toList
  nulFree_of_mem : ∀ location built result, .ensure location built result ∈ history →
    '\x00' ∉ built.interpreter.toList
  collisionFree : ∀ location built result, .ensure location built result ∈ history →
    ¬ Fingerprint.Collision (Fingerprint.preimage built.interpreter built.requirements)
      (Fingerprint.preimage plan.interpreter plan.requirements)

/-- A plan is distinguished where nothing else was built. -/
theorem ProvisionPlan.IsDistinguished.of_forall_eq {plan : ProvisionPlan}
    {history : List Operation} (hnulFree : '\x00' ∉ plan.interpreter.toList)
    (hplans : ∀ built ∈ history.filterMap Operation.plan?, built = plan) :
    plan.IsDistinguished history := by
  have hsame : ∀ location built result, .ensure location built result ∈ history → built = plan :=
    fun location built result hmem => hplans built (List.mem_filterMap.mpr ⟨_, hmem, rfl⟩)
  refine ⟨hnulFree, fun location built result hmem => ?_, fun location built result hmem => ?_⟩
  · exact hsame location built result hmem ▸ hnulFree
  · exact fun hcollision => hcollision.1 (by rw [hsame location built result hmem])

theorem ProvisionPlan.IsDistinguished.eq_of_fingerprint {plan built : ProvisionPlan}
    {history : List Operation} (h : plan.IsDistinguished history) (hplan : plan.IsComputed)
    (hbuilt : built.IsComputed) {result : Option (Except ProvisionError Unit)}
    (hmem : .ensure location built result ∈ history)
    (hfingerprint : built.fingerprint = plan.fingerprint) : built = plan := by
  have hcompute : Fingerprint.compute built.interpreter ⟨[], built.requirements⟩ =
      Fingerprint.compute plan.interpreter ⟨[], plan.requirements⟩ := by
    rw [← hbuilt.fingerprint, ← hplan.fingerprint, hfingerprint]
  obtain ⟨hinterpreter, hrequirements⟩ := Fingerprint.compute_inj
    (h.nulFree_of_mem _ _ _ hmem) h.nulFree hbuilt.feedFree hplan.feedFree
    (h.collisionFree _ _ _ hmem) hcompute
  cases built
  cases plan
  simp only [ProvisionPlan.mk.injEq]
  exact ⟨hfingerprint, hinterpreter, hrequirements⟩

/-! ### Another activation -/

namespace Activation

variable {reporter : Reporter} {context : ResolutionContext} {fingerprint : Fingerprint}

/-- Detecting an environment that is there with its record only looks. -/
theorem safe_detect_recorded (habsolute : location.isAbsolute)
    (hsees : provisioner.Sees location moment)
    (hrecorded : Recorded location fingerprint moment.files) :
    (detect settings reporter request.descriptor location).Safe
      (Activator.watch settings provisioner now) (fun request _ => request.Looks)
      (fun found after => found.plan =
          Activator.planFor settings moment.1.1 request.descriptor.requirementFiles ∧
        found.present = true ∧ found.recorded = some fingerprint ∧
        after.files = moment.files ∧ after.history = moment.history) moment := by
  rw [detect]
  refine safe_request_bind trivial ?_
  apply safe_ite_reportAll
  · exact fun _ _ => trivial
  intro reported
  refine safe_request_bind trivial ?_
  obtain ⟨hpresent, hfiles⟩ := hsees reported
  obtain ⟨record, hrecord, hfingerprint⟩ := hrecorded
  have hload : (BuildRecord.load (provisioner.isPresent location (moment.withEvents reported).1).2.1
      location).1 = some record := by
    rw [← recordAt_eq_load habsolute, hfiles, hrecord]
  rw [if_pos (by exact hpresent)]
  refine safe_request_bind trivial ?_
  apply safe_bind
  apply safe_reportAll
  · exact fun _ _ => trivial
  · refine fun _ => ⟨rfl, hpresent, ?_, hfiles, rfl⟩
    exact (congrArg (Option.map BuildRecord.fingerprint) hload).trans (congrArg some hfingerprint)

/-- An activation that finds its record only looks, and is content with what is there. -/
theorem safe_activate_recorded {quiet : Bool} (habsolute : location.isAbsolute)
    (hmode : request.descriptor.mode = .isolated) (hpolicy : request.policy = .smart)
    (hlocated : locate settings.root request.descriptor.name moment.1.1.currentDirectory =
      .ok location)
    (hsees : provisioner.Sees location moment)
    (hrecorded : Recorded location (Activator.planFor settings moment.1.1
      request.descriptor.requirementFiles).fingerprint moment.files) :
    (activate settings quiet context request).Safe (Activator.watch settings provisioner now)
      (fun request _ => request.Looks)
      (fun outcome after => (∃ success, outcome.result = .ok success ∧
          success.location = some location ∧ success.rebuilt = false ∧
          success.fingerprint = some (Activator.planFor settings moment.1.1
            request.descriptor.requirementFiles).fingerprint) ∧
        after.files = moment.files ∧ after.history = moment.history) moment := by
  rw [activate]
  split
  · next hsystem =>
      rw [hmode] at hsystem
      cases hsystem
  · apply safe_bind
    apply safe_findLocation trivial
    rw [hlocated]
    apply safe_bind
    apply (safe_detect_recorded habsolute hsees hrecorded).mono
    rintro found after ⟨hplan, hpresent, hfound, hfiles, hhistory⟩
    rw [hpolicy, hpresent, hfound, hplan, Activation.decide, if_pos (by simp)]
    apply safe_succeed
    · exact fun _ _ => trivial
    · exact fun _ _ _ _ => ⟨⟨_, rfl, rfl, rfl, rfl⟩, hfiles, hhistory⟩

end Activation

/-! ### Runs of activations -/

namespace System

variable {start system : System Memory} {ban : Ban} {activation : Activation}

/-- A smart activation of an environment with the record that it wants only looks. -/
theorem settles_of_recorded (habsolute : location.isAbsolute)
    (hmode : request.descriptor.mode = .isolated) (hpolicy : request.policy = .smart)
    (hlocated : system.activator.locate system.moment.1.1 request.descriptor.name = .ok location)
    (hsees : provisioner.Sees location system.moment)
    (hrecorded : Recorded location (system.planFor request).fingerprint system.moment.files)
    (now : Instant) :
    (system.steps request).Safe (Activator.watch system.activator.settings provisioner now)
        (fun asked _ => asked.Looks) (fun _ _ => True) system.moment ∧
      (system.activate provisioner now request).2.moment.files = system.moment.files ∧
      (system.activate provisioner now request).2.moment.history = system.moment.history ∧
      ∃ second, (system.activate provisioner now request).1.result = .ok second ∧
        second.location = some location ∧
        second.fingerprint = some (system.planFor request).fingerprint ∧
        second.rebuilt = false := by
  have hsafe : (system.steps request).Safe
      (Activator.watch system.activator.settings provisioner now) _ _ system.moment :=
    Activation.safe_activate_recorded habsolute hmode hpolicy hlocated hsees hrecorded
  obtain ⟨⟨success, hok, hlocation, hrebuilt, hfingerprint⟩, hfiles, hhistory⟩ := hsafe.run
  have hresult : (system.activate provisioner now request).1.result =
      .ok (Activator.activationOf request _ success) :=
    congrArg (Except.map (Activator.activationOf request _)) hok
  exact ⟨hsafe.mono fun _ _ _ => trivial, hfiles, hhistory, _, hresult, hlocation, hfingerprint,
    hrebuilt⟩

/-- **Smart reuse is sound and settles.**  A smart success without a build found what the last
operation on its environment has built from just what is declared now.  After a success that looked
at the record or built, a smart activation with the same declarations only looks, changes no file
and ends with the same environment, as long as the provisioner sees one. -/
theorem reuse_settles (habsolute : root.isAbsolute) (hspares : provisioner.Spares root ban)
    (hbegins : start.Begins root ban) (hreachable : start.Reachable provisioner root ban system)
    (hworks : system.WorksIn root)
    (hresult : (system.activate provisioner now request).1.result = .ok activation)
    (hlocation : activation.location = some location) :
    let after := (system.activate provisioner now request).2
    (request.policy = .smart → activation.rebuilt = false →
      (system.planFor request).IsDistinguished system.moment.history →
        after.moment.history = system.moment.history ∧
        BuiltFrom after.moment.history location (system.planFor request)) ∧
    (request.policy ≠ .never → (activation.rebuilt = true → ban.IsStrict) →
      ∀ (again : ActivationRequest) (later : Instant),
        again.descriptor.name = request.descriptor.name → again.descriptor.mode = .isolated →
        again.policy = .smart → after.planFor again = system.planFor request →
        after.activator.locate after.moment.1.1 again.descriptor.name = .ok location →
        provisioner.Sees location after.moment →
          (after.steps again).Safe (Activator.watch after.activator.settings provisioner later)
            (fun asked _ => asked.Looks) (fun _ _ => True) after.moment ∧
          (after.activate provisioner later again).2.moment.files = after.moment.files ∧
          (after.activate provisioner later again).2.moment.history = after.moment.history ∧
          ∃ second, (after.activate provisioner later again).1.result = .ok second ∧
            second.location = activation.location ∧
            second.fingerprint = activation.fingerprint ∧ second.rebuilt = false) := by
  intro after
  have hsound := (hbegins.sound habsolute).of_reachable habsolute hspares hreachable
  have hsound' : Sound root ban after.moment.files after.moment.history :=
    hsound.of_step habsolute hspares (.activate system now request hworks)
  obtain ⟨success, hrebuilt, hfingerprint, hachieves⟩ :=
    hsound.exists_achieves habsolute hspares hworks hresult hlocation
  have henvironment : IsEnvironment root location :=
    ⟨request.descriptor.name, hachieves.named, Activation.joinBelow?_eq_some hachieves.located⟩
  constructor
  · intro hpolicy hreused hdistinguished
    have hhistory := hachieves.history (hrebuilt.trans hreused)
    obtain ⟨record, hrecord, hmatch⟩ := hachieves.recorded (by simp [hpolicy])
      fun htrue => by simp [hrebuilt, hreused] at htrue
    have hbuilt := hsound'.built location henvironment record hrecord
    have hmem : Operation.ensure location record.plan (some (.ok ())) ∈ after.moment.history :=
      List.mem_of_find?_eq_some hbuilt
    rw [← hdistinguished.eq_of_fingerprint (Activator.isComputed_planFor _ _ _)
      (hsound'.computed _ hmem) (hhistory ▸ hmem) hmatch]
    exact ⟨hhistory, hbuilt⟩
  · intro hpolicy hstrict again later hname hmode hsmart hplan hlocated hsees
    have hrecorded := hachieves.recorded hpolicy (hrebuilt ▸ hstrict)
    rw [← hplan] at hrecorded
    obtain ⟨hsafe, hfiles, hhistory, second, hok, hplace, hprint, hreused⟩ :=
      settles_of_recorded (henvironment.isAbsolute habsolute) hmode hsmart hlocated hsees hrecorded
        later
    refine ⟨hsafe, hfiles, hhistory, second, hok, hplace.trans hlocation.symm, ?_, hreused⟩
    rw [hprint, hplan, ← hfingerprint, hachieves.fingerprint]

/-! ### An environment that is reused -/

/-- The sample after `a` was activated twice. -/
def sampleAgain : Activator.Completion × System (List Path) :=
  (sampleAfter (.directory 3)).activate .remembering sampleTime (sampleRequest "a")

/-- What the activations of the sample ask for. -/
def samplePlan : ProvisionPlan :=
  Activation.planOf (.standard sampleRoot) ⟨[], []⟩

theorem planFor_sample : (sample (.directory 3)).planFor (sampleRequest "a") = samplePlan := by
  decide +kernel

theorem planFor_sampleAfter :
    (sampleAfter (.directory 3)).planFor (sampleRequest "a") = samplePlan := by
  decide +kernel

theorem isDistinguished_sampleAfter :
    samplePlan.IsDistinguished (sampleAfter (.directory 3)).moment.history := by
  have hplans : (sampleAfter (.directory 3)).moment.history.filterMap Operation.plan? =
      [samplePlan] := by
    decide +kernel
  refine .of_forall_eq (by decide +kernel) fun built hmem => ?_
  rw [hplans] at hmem
  exact List.mem_singleton.mp hmem

section

attribute [local irreducible] System.activate

theorem sees_sampleAfter :
    Provisioner.remembering.Sees sampleA (sampleAfter (.directory 3)).moment := by
  have hmemory : (sampleAfter (.directory 3)).moment.1.2 = [sampleA] := by decide +kernel
  exact Provisioner.remembering_sees (hmemory ▸ List.mem_singleton_self _)

/-- The second activation of `a` is content with what the first one has built. -/
theorem reuse_settles_sample : ∃ first second,
    ((sample (.directory 3)).activate .remembering sampleTime (sampleRequest "a")).1.result =
        .ok first ∧
      sampleAgain.1.result = .ok second ∧ second.rebuilt = false ∧
      second.fingerprint = first.fingerprint ∧
      BuiltFrom sampleAgain.2.moment.history sampleA samplePlan := by
  have habsolute : sampleRoot.isAbsolute = true := by decide +kernel
  have hspares := Provisioner.remembering_spares sampleRoot .irregular
  have hlocated : (sampleAfter (.directory 3)).activator.locate
      (sampleAfter (.directory 3)).moment.1.1 (sampleRequest "a").descriptor.name =
        .ok sampleA := by
    decide +kernel
  obtain ⟨first, hfirst, hlocation⟩ := exists_activation_sample
  obtain ⟨_, hsettles⟩ := reuse_settles habsolute hspares (begins_sample _) .refl
    (worksIn_sample _) hfirst hlocation
  obtain ⟨_, _, _, second, hsecond, hplace, hprint, hreused⟩ := hsettles (by decide)
    (fun _ => Ban.irregular_isStrict) (sampleRequest "a") sampleTime rfl rfl rfl
    (planFor_sampleAfter.trans planFor_sample.symm) hlocated sees_sampleAfter
  have hworks : (sampleAfter (.directory 3)).WorksIn sampleRoot :=
    worksIn_of_isAbsolute (by decide +kernel) habsolute
  obtain ⟨hsound, _⟩ := reuse_settles habsolute hspares (begins_sample _)
    (reachable_sampleAfter _ _) hworks hsecond (hplace.trans hlocation)
  rw [planFor_sampleAfter] at hsound
  exact ⟨first, second, hfirst, hsecond, hreused, hprint,
    (hsound rfl hreused isDistinguished_sampleAfter).2⟩

end

/-! ### An environment behind a link -/

/-- A system with the directory of `a` and a link to it in the place of `b`.  Its provisioner makes
environments of files. -/
def linked : System Scripted.Memory where
  activator := ⟨.standard sampleRoot, .empty⟩
  context := ⟨[], .empty⟩
  moment := (((sample (.link (.ofText "a"))).moment.1.1, {}), [])

/-- This system after the activation of `a`. -/
def linkedAfter : System Scripted.Memory :=
  (linked.activate Scripted.provisioner sampleTime (sampleRequest "a")).2

/-- What the activation of `b` then comes to. -/
def linkedAgain : Activator.Completion × System Scripted.Memory :=
  linkedAfter.activate Scripted.provisioner sampleTime (sampleRequest "b")

/-- An environment that was never built is reused, although there were no records at first, where it
is a link to another one. -/
theorem reuse_not_builtFrom :
    (∀ location, IsEnvironment sampleRoot location →
        (BuildRecord.load linked.moment.1.1 location).1 = none) ∧
      (∃ activation, linkedAgain.1.result = .ok activation ∧
        (activation.location, activation.policy, activation.rebuilt) =
          (some sampleB, .smart, false)) ∧
      ∀ plan, ¬ BuiltFrom linkedAgain.2.moment.history sampleB plan := by
  have hagain : linkedAgain = (linked.activateChars Scripted.provisioner sampleTime
      (sampleRequest "a")).2.activateChars Scripted.provisioner sampleTime (sampleRequest "b") := by
    rw [linkedAgain, linkedAfter, activate_eq_activateChars, activate_eq_activateChars]
  rw [hagain]
  refine ⟨fun location henvironment => ?_, exists_ok_of_map_eq_ok (by decide +kernel),
    not_builtFrom (by decide +kernel)⟩
  rw [← recordAt_eq_load (henvironment.isAbsolute (by decide +kernel))]
  exact recordAt_of_entries (by decide +kernel) location

end System
end Enclave
