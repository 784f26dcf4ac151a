import Enclave.Proofs.Activation.Ways
import Enclave.Provision.System

/-! # The contract with the provisioner

What an activation asks of its provisioner, whatever is answered on the way: environments, records
and locks may be changed by others between any two of its calls.  `Contract` lists what holds under
every policy, and every run keeps it (`contract_run`).  An activation that does not go through the
state `building` leaves files and locks alone (`Request.Preserves`). -/

namespace Enclave

namespace Activation

variable {calls front back : List Call} {location : Path} {fingerprint : Fingerprint}

/-! ### The contract -/

/-- What holds for the calls of an activation that ended in an outcome. -/
structure Contract (settings : ActivatorSettings) (request : ActivationRequest) (calls : List Call)
    (outcome : Outcome) : Prop where
  /-- The system is taken as it is, and so is an environment that is never built. -/
  untouched : request.descriptor.mode = .system ∨ request.policy = .never → operations calls = []
  /-- At most one environment is asked for, and none is destroyed. -/
  smart : request.policy = .smart → operations calls = [] ∨ ∃ location plan answer,
    operations calls = [⟨.ensure location plan settings.provisionTimeout, answer⟩]
  /-- An environment is asked for only after it was destroyed. -/
  always : request.policy = .always → operations calls = [] ∨
    (∃ location cause, operations calls = [⟨.destroy location, .error cause⟩]) ∨
    ∃ location plan answer, operations calls = [⟨.destroy location, .ok ()⟩,
      ⟨.ensure location plan settings.provisionTimeout, answer⟩]
  /-- All operations are about the environment with the name that was asked for. -/
  located : ∀ call ∈ operations calls, ∃ location working,
    locate settings.root request.descriptor.name working = .ok location ∧
      (call.request = .destroy location ∨
        ∃ plan timeout, call.request = .ensure location plan timeout)
  /-- What is asked for is what is declared. -/
  declared : ∀ location plan timeout answer, ⟨.ensure location plan timeout, answer⟩ ∈ calls →
    timeout = settings.provisionTimeout ∧ Declares settings request.descriptor calls plan
  /-- A success is about one location.  A smart one asked for nothing exactly if what it wants was
  found, before the lock or under it; one that always builds asked for everything. -/
  succeeded : ∀ success, outcome.result = .ok success → request.descriptor.mode = .isolated →
    ∃ location plan, success.location = some location ∧
      success.fingerprint = some plan.fingerprint ∧
      Declares settings request.descriptor calls plan ∧
      (∀ call ∈ operations calls, call.request = .destroy location ∨
        ∃ plan timeout, call.request = .ensure location plan timeout) ∧
      (request.policy = .smart → (operations calls = [] ↔
        Sighted location plan.fingerprint (beforeLock calls) ∨
          Sighted location plan.fingerprint (sinceLock calls))) ∧
      (request.policy = .always → operations calls = [⟨.destroy location, .ok ()⟩,
        ⟨.ensure location plan settings.provisionTimeout, .ok ()⟩])
  /-- A success was rebuilt exactly if the provisioner built it. -/
  rebuilt : ∀ success, outcome.result = .ok success → (success.rebuilt = true ↔
    ∃ location plan timeout, ⟨.ensure location plan timeout, .ok ()⟩ ∈ calls)
  /-- Without a build everything was only looked at. -/
  watching : (.unresolved, .building) ∉ outcome.transitions → Watching calls

variable {settings : ActivatorSettings} {request : ActivationRequest} {outcome : Outcome}

/-- Calls that only look keep the contract, if a success has found what it wants. -/
theorem Contract.of_watching (h : Watching calls)
    (hrebuilt : ∀ success, outcome.result = .ok success → success.rebuilt = false)
    (hsucceeded : ∀ success, outcome.result = .ok success → request.descriptor.mode = .isolated →
      request.policy ≠ .always ∧ ∃ location plan, success.location = some location ∧
        success.fingerprint = some plan.fingerprint ∧
        Declares settings request.descriptor calls plan ∧
        (request.policy = .smart → Sighted location plan.fingerprint calls)) :
    Contract settings request calls outcome where
  untouched _ := h.operations
  smart _ := .inl h.operations
  always _ := .inl h.operations
  located call hmem := by
    rw [h.operations] at hmem
    cases hmem
  declared location plan timeout answer hmem := (h _ hmem).elim
  succeeded success hok hmode := by
    obtain ⟨hpolicy, location, plan, hlocation, hfingerprint, hdeclares, hsighted⟩ :=
      hsucceeded success hok hmode
    refine ⟨location, plan, hlocation, hfingerprint, hdeclares, fun call hmem => ?_,
      fun hsmart => ?_, fun halways => absurd halways hpolicy⟩
    · rw [h.operations] at hmem
      cases hmem
    · rw [beforeLock_of_watching h]
      exact ⟨fun _ => .inl (hsighted hsmart), fun _ => h.operations⟩
  rebuilt success hok := by
    rw [hrebuilt success hok]
    refine ⟨nofun, ?_⟩
    rintro ⟨location, plan, timeout, hmem⟩
    exact (h _ hmem).elim
  watching _ := h

/-- Calls that only look keep the contract, if they end in an error. -/
theorem Contract.of_error (h : Watching calls) {error : ActivationError}
    (hresult : outcome.result = .error error) : Contract settings request calls outcome := by
  refine .of_watching h ?_ ?_
  · intro success hok
    rw [hresult] at hok
    cases hok
  · intro success hok
    rw [hresult] at hok
    cases hok

/-! ### Builds -/

/-- What is known of a build: what comes before it only looks, and what comes after it reports. -/
structure BuildTask.Occurs (task : BuildTask) (request : ActivationRequest)
    (front inner back : List Call) (result : Except ActivationError Bool) (outcome : Outcome) :
    Prop where
  course : task.Course inner result
  locked : ∃ answer rest, inner = ⟨.acquireLock (Layout.lockFile task.location)
    task.settings.lockMode task.settings.lockTimeout, answer⟩ :: rest
  policy : task.policy = request.policy
  decided : request.policy = .always ∧ task.destroyFirst = true ∨
    request.policy = .smart ∧ task.destroyFirst = false
  mode : request.descriptor.mode = .isolated
  located : ∃ working,
    locate task.settings.root request.descriptor.name working = .ok task.location
  declares : Declares task.settings request.descriptor front task.plan
  watching : Watching front
  unread : request.policy = .smart → ¬ Reads task.plan.fingerprint front
  reporting : Reporting back
  succeeded : ∀ success, outcome.result = .ok success → ∃ rebuilt, result = .ok rebuilt ∧
    success.rebuilt = rebuilt ∧ success.location = some task.location ∧
    success.fingerprint = some task.plan.fingerprint
  building : (.unresolved, .building) ∈ outcome.transitions

namespace BuildTask

variable {task : BuildTask} {inner : List Call} {result : Except ActivationError Bool}
  (h : task.Occurs request front inner back result outcome)

include h

theorem Occurs.operations_eq : operations (front ++ inner ++ back) = operations inner := by
  simp [h.watching.operations, h.reporting.operations]

theorem Occurs.declares_all :
    Declares task.settings request.descriptor (front ++ inner ++ back) task.plan :=
  h.declares.mono fun call hcall => by simp [hcall]

/-- The calls of a build are those under its lock. -/
theorem Occurs.split : beforeLock (front ++ inner ++ back) = front ∧
    sinceLock (front ++ inner ++ back) = inner ++ back := by
  obtain ⟨answer, rest, rfl⟩ := h.locked
  have hlocking : (Request.acquireLock (Layout.lockFile task.location) task.settings.lockMode
    task.settings.lockTimeout).isLocking := rfl
  simpa using splitLock h.watching hlocking answer (rest ++ back)

/-- A smart success asked for nothing exactly if what it wants was found. -/
theorem Occurs.operations_eq_nil_iff {rebuilt : Bool} (hresult : result = .ok rebuilt)
    (hsmart : request.policy = .smart) :
    operations inner = [] ↔ Sighted task.location task.plan.fingerprint front ∨
      Sighted task.location task.plan.fingerprint (inner ++ back) := by
  constructor
  · intro hnone
    subst hresult
    exact .inr ((h.course.sighted hnone).mono (List.prefix_append ..).isInfix)
  · rintro (hbefore | hsince)
    · exact absurd hbefore.reads (h.unread hsmart)
    · refine h.course.operations_of_reads ((reads_congr ?_).mp hsince.reads)
      simp [h.reporting.readings]

/-- How far a build came, and whether a success says that the environment was rebuilt. -/
theorem Occurs.exists_progress : ∃ built,
    task.Progress built (operations (front ++ inner ++ back)) ∧
      ∀ success, outcome.result = .ok success → success.rebuilt = built := by
  obtain ⟨built, hprogress, hbuilt⟩ := h.course.exists_progress
  refine ⟨built, h.operations_eq ▸ hprogress, fun success hok => ?_⟩
  obtain ⟨rebuilt, hresult, rfl, _, _⟩ := h.succeeded success hok
  exact hbuilt _ hresult

theorem Occurs.destroyFirst_eq_true (halways : request.policy = .always) :
    task.destroyFirst = true := by
  rcases h.decided with ⟨_, hfirst⟩ | ⟨hsmart, _⟩
  · exact hfirst
  · rw [halways] at hsmart
    cases hsmart

theorem Occurs.destroyFirst_eq_false (hsmart : request.policy = .smart) :
    task.destroyFirst = false := by
  rcases h.decided with ⟨halways, _⟩ | ⟨_, hfirst⟩
  · rw [hsmart] at halways
    cases halways
  · exact hfirst

theorem Occurs.contract :
    Contract task.settings request (front ++ inner ++ back) outcome where
  untouched := by
    rw [h.mode]
    rintro (hsystem | hnever)
    · cases hsystem
    · rcases h.decided with ⟨hpolicy, _⟩ | ⟨hpolicy, _⟩ <;> rw [hnever] at hpolicy <;> cases hpolicy
  smart hsmart := by
    obtain ⟨_, hprogress, _⟩ := h.exists_progress
    exact (hprogress.smart (h.destroyFirst_eq_false hsmart)).imp_right
      fun ⟨answer, hcalls⟩ => ⟨_, _, answer, hcalls⟩
  always halways := by
    obtain ⟨_, hprogress, _⟩ := h.exists_progress
    exact (hprogress.always (h.destroyFirst_eq_true halways)).imp_right fun hmore =>
      hmore.imp (fun ⟨cause, hcalls⟩ => ⟨_, cause, hcalls⟩)
        fun ⟨answer, hcalls⟩ => ⟨_, _, answer, hcalls⟩
  located call hmem := by
    obtain ⟨_, hprogress, _⟩ := h.exists_progress
    obtain ⟨working, hlocated⟩ := h.located
    exact ⟨_, working, hlocated, hprogress.location_of_mem hmem⟩
  declared location plan timeout answer hmem := by
    obtain ⟨_, hprogress, _⟩ := h.exists_progress
    obtain ⟨⟨_, rfl, rfl⟩, _⟩ := hprogress.eq_of_mem (mem_operations.mpr hmem)
    exact ⟨rfl, h.declares_all⟩
  succeeded success hok _ := by
    obtain ⟨_, hprogress, _⟩ := h.exists_progress
    obtain ⟨rebuilt, hresult, _, hlocation, hfingerprint⟩ := h.succeeded success hok
    refine ⟨_, _, hlocation, hfingerprint, h.declares_all,
      fun call hmem => hprogress.location_of_mem hmem, fun hsmart => ?_, fun halways => ?_⟩
    · rw [h.operations_eq, h.split.1, h.split.2]
      exact h.operations_eq_nil_iff hresult hsmart
    · have hpolicy : task.policy ≠ .smart := by rw [h.policy, halways]; nofun
      have hcourse := h.course
      rw [hresult] at hcourse
      rw [h.operations_eq, hcourse.operations_eq hpolicy, clearing,
        if_pos (h.destroyFirst_eq_true halways)]
      rfl
  rebuilt success hok := by
    obtain ⟨built, hprogress, hbuilt⟩ := h.exists_progress
    rw [hbuilt success hok]
    constructor
    · rintro rfl
      exact ⟨_, _, _, mem_operations.mp hprogress.ensuring_mem⟩
    · rintro ⟨location, plan, timeout, hmem⟩
      exact (hprogress.eq_of_mem (mem_operations.mpr hmem)).2.mp rfl
  watching hnone := absurd h.building hnone

end BuildTask

/-! ### Activations -/

section

variable {reporter : Reporter} {found : Detection} {look rest : List Call}
  {working : Except IoError Path} (hmode : request.descriptor.mode = .isolated)
  (hlocated : locate settings.root request.descriptor.name working = .ok location)
  (hfront : Watching front) (hunread : readings front = [])
  (hlook : (detect settings reporter request.descriptor location).Trace look found)

include hmode hlocated hfront hunread hlook

/-- A build after a detection keeps the contract. -/
theorem contract_build {destroyFirst : Bool} {entering work : List Call}
    {result : Except ActivationError Bool}
    (hbuild : found.decision request.policy = .build destroyFirst) (hentering : Reporting entering)
    (hwork : (taskFor settings reporter request location found destroyFirst).run.Trace work result)
    (hback : Reporting back)
    (hsucceeded : ∀ success, outcome.result = .ok success → ∃ rebuilt, result = .ok rebuilt ∧
      success.rebuilt = rebuilt ∧ success.location = some location ∧
      success.fingerprint = some found.plan.fingerprint)
    (hbuilding : (.unresolved, .building) ∈ outcome.transitions) :
    Contract settings request (front ++ look ++ (entering ++ work ++ back)) outcome := by
  obtain ⟨hwatching, hdeclares, _, hreads⟩ := trace_detect hlook
  obtain ⟨hlock, hcourse⟩ := BuildTask.course_run hwork
  have hunwanted (hsmart : request.policy = .smart) :
      ¬ Reads found.plan.fingerprint (front ++ look ++ entering) := by
    intro hread
    have hseen : readings (front ++ look ++ entering) = readings look := by
      simp [hunread, hentering.readings]
    obtain ⟨halways, _⟩ | ⟨_, _, hmatch⟩ := decide_eq_build hbuild
    · rw [hsmart] at halways
      cases halways
    · exact hmatch (hreads _ ((reads_congr hseen).mp hread))
  have hoccurs : (taskFor settings reporter request location found destroyFirst).Occurs request
      (front ++ look ++ entering) work back result outcome :=
    { course := hcourse
      locked := hlock
      policy := rfl
      decided := (decide_eq_build hbuild).imp_right fun ⟨hsmart, hfirst, _⟩ => ⟨hsmart, hfirst⟩
      mode := hmode
      located := ⟨working, hlocated⟩
      declares := hdeclares.mono (by simp)
      watching := (hfront.append hwatching).append hentering.watching
      unread := hunwanted
      reporting := hback
      succeeded := hsucceeded
      building := hbuilding }
  have hcalls : front ++ look ++ (entering ++ work ++ back) =
      (front ++ look ++ entering) ++ work ++ back := by simp
  rw [hcalls]
  exact hoccurs.contract

/-- What comes after a detection keeps the contract, whatever was looked at before. -/
theorem Decided.contract (h : Decided settings reporter request location found rest outcome) :
    Contract settings request (front ++ look ++ rest) outcome := by
  obtain ⟨hwatching, hdeclares, hsighted, _⟩ := trace_detect hlook
  cases h with
  | notFound _ hreporting hfails =>
      exact .of_error ((hfront.append hwatching).append hreporting.watching) hfails.1
  | reused journal hreuse hreporting hsucceeds =>
      refine .of_watching ((hfront.append hwatching).append hreporting.watching) ?_ ?_
      · intro success hok
        obtain rfl := Except.ok.inj (hsucceeds.1.symm.trans hok)
        rfl
      · intro success hok _
        obtain rfl := Except.ok.inj (hsucceeds.1.symm.trans hok)
        rcases decide_eq_reuse hreuse with hnever | ⟨hsmart, hpresent, hrecorded⟩
        · rw [hnever]
          exact ⟨nofun, location, found.plan, rfl, rfl, hdeclares.mono (by simp), nofun⟩
        · rw [hsmart]
          refine ⟨nofun, location, found.plan, rfl, rfl, hdeclares.mono (by simp), fun _ => ?_⟩
          exact (hsighted _ hpresent hrecorded).mono ⟨front, rest, rfl⟩
  | failed destroyFirst e hbuild hentering hwork hback hfails =>
      refine contract_build hmode hlocated hfront hunread hlook hbuild hentering hwork hback
        (fun success hok => absurd (hfails.1.symm.trans hok) nofun) ?_
      simp [hfails.2, Activation.built]
  | built destroyFirst rebuilt journal hbuild hentering hwork hback hsucceeds =>
      refine contract_build hmode hlocated hfront hunread hlook hbuild hentering hwork hback ?_ ?_
      · intro success hok
        obtain rfl := Except.ok.inj (hsucceeds.1.symm.trans hok)
        exact ⟨rebuilt, rfl, rfl, rfl, rfl⟩
      · simp [hsucceeds.2, Activation.built]

end

theorem contract_of_trace {quiet : Bool} {context : ResolutionContext}
    (h : (activate settings quiet context request).Trace calls outcome) :
    Contract settings request calls outcome := by
  cases way_of_trace h with
  | system hmode hreporting hsucceeds =>
      refine .of_watching hreporting.watching (fun success hok => ?_) fun _ _ hisolated => ?_
      · obtain rfl := Except.ok.inj (hsucceeds.1.symm.trans hok)
        rfl
      · rw [hmode] at hisolated
        cases hisolated
  | lost e _ hfound hreporting hfails =>
      obtain ⟨hwatching, _⟩ := trace_findLocation hfound
      exact .of_error (hwatching.append hreporting.watching) hfails.1
  | found location found hmode hfound hlook hdecided =>
      obtain ⟨hwatching, hunread, working, hlocate⟩ := trace_findLocation hfound
      exact hdecided.contract hmode hlocate.symm hwatching hunread hlook

/-! ### Reuse -/

theorem Decided.operations_of_reused {reporter : Reporter} {found : Detection}
    (h : Decided settings reporter request location found calls outcome) {success : Success}
    (hresult : outcome.result = .ok success) (hreused : success.rebuilt = false) :
    operations calls = [] := by
  cases h with
  | notFound _ hreporting _ => exact hreporting.operations
  | reused _ _ hreporting _ => exact hreporting.operations
  | failed _ _ _ _ _ _ hfails => exact absurd (hfails.1.symm.trans hresult) nofun
  | built _ rebuilt _ _ hentering hwork hback hsucceeds =>
      obtain rfl := Except.ok.inj (hsucceeds.1.symm.trans hresult)
      obtain rfl : rebuilt = false := hreused
      have hnone := (BuildTask.course_run hwork).2.operations_of_found
      simp [hentering.operations, hnone, hback.operations]

/-- A success that was not rebuilt asked its provisioner for nothing, under any policy. -/
theorem operations_of_reused {quiet : Bool} {context : ResolutionContext}
    (h : (activate settings quiet context request).Trace calls outcome) {success : Success}
    (hresult : outcome.result = .ok success) (hreused : success.rebuilt = false) :
    operations calls = [] := by
  cases way_of_trace h with
  | system _ hreporting _ => exact hreporting.operations
  | lost e _ _ _ hfails => exact absurd (hfails.1.symm.trans hresult) nofun
  | found location found _ hfound hlook hdecided =>
      obtain ⟨hwatching, _⟩ := trace_findLocation hfound
      obtain ⟨hlooking, _⟩ := trace_detect hlook
      have hnone := hdecided.operations_of_reused hresult hreused
      simp [hwatching.operations, hlooking.operations, hnone]

end Activation

/-! ### What is left alone -/

variable {Memory : Type}

/-- Whether looking for environments changes no file and takes no lock. -/
def Provisioner.OnlyLooks (provisioner : Provisioner Memory) : Prop :=
  ∀ location, ∀ state : World × Memory,
    (provisioner.isPresent location state).2.1.files = state.1.files ∧
      (provisioner.isPresent location state).2.1.locked = state.1.locked

theorem Venv.onlyLooks_provisioner (fixed : Option Path) : (provisioner fixed).OnlyLooks :=
  fun _ _ => ⟨rfl, rfl⟩

namespace Activation

/-- Whether answering a request changes no file and takes no lock. -/
def Request.Preserves (settings : ActivatorSettings) (request : Request) : Prop :=
  ∀ (Memory : Type) (provisioner : Provisioner Memory) (now : Instant) (state : World × Memory),
    provisioner.OnlyLooks →
      (Activator.handle settings provisioner now request state).2.1.files = state.1.files ∧
        (Activator.handle settings provisioner now request state).2.1.locked = state.1.locked

theorem Request.Looks.preserves {asked : Request} (h : asked.Looks)
    (settings : ActivatorSettings) : asked.Preserves settings := by
  intro Memory provisioner now state honly
  cases asked with
  | isPresent location => exact honly location state
  | workingDirectory => exact ⟨rfl, rfl⟩
  | declarations files => exact ⟨rfl, rfl⟩
  | readRecord location => exact ⟨rfl, rfl⟩
  | report event => exact ⟨rfl, rfl⟩
  | _ => exact h.elim

/-- **Every activation keeps the contract with its provisioner**, whatever is answered to its
requests, and without a build it leaves files and locks alone. -/
theorem contract_run {σ : Type} (handle : (request : Request) → σ → request.Answer × σ)
    (state : σ) (settings : ActivatorSettings) (quiet : Bool) (context : ResolutionContext)
    (request : ActivationRequest) :
    let steps := activate settings quiet context request
    let calls := steps.callsOf handle state
    let outcome := (steps.run handle state).1
    Contract settings request calls outcome ∧
      ((.unresolved, .building) ∉ outcome.transitions →
        ∀ call ∈ calls, call.request.Preserves settings) := by
  have hcontract : Contract settings request _ _ :=
    contract_of_trace (Procedure.trace_run handle (activate settings quiet context request) state)
  exact ⟨hcontract, fun hnone call hcall => (hcontract.watching hnone call hcall).preserves settings⟩

end Activation
end Enclave
