import Enclave.Proofs.Activation.Outcomes
import Enclave.Proofs.Activation.Surroundings

/-! # How activations end, and why

The transitions of an activation are a walk along the edges of a diagram (`Walk`), and the kind of
its error tells exactly what has gone wrong: an isolated environment has no location, it is missing
and may not be built, somebody else holds its lock, or a step of the build failed
(`Classified`, `classified_run`). -/

namespace Enclave.Activation

/-! ### The diagram -/

/-- The edges of the diagram. -/
def edges : List Transition :=
  [(.unresolved, .active), (.unresolved, .building), (.unresolved, .failed),
    (.building, .active), (.building, .failed)]

/-- Transitions that lead along edges from one state to another. -/
inductive Walk : ActivationState → List Transition → ActivationState → Prop
  | nil (state : ActivationState) : Walk state [] state
  | cons {first next last : ActivationState} {rest : List Transition} :
      (first, next) ∈ edges → Walk next rest last → Walk first ((first, next) :: rest) last

/-- Whether an activation failed with an error of a kind. -/
def Outcome.FailsAs (outcome : Outcome) (kind : String) : Prop :=
  ∃ e, outcome.result = .error e ∧ e.kind = kind

variable {outcome : Outcome} {earlier : List Transition} {e : ActivationError} {kind : String}
  {success : Success}

theorem failsAs_of_error (h : outcome.result = .error e) : outcome.FailsAs kind ↔ e.kind = kind := by
  simp [Outcome.FailsAs, h]

theorem not_failsAs_of_ok (h : outcome.result = .ok success) : ¬ outcome.FailsAs kind := by
  simp [Outcome.FailsAs, h]

theorem walk_of_mem_beginnings {last : ActivationState} (hearlier : earlier ∈ [[], built])
    (hlast : last = .active ∨ last = .failed) :
    Walk .unresolved (earlier ++ [(lastState earlier, last)]) last := by
  simp only [List.mem_cons, List.not_mem_nil, or_false] at hearlier
  rcases hearlier with rfl | rfl <;> rcases hlast with rfl | rfl
  · exact .cons (by decide) (.nil _)
  · exact .cons (by decide) (.nil _)
  · exact .cons (by decide) (.cons (by decide) (.nil _))
  · exact .cons (by decide) (.cons (by decide) (.nil _))

/-- How the transitions of an activation go with its result. -/
structure Outcome.Draws (outcome : Outcome) : Prop where
  walk : Walk .unresolved outcome.transitions outcome.state
  active : outcome.state = .active ↔ ∃ success, outcome.result = .ok success
  failed : outcome.state = .failed ↔ ∃ e, outcome.result = .error e

theorem Outcome.SucceedsWith.draws (h : outcome.SucceedsWith earlier success)
    (hearlier : earlier ∈ [[], built]) : outcome.Draws := by
  obtain ⟨hresult, htransitions⟩ := h
  have hstate : outcome.state = .active := by
    simp [Outcome.state, htransitions, lastState]
  refine ⟨?_, by simp [hstate, hresult], by simp [hstate, hresult]⟩
  rw [hstate, htransitions]
  exact walk_of_mem_beginnings hearlier (.inl rfl)

theorem Outcome.FailsWith.draws (h : outcome.FailsWith earlier e)
    (hearlier : earlier ∈ [[], built]) : outcome.Draws := by
  obtain ⟨hresult, htransitions⟩ := h
  have hstate : outcome.state = .failed := by
    simp [Outcome.state, htransitions, lastState]
  refine ⟨?_, by simp [hstate, hresult], by simp [hstate, hresult]⟩
  rw [hstate, htransitions]
  exact walk_of_mem_beginnings hearlier (.inr rfl)

/-! ### What has gone wrong -/

variable {settings : ActivatorSettings} {reporter : Reporter} {request : ActivationRequest}
  {calls front look rest back : List Call} {call : Call} {location : Path} {found : Detection}

/-- Whether an environment has no location: its name is refused, or the root is relative and there is
no current directory. -/
def Unlocated (settings : ActivatorSettings) (request : ActivationRequest) (calls : List Call) :
    Prop :=
  Name.check request.descriptor.name ≠ none ∨ settings.root.isAbsolute = false ∧
    ∃ cause, ⟨.workingDirectory, .error cause⟩ ∈ calls

/-- Whether an environment with a good name is not there and may not be built. -/
def Missing (request : ActivationRequest) (calls : List Call) : Prop :=
  Name.check request.descriptor.name = none ∧ request.policy = .never ∧
    ∃ location, ⟨.isPresent location, false⟩ ∈ calls

/-- What the transitions and the result of an activation tell about its calls. -/
structure Classified (settings : ActivatorSettings) (request : ActivationRequest)
    (calls : List Call) (outcome : Outcome) : Prop where
  draws : outcome.Draws
  /-- The state `building` is entered exactly if the decision was to build. -/
  building : (.unresolved, .building) ∈ outcome.transitions ↔ ToBuild settings request calls
  /-- The system can always be activated. -/
  system : request.descriptor.mode = .system → outcome.state = .active
  invalid : request.descriptor.mode = .isolated →
    (outcome.FailsAs "invalid_descriptor" ↔ Unlocated settings request calls)
  notFound : request.descriptor.mode = .isolated →
    (outcome.FailsAs "environment_not_found" ↔ Missing request calls)
  timeout : request.descriptor.mode = .isolated →
    (outcome.FailsAs "lock_timeout" ↔
      ToBuild settings request calls ∧ ∃ call ∈ calls, Contends call)
  provisioning : request.descriptor.mode = .isolated →
    (outcome.FailsAs "provisioning_failed" ↔
      ToBuild settings request calls ∧ ∃ call ∈ calls, Fails call)
  /-- Isolated environments have an absolute location, and the system has none. -/
  located : ∀ success, outcome.result = .ok success →
    (success.location.isSome ↔ request.descriptor.mode = .isolated) ∧
      ∀ location, success.location = some location → location.isAbsolute

/-! ### What is asked for after the decision -/

/-- Whether a request comes after the decision. -/
def Request.Follows (location : Path) (request : Request) : Prop :=
  request.isLocking ∨ (∃ lock, request = .releaseLock lock) ∨ request.WorksAt location

theorem Request.Follows.ne_workingDirectory {asked : Request} (h : asked.Follows location) :
    asked ≠ .workingDirectory := by
  rintro rfl
  rcases h with hlocking | ⟨lock, hrelease⟩ | hworks
  · cases hlocking
  · cases hrelease
  · exact hworks

theorem Reporting.follows (h : Reporting calls) : ∀ call ∈ calls, call.request.Follows location := by
  intro call hcall
  obtain ⟨event, rfl⟩ := h call hcall
  exact .inr (.inr trivial)

theorem BuildTask.Locked.follows {task : BuildTask} {result : Except ActivationError Bool}
    (h : task.Locked calls result) : ∀ call ∈ calls, call.request.Follows task.location := by
  intro call hcall
  cases h with
  | refused cause =>
      obtain rfl := List.mem_singleton.mp hcall
      exact .inl rfl
  | held lock hserves =>
      rcases List.mem_cons.mp hcall with rfl | hcall
      · exact .inl rfl
      · rcases List.mem_append.mp hcall with hcall | hcall
        · exact .inr (.inr (hserves.worksAt call hcall))
        · obtain rfl := List.mem_singleton.mp hcall
          exact .inr (.inl ⟨lock, rfl⟩)

theorem Decided.follows (h : Decided settings reporter request location found calls outcome) :
    ∀ call ∈ calls, call.request.Follows location := by
  have hbuilding : ∀ {destroyFirst entering work back result}, Reporting entering →
      (taskFor settings reporter request location found destroyFirst).run.Trace work result →
      Reporting back → ∀ call ∈ entering ++ work ++ back, call.request.Follows location := by
    intro destroyFirst entering work back result hentering hwork hback call hcall
    rcases List.mem_append.mp hcall with hcall | hcall
    · rcases List.mem_append.mp hcall with hcall | hcall
      · exact hentering.follows call hcall
      · exact (BuildTask.locked_run hwork).follows call hcall
    · exact hback.follows call hcall
  cases h with
  | notFound _ hreporting _ => exact hreporting.follows
  | reused _ _ hreporting _ => exact hreporting.follows
  | failed _ _ _ hentering hwork hback _ => exact hbuilding hentering hwork hback
  | built _ _ _ _ hentering hwork hback _ => exact hbuilding hentering hwork hback

/-- Where nothing may be built there are only reports. -/
theorem Decided.reporting_of_never
    (h : Decided settings reporter request location found calls outcome)
    (hnever : request.policy = .never) : Reporting calls := by
  have hbuild : ∀ destroyFirst, found.decision request.policy ≠ .build destroyFirst := by
    intro destroyFirst hbuild
    rw [Detection.decision, hnever] at hbuild
    rcases decide_eq_build hbuild with ⟨halways, _⟩ | ⟨hsmart, _⟩
    · cases halways
    · cases hsmart
  cases h with
  | notFound _ hreporting _ => exact hreporting
  | reused _ _ hreporting _ => exact hreporting
  | failed destroyFirst _ hdecision _ _ _ _ => exact absurd hdecision (hbuild destroyFirst)
  | built destroyFirst _ _ hdecision _ _ _ _ => exact absurd hdecision (hbuild destroyFirst)

/-! ### Found environments -/

theorem not_mem_reporting (h : Reporting calls) {call : Call}
    (hcall : ∀ event, call.request ≠ .report event) : call ∉ calls := by
  intro hmem
  obtain ⟨event, rfl⟩ := h call hmem
  exact hcall event rfl

theorem not_mem_findLocation_isPresent {root : Path} {name : String}
    {result : Except ActivationError Path} (h : (findLocation root name).Trace calls result)
    (answer : Bool) : ⟨.isPresent location, answer⟩ ∉ calls := by
  obtain ⟨working, _, ⟨_, hcalls⟩ | ⟨_, hcalls⟩⟩ := calls_findLocation h
  · simp [hcalls]
  · simp [hcalls]

/-- A detection asks for one environment, and not where it is. -/
theorem mem_detect {descriptor : Descriptor}
    (h : (detect settings reporter descriptor location).Trace calls found) :
    (∀ place answer, ⟨.isPresent place, answer⟩ ∈ calls ↔
      place = location ∧ answer = found.present) ∧
      ∀ answer, ⟨.workingDirectory, answer⟩ ∉ calls := by
  obtain ⟨requirements, notes, look, reports, hcalls, hnotes, hreports, _, hlook⟩ := calls_detect h
  have hread : ∀ call ∈ look, ∃ record, call = ⟨.readRecord location, record⟩ := by
    intro call hcall
    obtain ⟨_, rfl, _⟩ | ⟨_, record, rfl, _⟩ := hlook
    · cases hcall
    · exact ⟨record, List.mem_singleton.mp hcall⟩
  rw [hcalls]
  refine ⟨fun place answer => ⟨fun hmem => ?_, ?_⟩, fun answer hmem => ?_⟩
  · simp only [List.mem_cons, List.mem_append, Procedure.Call.mk.injEq, reduceCtorEq, false_and,
      false_or, Request.isPresent.injEq] at hmem
    rcases hmem with hmem | ⟨hplace, hanswer⟩ | hmem | hmem
    · exact absurd hmem (not_mem_reporting hnotes nofun)
    · exact ⟨hplace, by simpa using hanswer⟩
    · obtain ⟨record, hrecord⟩ := hread _ hmem
      cases hrecord
    · exact absurd hmem (not_mem_reporting hreports nofun)
  · rintro ⟨rfl, rfl⟩
    simp
  · simp only [List.mem_cons, List.mem_append, Procedure.Call.mk.injEq, reduceCtorEq, false_and,
      false_or] at hmem
    rcases hmem with hmem | hmem | hmem
    · exact absurd hmem (not_mem_reporting hnotes nofun)
    · obtain ⟨record, hrecord⟩ := hread _ hmem
      cases hrecord
    · exact absurd hmem (not_mem_reporting hreports nofun)

section

variable (hfront : (findLocation settings.root request.descriptor.name).Trace front (.ok location))
  (hlook : (detect settings reporter request.descriptor location).Trace look found)
  (hrest : Decided settings reporter request location found rest outcome)

include hfront hlook hrest

theorem not_unlocated_found : ¬ Unlocated settings request (front ++ look ++ rest) := by
  obtain ⟨working, hlocate, hasked⟩ := calls_findLocation hfront
  obtain ⟨hname, top, htop, _⟩ := locate_eq_ok_iff.mp hlocate.symm
  rintro (hrefused | ⟨hrelative, cause, hmem⟩)
  · exact hrefused hname
  · have hfailed : ⟨.workingDirectory, .error cause⟩ ∈ front := by
      rcases List.mem_append.mp hmem with hmem | hmem
      · exact (List.mem_append.mp hmem).resolve_right ((mem_detect hlook).2 _)
      · exact absurd rfl (hrest.follows _ hmem).ne_workingDirectory
    rcases hasked with ⟨_, hcalls⟩ | ⟨_, hcalls⟩
    · rw [hcalls] at hfailed
      cases hfailed
    · rw [hcalls] at hfailed
      obtain rfl : Except.error cause = working := by simpa using hfailed
      simp [absoluteRoot, hrelative] at htop

theorem missing_found_iff : Missing request (front ++ look ++ rest) ↔
    found.decision request.policy = .notFound := by
  rw [Detection.decision, decide_eq_notFound_iff]
  constructor
  · rintro ⟨_, hnever, place, hmem⟩
    refine ⟨hnever, ?_⟩
    rcases List.mem_append.mp hmem with hmem | hmem
    · rcases List.mem_append.mp hmem with hmem | hmem
      · exact absurd hmem (not_mem_findLocation_isPresent hfront _)
      · exact (((mem_detect hlook).1 place false).mp hmem).2.symm
    · exact absurd hmem (not_mem_reporting (hrest.reporting_of_never hnever) nofun)
  · rintro ⟨hnever, habsent⟩
    obtain ⟨working, hlocate, _⟩ := calls_findLocation hfront
    refine ⟨(locate_eq_ok_iff.mp hlocate.symm).1, hnever, location, ?_⟩
    refine List.mem_append_left _ (List.mem_append_right _ ?_)
    exact ((mem_detect hlook).1 location false).mpr ⟨rfl, habsent.symm⟩

omit hlook hrest in
theorem isAbsolute_found
    (habsolute : ∀ directory, ⟨.workingDirectory, .ok directory⟩ ∈ front → directory.isAbsolute) :
    location.isAbsolute := by
  obtain ⟨working, hlocate, hasked⟩ := calls_findLocation hfront
  rcases hasked with ⟨hneedless, _⟩ | ⟨_, hcalls⟩
  · have hlocate' : locate settings.root request.descriptor.name (.error .notFound) = .ok location :=
      (locate_congr hneedless).trans hlocate.symm
    exact isAbsolute_locate hlocate' nofun
  · refine isAbsolute_locate hlocate.symm fun directory hworking => habsolute directory ?_
    rw [hcalls, hworking]
    exact List.mem_singleton.mpr rfl

end

/-! ### Classification -/

theorem mem_building_iff {last : ActivationState} (hearlier : earlier ∈ [[], built]) :
    (.unresolved, .building) ∈ earlier ++ [(lastState earlier, last)] ↔
      earlier = built ∨ last = .building := by
  simp only [List.mem_cons, List.not_mem_nil, or_false] at hearlier
  rcases hearlier with rfl | rfl <;> simp [built, lastState, eq_comm]

theorem Classified.of_fails (hmode : request.descriptor.mode = .isolated)
    (hfails : outcome.FailsWith earlier e) (hearlier : earlier ∈ [[], built])
    (hbuild : earlier = built ↔ ToBuild settings request calls)
    (hinvalid : e.kind = "invalid_descriptor" ↔ Unlocated settings request calls)
    (hnotFound : e.kind = "environment_not_found" ↔ Missing request calls)
    (htimeout : e.kind = "lock_timeout" ↔
      ToBuild settings request calls ∧ ∃ call ∈ calls, Contends call)
    (hprovisioning : e.kind = "provisioning_failed" ↔
      ToBuild settings request calls ∧ ∃ call ∈ calls, Fails call) :
    Classified settings request calls outcome where
  draws := hfails.draws hearlier
  building := by
    rw [← hbuild, hfails.2, mem_building_iff hearlier]
    simp
  system hsystem := by simp [hmode] at hsystem
  invalid _ := (failsAs_of_error hfails.1).trans hinvalid
  notFound _ := (failsAs_of_error hfails.1).trans hnotFound
  timeout _ := (failsAs_of_error hfails.1).trans htimeout
  provisioning _ := (failsAs_of_error hfails.1).trans hprovisioning
  located success hok := by simp [hfails.1] at hok

theorem Classified.of_succeeds (hmode : request.descriptor.mode = .isolated)
    (hsucceeds : outcome.SucceedsWith earlier success) (hearlier : earlier ∈ [[], built])
    (hbuild : earlier = built ↔ ToBuild settings request calls)
    (hlocation : success.location = some location) (habsolute : location.isAbsolute)
    (hunlocated : ¬ Unlocated settings request calls) (hmissing : ¬ Missing request calls)
    (hcontends : ToBuild settings request calls → ¬ ∃ call ∈ calls, Contends call)
    (hfails : ToBuild settings request calls → ¬ ∃ call ∈ calls, Fails call) :
    Classified settings request calls outcome where
  draws := hsucceeds.draws hearlier
  building := by
    rw [← hbuild, hsucceeds.2, mem_building_iff hearlier]
    simp
  system hsystem := by simp [hmode] at hsystem
  invalid _ := iff_of_false (not_failsAs_of_ok hsucceeds.1) hunlocated
  notFound _ := iff_of_false (not_failsAs_of_ok hsucceeds.1) hmissing
  timeout _ := iff_of_false (not_failsAs_of_ok hsucceeds.1) (not_and.mpr hcontends)
  provisioning _ := iff_of_false (not_failsAs_of_ok hsucceeds.1) (not_and.mpr hfails)
  located other hok := by
    obtain rfl := Except.ok.inj (hsucceeds.1.symm.trans hok)
    simp [hmode, hlocation, habsolute]

theorem Classified.of_system (hmode : request.descriptor.mode = .system) (h : Reporting calls)
    (hsucceeds : outcome.SucceedsWith [] ⟨none, none, false, {}⟩) :
    Classified settings request calls outcome where
  draws := hsucceeds.draws (by simp)
  building := iff_of_false (by simp [hsucceeds.2, lastState])
    (not_toBuild_of_detections h.detections)
  system _ := (hsucceeds.draws (by simp)).active.mpr ⟨_, hsucceeds.1⟩
  invalid hisolated := by simp [hmode] at hisolated
  notFound hisolated := by simp [hmode] at hisolated
  timeout hisolated := by simp [hmode] at hisolated
  provisioning hisolated := by simp [hmode] at hisolated
  located success hok := by
    obtain rfl := Except.ok.inj (hsucceeds.1.symm.trans hok)
    simp [hmode]

theorem Classified.of_lost (hmode : request.descriptor.mode = .isolated)
    (hfront : (findLocation settings.root request.descriptor.name).Trace front (.error e))
    (hback : Reporting back) (hfails : outcome.FailsWith [] e) :
    Classified settings request (front ++ back) outcome := by
  obtain ⟨working, hlocate, hasked⟩ := calls_findLocation hfront
  obtain ⟨⟨reason, rfl⟩, hwhy⟩ := of_locate_eq_error hlocate.symm
  have hunlocated : Unlocated settings request (front ++ back) := by
    rcases hwhy with hrefused | ⟨hrelative, cause, rfl⟩
    · exact .inl hrefused
    · by_cases hname : Name.check request.descriptor.name = none
      · rcases hasked with ⟨hneedless, _⟩ | ⟨_, hcalls⟩
        · simp [hname, hrelative] at hneedless
        · exact .inr ⟨hrelative, cause, by simp [hcalls]⟩
      · exact .inl hname
  have hmissing : ¬ Missing request (front ++ back) := by
    rintro ⟨_, _, place, hmem⟩
    rcases List.mem_append.mp hmem with hmem | hmem
    · exact not_mem_findLocation_isPresent hfront _ hmem
    · exact absurd hmem (not_mem_reporting hback nofun)
  have hbuild : ¬ ToBuild settings request (front ++ back) := not_toBuild_lost hfront hback
  exact .of_fails hmode hfails (by simp) (iff_of_false (by simp [built]) hbuild)
    (iff_of_true rfl hunlocated)
    (iff_of_false (by simp [ActivationError.kind]) hmissing)
    (iff_of_false (by simp [ActivationError.kind]) fun h => hbuild h.1)
    (iff_of_false (by simp [ActivationError.kind]) fun h => hbuild h.1)

/-- What holds for no request that looks holds for a call of a build if it does under its lock. -/
theorem exists_mem_iff_of_looks {P : Call → Prop} (hP : ∀ call, call.request.Looks → ¬ P call)
    {entering work : List Call} (hfront : Watching front) (hentering : Reporting entering)
    (hback : Reporting back) :
    (∃ call ∈ front ++ (entering ++ work ++ back), P call) ↔ ∃ call ∈ work, P call := by
  constructor
  · rintro ⟨call, hcall, hholds⟩
    refine ⟨call, ?_, hholds⟩
    simp only [List.mem_append] at hcall
    rcases hcall with hcall | (hcall | hcall) | hcall
    · exact absurd hholds (hP call (hfront call hcall))
    · exact absurd hholds (hP call (hentering.watching call hcall))
    · exact hcall
    · exact absurd hholds (hP call (hback.watching call hcall))
  · rintro ⟨call, hcall, hholds⟩
    exact ⟨call, by simp [hcall], hholds⟩

/-- What the calls of a build tell about its result. -/
theorem result_of_calls {task : BuildTask} {entering work : List Call}
    {result : Except ActivationError Bool} (hfront : Watching front)
    (hentering : Reporting entering) (hwork : task.run.Trace work result) (hback : Reporting back)
    (hbusy : ∀ call ∈ front ++ (entering ++ work ++ back), Busy call ↔ Contends call) :
    ((∃ call ∈ front ++ (entering ++ work ++ back), Contends call) ↔
      ∃ path waited, result = .error (.lockTimeout task.name path waited)) ∧
    ((∃ call ∈ front ++ (entering ++ work ++ back), Fails call) ↔
      ∃ reason, result = .error (task.failure reason)) := by
  have hlocked := BuildTask.locked_run hwork
  rw [← hlocked.busy_iff, ← hlocked.fails_iff]
  refine ⟨?_, exists_mem_iff_of_looks (fun _ => Request.Looks.not_fails) hfront hentering hback⟩
  rw [← exists_mem_iff_of_looks (fun _ => Request.Looks.not_busy) hfront hentering hback]
  exact exists_congr fun call => and_congr_right fun hcall => (hbusy call hcall).symm

theorem Classified.of_found (hmode : request.descriptor.mode = .isolated)
    (hfront : (findLocation settings.root request.descriptor.name).Trace front (.ok location))
    (hlook : (detect settings reporter request.descriptor location).Trace look found)
    (hrest : Decided settings reporter request location found rest outcome)
    (hbusy : ∀ call ∈ front ++ look ++ rest, Busy call ↔ Contends call)
    (habsolute : ∀ directory, ⟨.workingDirectory, .ok directory⟩ ∈ front ++ look ++ rest →
      directory.isAbsolute) : Classified settings request (front ++ look ++ rest) outcome := by
  have hunlocated := not_unlocated_found hfront hlook hrest
  have hmissing := missing_found_iff hfront hlook hrest
  have hbuild := toBuild_found_iff hfront hlook hrest
  have hlocation : location.isAbsolute :=
    isAbsolute_found hfront fun directory hmem => habsolute directory (by simp [hmem])
  have hwatching : Watching (front ++ look) :=
    (trace_findLocation hfront).1.append (trace_detect hlook).1
  cases hrest with
  | notFound hdecision _ hfails =>
      have hno : ¬ ToBuild settings request (front ++ look ++ rest) := by
        rw [hbuild, hdecision]
        simp
      exact .of_fails hmode hfails (by simp) (iff_of_false (by simp [built]) hno)
        (iff_of_false (by simp [ActivationError.kind]) hunlocated)
        (iff_of_true rfl (hmissing.mpr hdecision))
        (iff_of_false (by simp [ActivationError.kind]) fun h => hno h.1)
        (iff_of_false (by simp [ActivationError.kind]) fun h => hno h.1)
  | reused journal hdecision _ hsucceeds =>
      have hno : ¬ ToBuild settings request (front ++ look ++ rest) := by
        rw [hbuild, hdecision]
        simp
      rw [hdecision] at hmissing
      exact .of_succeeds hmode hsucceeds (by simp) (iff_of_false (by simp [built]) hno) rfl
        hlocation hunlocated (mt hmissing.mp (by simp)) (absurd · hno) (absurd · hno)
  | failed destroyFirst e hdecision hentering hwork hback hfails =>
      have hyes := hbuild.mpr ⟨destroyFirst, hdecision⟩
      obtain ⟨hcontends, hsteps⟩ := result_of_calls hwatching hentering hwork hback hbusy
      rw [hdecision] at hmissing
      rcases (BuildTask.locked_run hwork).error_cases rfl with ⟨path, waited, rfl⟩ | ⟨reason, rfl⟩
      · have hsound : ¬ ∃ call ∈ _, Fails call := hsteps.not.mpr (by simp [BuildTask.failure])
        exact .of_fails hmode hfails (by simp) (iff_of_true rfl hyes)
          (iff_of_false (by simp [ActivationError.kind]) hunlocated)
          (iff_of_false (by simp [ActivationError.kind]) (mt hmissing.mp (by simp)))
          (iff_of_true rfl ⟨hyes, hcontends.mpr ⟨path, waited, rfl⟩⟩)
          (iff_of_false (by simp [ActivationError.kind]) fun h => hsound h.2)
      · have hfree : ¬ ∃ call ∈ _, Contends call :=
          hcontends.not.mpr (by simp [BuildTask.failure])
        exact .of_fails hmode hfails (by simp) (iff_of_true rfl hyes)
          (iff_of_false (by simp [ActivationError.kind, BuildTask.failure]) hunlocated)
          (iff_of_false (by simp [ActivationError.kind, BuildTask.failure])
            (mt hmissing.mp (by simp)))
          (iff_of_false (by simp [ActivationError.kind, BuildTask.failure]) fun h => hfree h.2)
          (iff_of_true rfl ⟨hyes, hsteps.mpr ⟨reason, rfl⟩⟩)
  | built destroyFirst rebuilt journal hdecision hentering hwork hback hsucceeds =>
      have hyes := hbuild.mpr ⟨destroyFirst, hdecision⟩
      obtain ⟨hcontends, hsteps⟩ := result_of_calls hwatching hentering hwork hback hbusy
      rw [hdecision] at hmissing
      exact .of_succeeds hmode hsucceeds (by simp) (iff_of_true rfl hyes) rfl hlocation hunlocated
        (mt hmissing.mp (by simp)) (fun _ => hcontends.not.mpr (by simp))
        fun _ => hsteps.not.mpr (by simp)

theorem classified_of_trace {quiet : Bool} {context : ResolutionContext}
    (h : (activate settings quiet context request).Trace calls outcome)
    (hbusy : ∀ call ∈ calls, Busy call ↔ Contends call)
    (habsolute : ∀ directory, ⟨.workingDirectory, .ok directory⟩ ∈ calls →
      directory.isAbsolute) : Classified settings request calls outcome := by
  cases way_of_trace h with
  | system hmode hreporting hsucceeds => exact .of_system hmode hreporting hsucceeds
  | lost e hmode hfront hback hfails => exact .of_lost hmode hfront hback hfails
  | found location found hmode hfront hlook hrest =>
      exact .of_found hmode hfront hlook hrest hbusy habsolute

/-- **What activations tell about what has happened.**  In all surroundings, the transitions follow
the diagram and end in the state that goes with the result, and the kind of an error tells exactly
what has gone wrong. -/
theorem classified_run {σ : Type} (around : Surroundings σ) (state : σ)
    (settings : ActivatorSettings) (quiet : Bool) (context : ResolutionContext)
    (request : ActivationRequest) :
    let steps := activate settings quiet context request
    Classified settings request (steps.callsOf around.handle state)
      (steps.run around.handle state).1 :=
  classified_of_trace (Procedure.trace_run around.handle _ state)
    (fun _ hcall => around.busy_iff hcall) fun _ hcall => around.isAbsolute_of_mem hcall

end Enclave.Activation

namespace Enclave.Activator

/-- The verdicts of an activator in the world, by the requests that were made there. -/
theorem classified_outcomeOf {Memory : Type} (activator : Activator)
    (provisioner : Provisioner Memory) (now : Instant) (context : ResolutionContext)
    (request : ActivationRequest) (state : World × Memory) :
    Activation.Classified activator.settings request
      ((Activation.activate activator.settings (isQuiet state.1) context request).callsOf
        (handle activator.settings provisioner now) state)
      (activator.outcomeOf provisioner now context request state) :=
  let around := surroundings activator.settings provisioner now
  Activation.classified_of_trace (Procedure.trace_run around.handle _ state)
    (fun _ hcall => around.busy_iff hcall) fun _ hcall => around.isAbsolute_of_mem hcall

end Enclave.Activator
