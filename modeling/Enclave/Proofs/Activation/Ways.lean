import Enclave.Proofs.Activation.Locations
import Enclave.Proofs.Activation.Traces

/-! # The ways of an activation

Whatever is answered, an activation goes one of few ways (`Way`, `way_of_trace`), and each of them is
taken apart here once: what was asked for up to the decision, what the decision was (`Decided`), and
what was done under the lock if it was to build (`BuildTask.Locked`).  A build that
holds its lock works at the location of its environment only, and it fails exactly if one of its
calls does (`BuildTask.Serves`). -/

namespace Enclave.Activation

open Procedure (trace_pure_iff trace_bind_iff trace_request_bind_iff)

/-! ### Requests that change something -/

/-- The environment that a request may change. -/
def Request.changed? : Request → Option Path
  | .removeRecord location => some location
  | .destroy location => some location
  | .ensure location _ _ => some location
  | .writeDraft location _ => some location
  | .moveDraft location => some location
  | _ => none

/-- Whether a request is one of the work at a location. -/
def Request.WorksAt (location : Path) : Request → Prop
  | .isPresent other => other = location
  | .readRecord other => other = location
  | .removeRecord other => other = location
  | .destroy other => other = location
  | .ensure other _ _ => other = location
  | .writeDraft other _ => other = location
  | .moveDraft other => other = location
  | .now => True
  | .report _ => True
  | _ => False

/-- Whether a step of a build failed: opening its lock, removing a record, removing an environment
or building one, or storing a record. -/
def Fails : Call → Prop
  | ⟨.acquireLock _ _ _, .error (.io _ _)⟩ => True
  | ⟨.removeRecord _, .error _⟩ => True
  | ⟨.destroy _, .error _⟩ => True
  | ⟨.ensure _ _ _, .error _⟩ => True
  | ⟨.writeDraft _ _, .error _⟩ => True
  | ⟨.moveDraft _, .error _⟩ => True
  | _ => False

/-- Whether a lock was asked for and stayed with somebody else. -/
def Busy : Call → Prop
  | ⟨.acquireLock _ _ _, .error (.busy _ _)⟩ => True
  | _ => False

variable {calls front back : List Call} {call : Call} {location : Path} {outcome : Outcome}

theorem Request.Looks.changed?_eq_none {request : Request} (h : request.Looks) :
    request.changed? = none := by
  cases request <;> first | rfl | exact h.elim

theorem Request.Looks.not_fails (h : call.request.Looks) : ¬ Fails call := by
  obtain ⟨request, answer⟩ := call
  cases request <;> first | exact h.elim | exact id

theorem Request.Looks.not_busy (h : call.request.Looks) : ¬ Busy call := by
  obtain ⟨request, answer⟩ := call
  cases request <;> first | exact h.elim | exact id

theorem Request.WorksAt.not_busy (h : call.request.WorksAt location) : ¬ Busy call := by
  obtain ⟨request, answer⟩ := call
  cases request <;> first | exact h.elim | exact id

theorem Request.WorksAt.eq_of_changed? {request : Request} {other : Path}
    (h : request.WorksAt location) (hchanged : request.changed? = some other) :
    other = location := by
  cases request <;> first | exact (Option.some.inj hchanged).symm.trans h | cases hchanged

/-! ### Under the lock -/

namespace BuildTask

variable {task : BuildTask}

/-- What the calls of a part of a build come to: they work at the environment, and the part fails
exactly if one of them does. -/
structure Serves {α : Type} (task : BuildTask) (calls : List Call)
    (result : Except ActivationError α) : Prop where
  worksAt : ∀ call ∈ calls, call.request.WorksAt task.location
  done : ∀ value, result = .ok value → ∀ call ∈ calls, ¬ Fails call
  failed : ∀ e, result = .error e → (∃ reason, e = task.failure reason) ∧ ∃ call ∈ calls, Fails call

section

variable {α β : Type} {value : α} {result : Except ActivationError β} {e : ActivationError}

theorem Serves.of_ok (h : ∀ call ∈ calls, call.request.WorksAt task.location ∧ ¬ Fails call) :
    task.Serves calls (.ok value) :=
  ⟨fun call hcall => (h call hcall).1, fun _ _ call hcall => (h call hcall).2, nofun⟩

theorem Serves.nil : task.Serves [] (.ok value) :=
  .of_ok fun _ hcall => absurd hcall List.not_mem_nil

/-- A call that fails. -/
theorem Serves.of_fails {reason : String} (hworks : call.request.WorksAt task.location)
    (hfails : Fails call) : task.Serves [call] (.error (task.failure reason) : Except _ β) where
  worksAt _ hcall := List.mem_singleton.mp hcall ▸ hworks
  done := nofun
  failed _ he :=
    ⟨⟨reason, (Except.error.inj he).symm⟩, call, List.mem_singleton.mpr rfl, hfails⟩

/-- One part after another. -/
theorem Serves.append (hfront : task.Serves front (.ok value)) (hback : task.Serves back result) :
    task.Serves (front ++ back) result where
  worksAt call hcall := (List.mem_append.mp hcall).elim (hfront.worksAt call) (hback.worksAt call)
  done value' hvalue call hcall := (List.mem_append.mp hcall).elim (hfront.done value rfl call)
    (hback.done value' hvalue call)
  failed e he := by
    obtain ⟨hreason, call, hcall, hfails⟩ := hback.failed e he
    exact ⟨hreason, call, List.mem_append_right _ hcall, hfails⟩

/-- A call that does not fail, and what comes after it. -/
theorem Serves.cons (hworks : call.request.WorksAt task.location) (hok : ¬ Fails call)
    (h : task.Serves calls result) : task.Serves (call :: calls) result := by
  have hcall : task.Serves [call] (.ok ()) :=
    .of_ok fun other hother => List.mem_singleton.mp hother ▸ ⟨hworks, hok⟩
  exact hcall.append h

/-- Reports, and what comes after them. -/
theorem Serves.after (hfront : Reporting front) (hback : task.Serves back result) :
    task.Serves (front ++ back) result := by
  have hreports : task.Serves front (.ok ()) := by
    refine .of_ok fun call hcall => ?_
    obtain ⟨event, rfl⟩ := hfront call hcall
    exact ⟨trivial, id⟩
  exact hreports.append hback

/-- A part that fails ends what it is a part of. -/
theorem Serves.error (h : task.Serves calls (.error e : Except _ α)) :
    task.Serves calls (.error e : Except _ β) :=
  ⟨h.worksAt, nofun, fun e' he' => h.failed e' (congrArg _ (Except.error.inj he'))⟩

end

theorem serves_alreadyBuilt {found : Bool} (h : task.alreadyBuilt.Trace calls found) :
    task.Serves calls (.ok found) := by
  rw [alreadyBuilt] at h
  split at h
  · obtain ⟨present, rest, rfl, hrest⟩ := trace_request_bind_iff.mp h
    refine .cons rfl id ?_
    cases present with
    | false =>
        obtain ⟨rfl, rfl⟩ := trace_pure_iff.mp hrest
        exact .nil
    | true =>
        obtain ⟨recorded, last, rfl, hlast⟩ := trace_request_bind_iff.mp hrest
        obtain ⟨rfl, rfl⟩ := trace_pure_iff.mp hlast
        exact .cons rfl id .nil
  · obtain ⟨rfl, rfl⟩ := trace_pure_iff.mp h
    exact .nil

theorem serves_clear {result : Except ActivationError Unit} (h : task.clear.Trace calls result) :
    task.Serves calls result := by
  rw [clear] at h
  split at h
  · obtain ⟨notes, _, back, rfl, hnotes, hback⟩ := trace_bind_iff.mp h
    refine .after (reporting_reportAll hnotes) ?_
    obtain ⟨answer, rest, rfl, hrest⟩ := trace_request_bind_iff.mp hback
    cases answer with
    | ok done =>
        obtain ⟨rfl, rfl⟩ := trace_pure_iff.mp hrest
        exact .cons rfl id .nil
    | error cause =>
        obtain ⟨rfl, rfl⟩ := trace_pure_iff.mp hrest
        exact .of_fails rfl trivial
  · obtain ⟨rfl, rfl⟩ := trace_pure_iff.mp h
    exact .nil

theorem serves_provision {result : Except ActivationError Unit}
    (h : task.provision.Trace calls result) : task.Serves calls result := by
  rw [provision] at h
  obtain ⟨notes, _, back, rfl, hnotes, hback⟩ := trace_bind_iff.mp h
  refine .after (reporting_reportAll hnotes) ?_
  obtain ⟨answer, rest, rfl, hrest⟩ := trace_request_bind_iff.mp hback
  cases answer with
  | ok done =>
      obtain ⟨rfl, rfl⟩ := trace_pure_iff.mp hrest
      exact .cons rfl id .nil
  | error cause =>
      obtain ⟨rfl, rfl⟩ := trace_pure_iff.mp hrest
      exact .of_fails rfl trivial

theorem serves_record {result : Except ActivationError Unit} (h : task.record.Trace calls result) :
    task.Serves calls result := by
  rw [record] at h
  obtain ⟨now, afterNow, rfl, hnow⟩ := trace_request_bind_iff.mp h
  obtain ⟨written, afterDraft, rfl, hdraft⟩ := trace_request_bind_iff.mp hnow
  refine .cons trivial id ?_
  cases written with
  | error failure =>
      obtain ⟨rfl, rfl⟩ := trace_pure_iff.mp hdraft
      exact .of_fails rfl trivial
  | ok done =>
      obtain ⟨moved, afterMove, rfl, hmove⟩ := trace_request_bind_iff.mp hdraft
      refine .cons rfl id ?_
      cases moved with
      | error failure =>
          obtain ⟨rfl, rfl⟩ := trace_pure_iff.mp hmove
          exact .of_fails rfl trivial
      | ok done =>
          obtain ⟨rfl, rfl⟩ := trace_pure_iff.mp hmove
          exact .cons rfl id .nil

theorem serves_rebuild {result : Except ActivationError Unit}
    (h : task.rebuild.Trace calls result) : task.Serves calls result := by
  rw [rebuild] at h
  obtain ⟨removed, rest, rfl, hrest⟩ := trace_request_bind_iff.mp h
  cases removed with
  | error failure =>
      obtain ⟨rfl, rfl⟩ := trace_pure_iff.mp hrest
      exact .of_fails rfl trivial
  | ok done =>
      refine .cons rfl id ?_
      obtain ⟨front, cleared, back, rfl, hfront, hback⟩ := trace_bind_iff.mp hrest
      have hclear := serves_clear hfront
      cases cleared with
      | error e =>
          obtain ⟨rfl, rfl⟩ := trace_pure_iff.mp hback
          rw [List.append_nil]
          exact hclear
      | ok done =>
          refine hclear.append ?_
          obtain ⟨middle, provisioned, last, rfl, hmiddle, hlast⟩ := trace_bind_iff.mp hback
          have hprovision := serves_provision hmiddle
          cases provisioned with
          | error e =>
              obtain ⟨rfl, rfl⟩ := trace_pure_iff.mp hlast
              rw [List.append_nil]
              exact hprovision
          | ok done => exact hprovision.append (serves_record hlast)

theorem serves_underLock {result : Except ActivationError Bool}
    (h : task.underLock.Trace calls result) : task.Serves calls result := by
  rw [underLock] at h
  obtain ⟨front, found, back, rfl, hfront, hback⟩ := trace_bind_iff.mp h
  refine (serves_alreadyBuilt hfront).append ?_
  cases found with
  | true =>
      obtain ⟨notes, _, last, rfl, hnotes, hlast⟩ := trace_bind_iff.mp hback
      obtain ⟨rfl, rfl⟩ := trace_pure_iff.mp hlast
      exact .after (reporting_reportAll hnotes) .nil
  | false =>
      obtain ⟨work, rebuilt, last, rfl, hwork, hlast⟩ := trace_bind_iff.mp hback
      have hrebuild := serves_rebuild hwork
      cases rebuilt with
      | error e =>
          obtain ⟨rfl, rfl⟩ := trace_pure_iff.mp hlast
          rw [List.append_nil]
          exact hrebuild.error
      | ok done =>
          obtain ⟨rfl, rfl⟩ := trace_pure_iff.mp hlast
          exact hrebuild.append .nil

/-- The call that asks for the lock of a build. -/
def locking (task : BuildTask) (answer : Except LockError BuildLock) : Call :=
  ⟨.acquireLock (Layout.lockFile task.location) task.settings.lockMode task.settings.lockTimeout,
    answer⟩

/-- How a build can go: it is refused its lock, or it works under the lock and gives it back. -/
inductive Locked (task : BuildTask) : List Call → Except ActivationError Bool → Prop
  | refused (cause : LockError) :
      Locked task [task.locking (.error cause)] (.error (task.lockFailure cause))
  | held (lock : BuildLock) {work : List Call} {result : Except ActivationError Bool} :
      task.Serves work result →
        Locked task (task.locking (.ok lock) :: (work ++ [⟨.releaseLock lock, ()⟩])) result

theorem locked_run {result : Except ActivationError Bool} (h : task.run.Trace calls result) :
    task.Locked calls result := by
  rw [run] at h
  obtain ⟨answer, rest, hcalls, hrest⟩ := trace_request_bind_iff.mp h
  rw [hcalls]
  cases answer with
  | error cause =>
      obtain ⟨rfl, rfl⟩ := trace_pure_iff.mp hrest
      exact .refused cause
  | ok lock =>
      obtain ⟨work, inner, back, rfl, hwork, hback⟩ := trace_bind_iff.mp hrest
      obtain ⟨_, last, rfl, hlast⟩ := trace_request_bind_iff.mp hback
      obtain ⟨rfl, rfl⟩ := trace_pure_iff.mp hlast
      exact .held lock (serves_underLock hwork)

section

variable {result : Except ActivationError Bool} (h : task.Locked calls result)

include h

/-- A build times out exactly if its lock stays with somebody else. -/
theorem Locked.busy_iff : (∃ call ∈ calls, Busy call) ↔
    ∃ path waited, result = .error (.lockTimeout task.name path waited) := by
  cases h with
  | refused cause => cases cause <;> simp [Busy, locking, lockFailure, failure]
  | held lock hserves =>
      refine ⟨?_, ?_⟩
      · rintro ⟨call, hcall, hbusy⟩
        rcases List.mem_cons.mp hcall with rfl | hcall
        · exact hbusy.elim
        · rcases List.mem_append.mp hcall with hcall | hcall
          · exact absurd hbusy (hserves.worksAt call hcall).not_busy
          · rw [List.mem_singleton.mp hcall] at hbusy
            exact hbusy.elim
      · rintro ⟨path, waited, hresult⟩
        obtain ⟨⟨reason, hreason⟩, _⟩ := hserves.failed _ hresult
        cases hreason

/-- A build fails otherwise exactly if one of its calls does. -/
theorem Locked.fails_iff : (∃ call ∈ calls, Fails call) ↔
    ∃ reason, result = .error (task.failure reason) := by
  cases h with
  | refused cause => cases cause <;> simp [Fails, locking, lockFailure, failure]
  | held lock hserves =>
      refine ⟨?_, ?_⟩
      · rintro ⟨call, hcall, hfails⟩
        rcases List.mem_cons.mp hcall with rfl | hcall
        · exact hfails.elim
        · rcases List.mem_append.mp hcall with hcall | hcall
          · cases result with
            | ok rebuilt => exact absurd hfails (hserves.done rebuilt rfl call hcall)
            | error e =>
                obtain ⟨⟨reason, rfl⟩, _⟩ := hserves.failed e rfl
                exact ⟨reason, rfl⟩
          · rw [List.mem_singleton.mp hcall] at hfails
            exact hfails.elim
      · rintro ⟨reason, hresult⟩
        obtain ⟨_, call, hcall, hfails⟩ := hserves.failed _ hresult
        exact ⟨call, List.mem_cons_of_mem _ (List.mem_append_left _ hcall), hfails⟩

/-- A build has no other errors. -/
theorem Locked.error_cases {e : ActivationError} (hresult : result = .error e) :
    (∃ path waited, e = .lockTimeout task.name path waited) ∨ ∃ reason, e = task.failure reason := by
  cases h with
  | refused cause =>
      obtain rfl := Except.error.inj hresult
      cases cause with
      | busy path waited => exact .inl ⟨path, waited, rfl⟩
      | io path cause => exact .inr ⟨_, rfl⟩
  | held lock hserves => exact .inr (hserves.failed e hresult).1

end

end BuildTask

/-! ### Ways -/

/-- Whether an outcome is a success that came after some transitions. -/
def Outcome.SucceedsWith (outcome : Outcome) (earlier : List Transition) (success : Success) :
    Prop :=
  outcome.result = .ok success ∧ outcome.transitions = earlier ++ [(lastState earlier, .active)]

/-- Whether an outcome is a failure that came after some transitions. -/
def Outcome.FailsWith (outcome : Outcome) (earlier : List Transition) (e : ActivationError) :
    Prop :=
  outcome.result = .error e ∧ outcome.transitions = earlier ++ [(lastState earlier, .failed)]

variable {settings : ActivatorSettings} {reporter : Reporter} {context : ResolutionContext}
  {request : ActivationRequest} {found : Detection}

/-- The decision about an environment. -/
def Detection.decision (found : Detection) (policy : RefreshPolicy) : Decision :=
  decide policy found.present found.recorded found.plan.fingerprint

/-- What is built if it has to be. -/
def taskFor (settings : ActivatorSettings) (reporter : Reporter) (request : ActivationRequest)
    (location : Path) (found : Detection) (destroyFirst : Bool) : BuildTask :=
  ⟨settings, reporter, request.descriptor.name, request.policy, location, found.plan, destroyFirst⟩

/-- The transitions of a build before its end. -/
def built : List Transition := [(.unresolved, .building)]

/-- How an activation goes on after its decision. -/
inductive Decided (settings : ActivatorSettings) (reporter : Reporter) (request : ActivationRequest)
    (location : Path) (found : Detection) : List Call → Outcome → Prop
  | notFound {calls : List Call} {outcome : Outcome} :
      found.decision request.policy = .notFound → Reporting calls →
      outcome.FailsWith [] (.environmentNotFound request.descriptor.name location) →
      Decided settings reporter request location found calls outcome
  | reused {calls : List Call} {outcome : Outcome} (journal : Journal) :
      found.decision request.policy = .reuse → Reporting calls →
      outcome.SucceedsWith [] ⟨some location, some found.plan.fingerprint, false, journal⟩ →
      Decided settings reporter request location found calls outcome
  | failed {entering work back : List Call} {outcome : Outcome} (destroyFirst : Bool)
      (e : ActivationError) :
      found.decision request.policy = .build destroyFirst → Reporting entering →
      (taskFor settings reporter request location found destroyFirst).run.Trace work (.error e) →
      Reporting back → outcome.FailsWith built e →
      Decided settings reporter request location found (entering ++ work ++ back) outcome
  | built {entering work back : List Call} {outcome : Outcome} (destroyFirst rebuilt : Bool)
      (journal : Journal) :
      found.decision request.policy = .build destroyFirst → Reporting entering →
      (taskFor settings reporter request location found destroyFirst).run.Trace work
        (.ok rebuilt) → Reporting back →
      outcome.SucceedsWith built
        ⟨some location, some found.plan.fingerprint, rebuilt, journal⟩ →
      Decided settings reporter request location found (entering ++ work ++ back) outcome

/-- The ways of an activation. -/
inductive Way (settings : ActivatorSettings) (reporter : Reporter) (request : ActivationRequest) :
    List Call → Outcome → Prop
  | system {calls : List Call} {outcome : Outcome} : request.descriptor.mode = .system →
      Reporting calls → outcome.SucceedsWith [] ⟨none, none, false, {}⟩ →
      Way settings reporter request calls outcome
  | lost {front back : List Call} {outcome : Outcome} (e : ActivationError) :
      request.descriptor.mode = .isolated →
      (findLocation settings.root request.descriptor.name).Trace front (.error e) →
      Reporting back → outcome.FailsWith [] e →
      Way settings reporter request (front ++ back) outcome
  | found {front look rest : List Call} {outcome : Outcome} (location : Path) (found : Detection) :
      request.descriptor.mode = .isolated →
      (findLocation settings.root request.descriptor.name).Trace front (.ok location) →
      (detect settings reporter request.descriptor location).Trace look found →
      Decided settings reporter request location found rest outcome →
      Way settings reporter request (front ++ look ++ rest) outcome

theorem trace_succeedsWith {transitions : List Transition} {fingerprint : Fingerprint}
    {rebuilt : Bool}
    (h : (succeed reporter context transitions location fingerprint rebuilt).Trace calls outcome) :
    Reporting calls ∧ ∃ journal,
      outcome.SucceedsWith transitions ⟨some location, some fingerprint, rebuilt, journal⟩ := by
  obtain ⟨hreporting, ⟨journal, hresult⟩, htransitions⟩ := trace_succeed h
  exact ⟨hreporting, journal, hresult, htransitions⟩

/-- What comes after a detection. -/
theorem decided_of_trace
    (h : (activateAt settings reporter context request location).Trace calls outcome) :
    ∃ look rest found, calls = look ++ rest ∧
      (detect settings reporter request.descriptor location).Trace look found ∧
      Decided settings reporter request location found rest outcome := by
  rw [activateAt] at h
  obtain ⟨look, found, rest, rfl, hlook, hrest⟩ := trace_bind_iff.mp h
  refine ⟨look, rest, found, rfl, hlook, ?_⟩
  split at hrest
  · next hdecision =>
      obtain ⟨hreporting, hfails⟩ := trace_fail hrest
      exact .notFound hdecision hreporting hfails
  · next hdecision =>
      obtain ⟨hreporting, journal, hsucceeds⟩ := trace_succeedsWith hrest
      exact .reused journal hdecision hreporting hsucceeds
  · next destroyFirst hdecision =>
      obtain ⟨entering, transitions, after, rfl, hentering, hafter⟩ := trace_bind_iff.mp hrest
      obtain ⟨hreporting, rfl⟩ := trace_advance hentering
      obtain ⟨work, result, last, rfl, hwork, hlast⟩ := trace_bind_iff.mp hafter
      rw [← List.append_assoc]
      cases result with
      | error e =>
          obtain ⟨hback, hfails⟩ := trace_fail hlast
          exact .failed destroyFirst e hdecision hreporting hwork hback hfails
      | ok rebuilt =>
          obtain ⟨hback, journal, hsucceeds⟩ := trace_succeedsWith hlast
          exact .built destroyFirst rebuilt journal hdecision hreporting hwork hback hsucceeds

/-- **Every activation goes one of the ways**, whatever is answered to its requests. -/
theorem way_of_trace {quiet : Bool}
    (h : (activate settings quiet context request).Trace calls outcome) :
    Way settings ⟨request.descriptor.name, request.threshold, quiet⟩ request calls outcome := by
  rw [activate] at h
  split at h
  · next hmode =>
      obtain ⟨entering, transitions, last, rfl, hentering, hlast⟩ := trace_bind_iff.mp h
      obtain ⟨rfl, rfl⟩ := trace_pure_iff.mp hlast
      obtain ⟨hreporting, rfl⟩ := trace_advance hentering
      rw [List.append_nil]
      exact .system hmode hreporting ⟨rfl, rfl⟩
  · next hmode =>
      obtain ⟨front, located, rest, rfl, hlocated, hrest⟩ := trace_bind_iff.mp h
      cases located with
      | error e =>
          obtain ⟨hreporting, hfails⟩ := trace_fail hrest
          exact .lost e hmode hlocated hreporting hfails
      | ok location =>
          obtain ⟨look, rest, found, rfl, hlook, hdecided⟩ := decided_of_trace hrest
          rw [← List.append_assoc]
          exact .found location found hmode hlocated hlook hdecided

/-- A success is about the location that was found. -/
theorem Decided.located {success : Success}
    (h : Decided settings reporter request location found calls outcome)
    (hresult : outcome.result = .ok success) : success.location = some location := by
  cases h with
  | notFound _ _ hfails => exact absurd (hfails.1.symm.trans hresult) nofun
  | failed _ _ _ _ _ _ hfails => exact absurd (hfails.1.symm.trans hresult) nofun
  | reused _ _ _ hsucceeds =>
      obtain rfl := Except.ok.inj (hsucceeds.1.symm.trans hresult)
      rfl
  | built _ _ _ _ _ _ _ hsucceeds =>
      obtain rfl := Except.ok.inj (hsucceeds.1.symm.trans hresult)
      rfl

/-- The location of a success is that of its name. -/
theorem Way.located {success : Success} (h : Way settings reporter request calls outcome)
    (hmode : request.descriptor.mode = .isolated) (hresult : outcome.result = .ok success) :
    ∃ location working, success.location = some location ∧
      locate settings.root request.descriptor.name working = .ok location := by
  cases h with
  | system hsystem _ _ =>
      rw [hmode] at hsystem
      cases hsystem
  | lost e _ _ _ hfails =>
      rw [hfails.1] at hresult
      cases hresult
  | found location found _ hfront _ hdecided =>
      obtain ⟨working, hworking, _⟩ := calls_findLocation hfront
      exact ⟨location, working, hdecided.located hresult, hworking.symm⟩

/-! ### What was decided -/

/-- Whether a request is part of a detection. -/
def Request.isDetection : Request → Bool
  | .declarations _ => true
  | .isPresent _ => true
  | .readRecord _ => true
  | _ => false

/-- What an activation detected before it asked for a lock. -/
def detections (calls : List Call) : List Call :=
  (beforeLock calls).filter (·.request.isDetection)

/-- The fingerprint of the record that was read, if there was one to read. -/
def recordedIn : List Call → Option Fingerprint
  | [⟨.readRecord _, record⟩] => record.map BuildRecord.fingerprint
  | _ => none

/-- The decision that follows from what was detected, if anything was. -/
def decisionOf (settings : ActivatorSettings) (policy : RefreshPolicy) (calls : List Call) :
    Option Decision :=
  match detections calls with
  | ⟨.declarations _, requirements⟩ :: ⟨.isPresent _, present⟩ :: look =>
      some (decide policy present (recordedIn look) (planOf settings requirements).fingerprint)
  | _ => none

/-- Whether the decision was to build. -/
def ToBuild (settings : ActivatorSettings) (request : ActivationRequest) (calls : List Call) :
    Prop :=
  ∃ destroyFirst, decisionOf settings request.policy calls = some (.build destroyFirst)

theorem detections_append (hfront : Watching front) (back : List Call) :
    detections (front ++ back) = front.filter (·.request.isDetection) ++ detections back := by
  have hfree : ∀ call ∈ front, (!call.request.isLocking) = true := fun call hcall => by
    simp [(hfront call hcall).not_isLocking]
  rw [detections, beforeLock, List.takeWhile_append_of_pos hfree, List.filter_append]
  rfl

theorem Reporting.filter_isDetection (h : Reporting calls) :
    calls.filter (·.request.isDetection) = [] := by
  rw [List.filter_eq_nil_iff]
  intro call hcall
  obtain ⟨event, rfl⟩ := h call hcall
  nofun

theorem Reporting.detections (h : Reporting calls) : detections calls = [] := by
  rw [← List.append_nil calls, detections_append h.watching, h.filter_isDetection]
  rfl

theorem filter_isDetection_findLocation {root : Path} {name : String}
    {result : Except ActivationError Path} (h : (findLocation root name).Trace calls result) :
    calls.filter (·.request.isDetection) = [] := by
  obtain ⟨_, _, ⟨_, hcalls⟩ | ⟨_, hcalls⟩⟩ := calls_findLocation h <;> rw [hcalls] <;> rfl

/-- From the lock on nothing is detected. -/
theorem BuildTask.Locked.detections {task : BuildTask} {result : Except ActivationError Bool}
    (h : task.Locked calls result) (back : List Call) : detections (calls ++ back) = [] := by
  cases h <;> rfl

/-- After the decision nothing is detected before a lock. -/
theorem Decided.detections (h : Decided settings reporter request location found calls outcome) :
    detections calls = [] := by
  have hbuilding : ∀ {destroyFirst entering work back result}, Reporting entering →
      (taskFor settings reporter request location found destroyFirst).run.Trace work result →
      Activation.detections (entering ++ work ++ back) = [] := by
    intro destroyFirst entering work back result hentering hwork
    rw [List.append_assoc, detections_append hentering.watching, hentering.filter_isDetection,
      (BuildTask.locked_run hwork).detections]
    rfl
  cases h with
  | notFound _ hreporting _ => exact hreporting.detections
  | reused _ _ hreporting _ => exact hreporting.detections
  | failed _ _ _ hentering hwork _ _ => exact hbuilding hentering hwork
  | built _ _ _ _ hentering hwork _ _ => exact hbuilding hentering hwork

/-- What was detected decides. -/
theorem decisionOf_found {root : Path} {name : String} {result : Except ActivationError Path}
    {look rest : List Call} (hfront : (findLocation root name).Trace front result)
    (hlook : (detect settings reporter request.descriptor location).Trace look found)
    (hrest : detections rest = []) :
    decisionOf settings request.policy (front ++ look ++ rest) =
      some (found.decision request.policy) := by
  obtain ⟨requirements, notes, record, reports, hcalls, hnotes, hreports, hplan, hrecord⟩ :=
    calls_detect hlook
  have hdetections : detections (front ++ look ++ rest) =
      ⟨.declarations request.descriptor.requirementFiles, requirements⟩ ::
        ⟨.isPresent location, found.present⟩ :: record := by
    have hkept : record.filter (·.request.isDetection) = record := by
      obtain ⟨_, rfl, _⟩ | ⟨_, recorded, rfl, _⟩ := hrecord <;> rfl
    rw [List.append_assoc, detections_append (trace_findLocation hfront).1,
      detections_append (trace_detect hlook).1, filter_isDetection_findLocation hfront, hrest,
      List.nil_append, List.append_nil, hcalls, List.filter_cons_of_pos rfl, List.filter_append,
      hnotes.filter_isDetection, List.filter_cons_of_pos rfl, List.filter_append, hkept,
      hreports.filter_isDetection, List.nil_append, List.append_nil]
  have hrecorded : recordedIn record = found.recorded := by
    obtain ⟨_, rfl, hnone⟩ | ⟨_, recorded, rfl, hsome⟩ := hrecord
    · exact hnone.symm
    · exact hsome.symm
  rw [decisionOf, hdetections]
  dsimp only
  rw [hrecorded, ← hplan]
  rfl

theorem toBuild_found_iff {root : Path} {name : String} {result : Except ActivationError Path}
    {look rest : List Call} (hfront : (findLocation root name).Trace front result)
    (hlook : (detect settings reporter request.descriptor location).Trace look found)
    (hrest : Decided settings reporter request location found rest outcome) :
    ToBuild settings request (front ++ look ++ rest) ↔
      ∃ destroyFirst, found.decision request.policy = .build destroyFirst := by
  rw [ToBuild, decisionOf_found hfront hlook hrest.detections]
  simp

theorem not_toBuild_of_detections (h : detections calls = []) : ¬ ToBuild settings request calls := by
  rintro ⟨destroyFirst, hdecision⟩
  rw [decisionOf, h] at hdecision
  cases hdecision

/-- Where no location was found nothing is built. -/
theorem not_toBuild_lost {root : Path} {name : String} {result : Except ActivationError Path}
    (hfront : (findLocation root name).Trace front result) (hback : Reporting back) :
    ¬ ToBuild settings request (front ++ back) := by
  apply not_toBuild_of_detections
  rw [detections_append (trace_findLocation hfront).1, filter_isDetection_findLocation hfront,
    hback.detections]
  rfl

end Enclave.Activation
