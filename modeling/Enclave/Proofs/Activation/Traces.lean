import Enclave.Proofs.Activation.Calls

/-! # Traces of an activation

The parts of an activation are taken one after the other, each with what its calls are in every
trace.  Looking around only looks, and it finds a record with a fingerprint exactly if one is read
(`trace_detect`).  The operations of a build come as far as one of four exits
(`BuildTask.Progress`), and a build that holds its lock either finds what it would build or goes
there (`BuildTask.Course`, `course_run`). -/

namespace Enclave.Activation

open Procedure (trace_pure_iff trace_bind_iff trace_request_bind_iff)

variable {calls front back : List Call} {location : Path} {fingerprint : Fingerprint}

/-! ### Reports -/

theorem reporting_reportAll {events : List Event} {result : Unit}
    (h : (reportAll events).Trace calls result) : Reporting calls := by
  induction events generalizing calls with
  | nil =>
      obtain ⟨rfl, _⟩ := trace_pure_iff.mp h
      exact fun _ hcall => absurd hcall List.not_mem_nil
  | cons event events ih =>
      obtain ⟨_, rest, rfl, hrest⟩ := trace_request_bind_iff.mp h
      rintro call (_ | ⟨_, hcall⟩)
      · exact ⟨event, rfl⟩
      · exact ih hrest call hcall

theorem trace_advance {reporter : Reporter} {transitions result : List Transition}
    {next : ActivationState} {detail : String}
    (h : (advance reporter transitions next detail).Trace calls result) :
    Reporting calls ∧ result = transitions ++ [(lastState transitions, next)] := by
  obtain ⟨front, _, back, rfl, hfront, hback⟩ := trace_bind_iff.mp h
  obtain ⟨rfl, rfl⟩ := trace_pure_iff.mp hback
  rw [List.append_nil]
  exact ⟨reporting_reportAll hfront, rfl⟩

theorem trace_fail {reporter : Reporter} {context : ResolutionContext}
    {transitions : List Transition} {error : ActivationError} {outcome : Outcome}
    (h : (fail reporter context transitions error).Trace calls outcome) :
    Reporting calls ∧ outcome.result = .error error ∧
      outcome.transitions = transitions ++ [(lastState transitions, .failed)] := by
  obtain ⟨front, _, back, rfl, hfront, hback⟩ := trace_bind_iff.mp h
  obtain ⟨rfl, rfl⟩ := trace_pure_iff.mp hback
  obtain ⟨hreporting, rfl⟩ := trace_advance hfront
  rw [List.append_nil]
  exact ⟨hreporting, rfl, rfl⟩

theorem trace_succeed {reporter : Reporter} {context : ResolutionContext}
    {transitions : List Transition} {rebuilt : Bool} {outcome : Outcome}
    (h : (succeed reporter context transitions location fingerprint rebuilt).Trace calls outcome) :
    Reporting calls ∧
      (∃ journal, outcome.result = .ok ⟨some location, some fingerprint, rebuilt, journal⟩) ∧
      outcome.transitions = transitions ++ [(lastState transitions, .active)] := by
  obtain ⟨front, _, back, rfl, hfront, hback⟩ := trace_bind_iff.mp h
  obtain ⟨middle, _, last, rfl, hmiddle, hlast⟩ := trace_bind_iff.mp hback
  obtain ⟨rfl, rfl⟩ := trace_pure_iff.mp hlast
  obtain ⟨hreporting, rfl⟩ := trace_advance hmiddle
  rw [List.append_nil]
  exact ⟨(reporting_reportAll hfront).append hreporting, ⟨_, rfl⟩, rfl⟩

/-! ### Looking around -/

/-- The plan for what is declared. -/
def planOf (settings : ActivatorSettings) (requirements : Requirements) : ProvisionPlan :=
  ⟨.compute settings.interpreter requirements, settings.interpreter, requirements.lines⟩

/-- Whether a plan is the one for what a request was told to be declared. -/
def Declares (settings : ActivatorSettings) (descriptor : Descriptor) (calls : List Call)
    (plan : ProvisionPlan) : Prop :=
  ∃ requirements, ⟨.declarations descriptor.requirementFiles, requirements⟩ ∈ calls ∧
    plan = planOf settings requirements

theorem Declares.mono {settings : ActivatorSettings} {descriptor : Descriptor} {plan : ProvisionPlan}
    (h : Declares settings descriptor calls plan) (hsubset : calls ⊆ back) :
    Declares settings descriptor back plan := by
  obtain ⟨requirements, hmem, hplan⟩ := h
  exact ⟨requirements, hsubset hmem, hplan⟩

theorem trace_ite_reportAll {β : Type} {c : Prop} [Decidable c] {events : List Event}
    {next : Unit → Steps β} {result : β}
    (h : (if c then reportAll events >>= next else next ()).Trace calls result) :
    ∃ notes rest, calls = notes ++ rest ∧ Reporting notes ∧ (next ()).Trace rest result := by
  split at h
  · obtain ⟨notes, _, rest, rfl, hnotes, hrest⟩ := trace_bind_iff.mp h
    exact ⟨notes, rest, rfl, reporting_reportAll hnotes, hrest⟩
  · exact ⟨[], calls, rfl, by simp [Reporting], h⟩

theorem trace_ite_bind {β γ : Type} {c : Prop} [Decidable c] {p q : Steps β} {next : β → Steps γ}
    {result : γ} (h : (if c then p >>= next else q >>= next).Trace calls result) :
    ∃ front value back, calls = front ++ back ∧ (if c then p else q).Trace front value ∧
      (next value).Trace back result := by
  split at h
  · next hc =>
      rw [if_pos hc]
      exact trace_bind_iff.mp h
  · next hc =>
      rw [if_neg hc]
      exact trace_bind_iff.mp h

/-- Reading a record where there is an environment. -/
theorem trace_readRecord {present : Bool} {recorded : Option BuildRecord}
    (h : (if present then ask (.readRecord location) else pure none).Trace calls recorded) :
    present = false ∧ calls = [] ∧ recorded = none ∨
      present = true ∧ calls = [⟨.readRecord location, recorded⟩] := by
  split at h
  · next hpresent =>
      cases h with
      | ask answer hdone =>
          cases hdone
          exact .inr ⟨hpresent, rfl⟩
  · next hpresent =>
      obtain ⟨rfl, rfl⟩ := trace_pure_iff.mp h
      exact .inl ⟨by simpa using hpresent, rfl, rfl⟩

/-- The calls of a detection one by one. -/
theorem calls_detect {settings : ActivatorSettings} {reporter : Reporter} {descriptor : Descriptor}
    {found : Detection} (h : (detect settings reporter descriptor location).Trace calls found) :
    ∃ requirements notes look reports,
      calls = ⟨.declarations descriptor.requirementFiles, requirements⟩ ::
        (notes ++ ⟨.isPresent location, found.present⟩ :: (look ++ reports)) ∧
      Reporting notes ∧ Reporting reports ∧ found.plan = planOf settings requirements ∧
      (found.present = false ∧ look = [] ∧ found.recorded = none ∨
        found.present = true ∧ ∃ record, look = [⟨.readRecord location, record⟩] ∧
          found.recorded = record.map BuildRecord.fingerprint) := by
  rw [detect] at h
  obtain ⟨requirements, afterDeclared, hcalls, hdeclared⟩ := trace_request_bind_iff.mp h
  obtain ⟨notes, afterNotes, rfl, hnotes, hrest⟩ := trace_ite_reportAll hdeclared
  obtain ⟨present, afterPresent, rfl, hpresent⟩ := trace_request_bind_iff.mp hrest
  obtain ⟨look, record, afterRecord, rfl, hlook, hrecord⟩ := trace_ite_bind hpresent
  obtain ⟨reports, _, last, rfl, hreports, hlast⟩ := trace_bind_iff.mp hrecord
  obtain ⟨rfl, rfl⟩ := trace_pure_iff.mp hlast
  rw [List.append_nil] at hcalls
  refine ⟨requirements, notes, look, reports, hcalls, hnotes, reporting_reportAll hreports, rfl, ?_⟩
  obtain ⟨habsent, hnone, rfl⟩ | ⟨hthere, hread⟩ := trace_readRecord hlook
  · exact .inl ⟨habsent, hnone, rfl⟩
  · exact .inr ⟨hthere, record, hread, rfl⟩

/-- Detecting an environment only looks, and it tells what it saw. -/
theorem trace_detect {settings : ActivatorSettings} {reporter : Reporter} {descriptor : Descriptor}
    {found : Detection} (h : (detect settings reporter descriptor location).Trace calls found) :
    Watching calls ∧ Declares settings descriptor calls found.plan ∧
      (∀ fingerprint, found.present = true → found.recorded = some fingerprint →
        Sighted location fingerprint calls) ∧
      ∀ fingerprint, Reads fingerprint calls →
        found.present = true ∧ found.recorded = some fingerprint := by
  obtain ⟨requirements, notes, look, reports, hcalls, hnotes, hreports, hplan, hlook⟩ :=
    calls_detect h
  have hlooks : Watching look := by
    obtain ⟨_, rfl, _⟩ | ⟨_, record, rfl, _⟩ := hlook
    · simp [Watching]
    · simp [Watching, Request.Looks]
  rw [hcalls]
  refine ⟨?_, ⟨requirements, List.mem_cons_self, hplan⟩, ?_, ?_⟩
  · rintro call (_ | ⟨_, hcall⟩)
    · trivial
    · refine hnotes.watching.append ?_ call hcall
      rintro call (_ | ⟨_, hcall⟩)
      · trivial
      · exact hlooks.append hreports.watching call hcall
  · intro fingerprint hpresent hrecorded
    obtain ⟨habsent, _⟩ | ⟨_, recorded, rfl, hrecord⟩ := hlook
    · rw [hpresent] at habsent
      cases habsent
    · rw [hrecord] at hrecorded
      obtain ⟨record, rfl, hmatch⟩ := Option.map_eq_some_iff.mp hrecorded
      refine ⟨record, hmatch, ⟨.declarations descriptor.requirementFiles, requirements⟩ :: notes,
        reports, ?_⟩
      rw [hpresent, List.cons_append, List.cons_append, List.append_assoc]
      rfl
  · intro fingerprint hreads
    have hlook' : Reads fingerprint look := by
      refine (reads_congr ?_).mp hreads
      simp [readings_cons, Request.isReading, hnotes.readings, hreports.readings]
    obtain ⟨_, rfl, _⟩ | ⟨hpresent, recorded, rfl, hrecord⟩ := hlook
    · exact absurd hlook' (not_reads_of_readings rfl)
    · exact ⟨hpresent, hrecord.trans (reads_singleton_iff.mp hlook')⟩

/-- The calls by which a location is found. -/
theorem calls_findLocation {root : Path} {name : String} {result : Except ActivationError Path}
    (h : (findLocation root name).Trace calls result) :
    ∃ working, result = locate root name working ∧
      (((Name.check name).isSome || root.isAbsolute) = true ∧ calls = [] ∨
        ((Name.check name).isSome || root.isAbsolute) = false ∧
          calls = [⟨.workingDirectory, working⟩]) := by
  rw [findLocation] at h
  split at h
  · next hneedless =>
      obtain ⟨rfl, rfl⟩ := trace_pure_iff.mp h
      exact ⟨_, rfl, .inl ⟨hneedless, rfl⟩⟩
  · next hneeded =>
      obtain ⟨working, rest, hcalls, hrest⟩ := trace_request_bind_iff.mp h
      obtain ⟨rfl, rfl⟩ := trace_pure_iff.mp hrest
      exact ⟨working, rfl, .inr ⟨Bool.eq_false_iff.mpr hneeded, hcalls⟩⟩

/-- What is asked for to find a location only looks. -/
theorem trace_findLocation {root : Path} {name : String} {result : Except ActivationError Path}
    (h : (findLocation root name).Trace calls result) :
    Watching calls ∧ readings calls = [] ∧ ∃ working, result = locate root name working := by
  obtain ⟨working, hresult, ⟨_, hcalls⟩ | ⟨_, hcalls⟩⟩ := calls_findLocation h
  · rw [hcalls]
    exact ⟨by simp [Watching], rfl, working, hresult⟩
  · rw [hcalls]
    exact ⟨by simp [Watching, Request.Looks], rfl, working, hresult⟩

/-! ### Decisions -/

theorem decide_eq_reuse {policy : RefreshPolicy} {present : Bool}
    {recorded : Option Fingerprint} {current : Fingerprint}
    (h : decide policy present recorded current = .reuse) :
    policy = .never ∨ policy = .smart ∧ present = true ∧ recorded = some current := by
  cases policy with
  | never => exact .inl rfl
  | always => cases h
  | smart =>
      rw [decide] at h
      split at h
      · next hmatch => exact .inr ⟨rfl, by simpa using hmatch⟩
      · cases h

theorem decide_eq_build {policy : RefreshPolicy} {present destroyFirst : Bool}
    {recorded : Option Fingerprint} {current : Fingerprint}
    (h : decide policy present recorded current = .build destroyFirst) :
    policy = .always ∧ destroyFirst = true ∨ policy = .smart ∧ destroyFirst = false ∧
      ¬ (present = true ∧ recorded = some current) := by
  cases policy with
  | never =>
      rw [decide] at h
      split at h <;> cases h
  | always => exact .inl ⟨rfl, (Decision.build.inj h).symm⟩
  | smart =>
      rw [decide] at h
      split at h
      · cases h
      · next hmatch =>
          refine .inr ⟨rfl, (Decision.build.inj h).symm, ?_⟩
          rintro ⟨rfl, rfl⟩
          simp at hmatch

theorem decide_eq_notFound_iff {policy : RefreshPolicy} {present : Bool}
    {recorded : Option Fingerprint} {current : Fingerprint} :
    decide policy present recorded current = .notFound ↔ policy = .never ∧ present = false := by
  cases policy with
  | never => cases present <;> simp [decide]
  | always => simp [decide]
  | smart =>
      rw [decide]
      split <;> simp

/-! ### Building -/

namespace BuildTask

variable {task : BuildTask}

/-- The calls that have cleared an environment. -/
def clearing (task : BuildTask) : List Call :=
  if task.destroyFirst then [⟨.destroy task.location, .ok ()⟩] else []

/-- The call that asks for an environment. -/
def ensuring (task : BuildTask) (answer : Except ProvisionError Unit) : Call :=
  ⟨.ensure task.location task.plan task.settings.provisionTimeout, answer⟩

/-- How far the operations of a build came, and whether the environment was built. -/
inductive Progress (task : BuildTask) : Bool → List Call → Prop
  | idle : Progress task false []
  | stuck (cause : ProvisionError) : task.destroyFirst = true →
      Progress task false [⟨.destroy task.location, .error cause⟩]
  | failed (cause : ProvisionError) :
      Progress task false (task.clearing ++ [task.ensuring (.error cause)])
  | built : Progress task true (task.clearing ++ [task.ensuring (.ok ())])

theorem trace_alreadyBuilt {found : Bool} (h : task.alreadyBuilt.Trace calls found) :
    Watching calls ∧
      (found = true → task.policy = .smart ∧
        Sighted task.location task.plan.fingerprint calls) ∧
      (Reads task.plan.fingerprint calls → found = true) := by
  rw [alreadyBuilt] at h
  split at h
  · next hpolicy =>
      obtain ⟨present, rest, hcalls, hrest⟩ := trace_request_bind_iff.mp h
      cases present with
      | false =>
          obtain ⟨rfl, rfl⟩ := trace_pure_iff.mp hrest
          rw [hcalls]
          refine ⟨by simp [Watching, Request.Looks], nofun, fun hreads => ?_⟩
          exact absurd hreads (not_reads_of_readings rfl)
      | true =>
          obtain ⟨recorded, last, rfl, hlast⟩ := trace_request_bind_iff.mp hrest
          obtain ⟨rfl, rfl⟩ := trace_pure_iff.mp hlast
          rw [hcalls]
          refine ⟨by simp [Watching, Request.Looks], fun hfound => ?_, fun hreads => ?_⟩
          · obtain ⟨record, rfl, hmatch⟩ := (Option.any_eq_true _ _).mp hfound
            exact ⟨eq_of_beq hpolicy, record, eq_of_beq hmatch, List.infix_rfl⟩
          · obtain ⟨record, rfl, hmatch⟩ := Option.map_eq_some_iff.mp
              (reads_singleton_iff.mp ((reads_congr rfl).mp hreads))
            simpa using hmatch
  · obtain ⟨rfl, rfl⟩ := trace_pure_iff.mp h
    exact ⟨by simp [Watching], nofun, fun hreads => absurd hreads (not_reads_of_readings rfl)⟩

/-- Clearing reads no record, and destroys an environment where the task says so. -/
theorem trace_clear {result : Except ActivationError Unit}
    (h : task.clear.Trace calls result) :
    readings calls = [] ∧
      (operations calls = task.clearing ∧ result = .ok () ∨
        ∃ cause error, task.destroyFirst = true ∧ result = .error error ∧
          operations calls = [⟨.destroy task.location, .error cause⟩]) := by
  rw [clear] at h
  split at h
  · next hfirst =>
      obtain ⟨notes, _, back, hcalls, hnotes, hback⟩ := trace_bind_iff.mp h
      have hreporting := reporting_reportAll hnotes
      obtain ⟨answer, rest, rfl, hrest⟩ := trace_request_bind_iff.mp hback
      cases answer with
      | ok done =>
          obtain ⟨rfl, rfl⟩ := trace_pure_iff.mp hrest
          rw [hcalls, readings_append, hreporting.readings, operations_append,
            hreporting.operations]
          exact ⟨rfl, .inl ⟨by rw [clearing, if_pos hfirst]; rfl, rfl⟩⟩
      | error cause =>
          obtain ⟨rfl, rfl⟩ := trace_pure_iff.mp hrest
          rw [hcalls, readings_append, hreporting.readings, operations_append,
            hreporting.operations]
          exact ⟨rfl, .inr ⟨cause, _, hfirst, rfl, rfl⟩⟩
  · next hfirst =>
      obtain ⟨rfl, rfl⟩ := trace_pure_iff.mp h
      exact ⟨rfl, .inl ⟨by rw [clearing, if_neg hfirst]; rfl, rfl⟩⟩

theorem trace_provision {result : Except ActivationError Unit}
    (h : task.provision.Trace calls result) :
    readings calls = [] ∧ ∃ answer, operations calls = [task.ensuring answer] ∧
      (answer = .ok () ↔ result = .ok ()) := by
  rw [provision] at h
  obtain ⟨notes, _, back, hcalls, hnotes, hback⟩ := trace_bind_iff.mp h
  have hreporting := reporting_reportAll hnotes
  obtain ⟨answer, rest, rfl, hrest⟩ := trace_request_bind_iff.mp hback
  cases answer with
  | ok done =>
      obtain ⟨rfl, rfl⟩ := trace_pure_iff.mp hrest
      rw [hcalls, readings_append, hreporting.readings, operations_append, hreporting.operations]
      exact ⟨rfl, .ok (), rfl, by simp⟩
  | error cause =>
      obtain ⟨rfl, rfl⟩ := trace_pure_iff.mp hrest
      rw [hcalls, readings_append, hreporting.readings, operations_append, hreporting.operations]
      exact ⟨rfl, .error cause, rfl, by simp⟩

theorem trace_record {result : Except ActivationError Unit}
    (h : task.record.Trace calls result) : readings calls = [] ∧ operations calls = [] := by
  rw [record] at h
  obtain ⟨now, afterNow, hcalls, hnow⟩ := trace_request_bind_iff.mp h
  obtain ⟨written, afterDraft, rfl, hdraft⟩ := trace_request_bind_iff.mp hnow
  cases written with
  | error failure =>
      obtain ⟨rfl, rfl⟩ := trace_pure_iff.mp hdraft
      rw [hcalls]
      exact ⟨rfl, rfl⟩
  | ok done =>
      obtain ⟨moved, afterMove, rfl, hmove⟩ := trace_request_bind_iff.mp hdraft
      cases moved with
      | error failure =>
          obtain ⟨rfl, rfl⟩ := trace_pure_iff.mp hmove
          rw [hcalls]
          exact ⟨rfl, rfl⟩
      | ok done =>
          obtain ⟨rfl, rfl⟩ := trace_pure_iff.mp hmove
          rw [hcalls]
          exact ⟨rfl, rfl⟩

theorem trace_rebuild {result : Except ActivationError Unit}
    (h : task.rebuild.Trace calls result) :
    readings calls = [] ∧ ∃ built, task.Progress built (operations calls) ∧
      (result = .ok () → built = true) := by
  rw [rebuild] at h
  obtain ⟨removed, rest, hcalls, hrest⟩ := trace_request_bind_iff.mp h
  cases removed with
  | error failure =>
      obtain ⟨rfl, rfl⟩ := trace_pure_iff.mp hrest
      rw [hcalls]
      exact ⟨rfl, false, .idle, nofun⟩
  | ok done =>
      obtain ⟨front, cleared, back, rfl, hfront, hback⟩ := trace_bind_iff.mp hrest
      have hsplit : calls = [⟨.removeRecord task.location, .ok done⟩] ++ (front ++ back) := hcalls
      obtain ⟨hread, ⟨hclearing, rfl⟩ | ⟨cause, error, hfirst, rfl, hstuck⟩⟩ := trace_clear hfront
      · obtain ⟨middle, provisioned, last, rfl, hmiddle, hlast⟩ := trace_bind_iff.mp hback
        obtain ⟨hread', answer, hensuring, hanswer⟩ := trace_provision hmiddle
        cases provisioned with
        | error e =>
            obtain ⟨rfl, rfl⟩ := trace_pure_iff.mp hlast
            cases answer with
            | ok done => exact absurd (hanswer.mp rfl) nofun
            | error cause =>
                refine ⟨?_, false, ?_, nofun⟩
                · simp only [hsplit, readings_append, hread, hread']
                  rfl
                · simp only [hsplit, operations_append, hclearing, hensuring]
                  exact .failed cause
        | ok done =>
            obtain ⟨hread'', hnone⟩ := trace_record hlast
            rw [hanswer.mpr rfl] at hensuring
            refine ⟨?_, true, ?_, fun _ => rfl⟩
            · simp only [hsplit, readings_append, hread, hread', hread'']
              rfl
            · simp only [hsplit, operations_append, hclearing, hensuring, hnone, List.append_nil]
              exact .built
      · obtain ⟨rfl, rfl⟩ := trace_pure_iff.mp hback
        refine ⟨?_, false, ?_, nofun⟩
        · simp only [hsplit, readings_append, hread]
          rfl
        · simp only [hsplit, operations_append, hstuck, List.append_nil]
          exact .stuck cause hfirst

/-- How a build that holds its lock can go: the environment is found with its record, or it is not
and the build comes as far as it can. -/
inductive Course (task : BuildTask) (calls : List Call) : Except ActivationError Bool → Prop
  | found : task.policy = .smart → operations calls = [] →
      Sighted task.location task.plan.fingerprint calls → Course task calls (.ok false)
  | worked {result : Except ActivationError Bool} (built : Bool) :
      ¬ Reads task.plan.fingerprint calls → task.Progress built (operations calls) →
      result ≠ .ok false → (result = .ok true → built = true) → Course task calls result

theorem course_underLock {result : Except ActivationError Bool}
    (h : task.underLock.Trace calls result) : task.Course calls result := by
  rw [underLock] at h
  obtain ⟨front, found, back, rfl, hfront, hback⟩ := trace_bind_iff.mp h
  obtain ⟨hwatching, hfound, hreads⟩ := trace_alreadyBuilt hfront
  cases found with
  | true =>
      obtain ⟨notes, _, last, rfl, hnotes, hlast⟩ := trace_bind_iff.mp hback
      obtain ⟨rfl, rfl⟩ := trace_pure_iff.mp hlast
      obtain ⟨hpolicy, hsighted⟩ := hfound rfl
      refine .found hpolicy ?_ (hsighted.mono (List.prefix_append ..).isInfix)
      simp [hwatching.operations, (reporting_reportAll hnotes).operations]
  | false =>
      obtain ⟨work, rebuilt, last, rfl, hwork, hlast⟩ := trace_bind_iff.mp hback
      obtain ⟨hnone, built, hprogress, hbuilt⟩ := trace_rebuild hwork
      have hunread : ¬ Reads task.plan.fingerprint (front ++ work) := by
        have hsame : readings (front ++ work) = readings front := by simp [hnone]
        rw [reads_congr hsame]
        exact fun hread => absurd (hreads hread) nofun
      have hworked : operations (front ++ work) = operations work := by
        simp [hwatching.operations]
      cases rebuilt with
      | error e =>
          obtain ⟨rfl, rfl⟩ := trace_pure_iff.mp hlast
          rw [List.append_nil]
          exact .worked built hunread (hworked ▸ hprogress) nofun nofun
      | ok done =>
          obtain ⟨rfl, rfl⟩ := trace_pure_iff.mp hlast
          rw [List.append_nil]
          exact .worked built hunread (hworked ▸ hprogress) nofun fun _ => hbuilt rfl

/-- A build asks for its lock first. -/
theorem course_run {result : Except ActivationError Bool} (h : task.run.Trace calls result) :
    (∃ answer rest, calls = ⟨.acquireLock (Layout.lockFile task.location) task.settings.lockMode
      task.settings.lockTimeout, answer⟩ :: rest) ∧ task.Course calls result := by
  rw [run] at h
  obtain ⟨answer, rest, hcalls, hrest⟩ := trace_request_bind_iff.mp h
  refine ⟨⟨answer, rest, hcalls⟩, ?_⟩
  cases answer with
  | error e =>
      obtain ⟨rfl, rfl⟩ := trace_pure_iff.mp hrest
      rw [hcalls]
      exact .worked false (not_reads_of_readings rfl) .idle nofun nofun
  | ok lock =>
      obtain ⟨held, inner, back, rfl, hheld, hback⟩ := trace_bind_iff.mp hrest
      obtain ⟨_, last, rfl, hlast⟩ := trace_request_bind_iff.mp hback
      obtain ⟨rfl, rfl⟩ := trace_pure_iff.mp hlast
      -- neither the lock nor giving it back is an operation or a reading
      have hoperations : operations calls = operations held := by
        rw [hcalls]
        exact (operations_append held _).trans (List.append_nil _)
      have hreadings : readings calls = readings held := by
        rw [hcalls]
        exact (readings_append held _).trans (List.append_nil _)
      cases course_underLock hheld with
      | found hpolicy hnone hsighted =>
          exact .found hpolicy (hoperations.trans hnone)
            (hsighted.mono (hcalls ▸ ⟨[_], [_], rfl⟩))
      | worked built hreads hprogress hne hbuilt =>
          exact .worked built (fun h => hreads ((reads_congr hreadings).mp h))
            (hoperations ▸ hprogress) hne hbuilt

/-! ### Operations of a build -/

theorem Progress.smart {built : Bool} (h : task.Progress built calls)
    (hfirst : task.destroyFirst = false) : calls = [] ∨ ∃ answer, calls = [task.ensuring answer] := by
  have hclearing : task.clearing = [] := by simp [clearing, hfirst]
  cases h with
  | idle => exact .inl rfl
  | stuck cause htrue => simp [hfirst] at htrue
  | failed cause => exact .inr ⟨_, by rw [hclearing, List.nil_append]⟩
  | built => exact .inr ⟨_, by rw [hclearing, List.nil_append]⟩

theorem Progress.always {built : Bool} (h : task.Progress built calls)
    (hfirst : task.destroyFirst = true) :
    calls = [] ∨ (∃ cause, calls = [⟨.destroy task.location, .error cause⟩]) ∨
      ∃ answer, calls = [⟨.destroy task.location, .ok ()⟩, task.ensuring answer] := by
  have hclearing : task.clearing = [⟨.destroy task.location, .ok ()⟩] := by simp [clearing, hfirst]
  cases h with
  | idle => exact .inl rfl
  | stuck cause _ => exact .inr (.inl ⟨cause, rfl⟩)
  | failed cause => exact .inr (.inr ⟨_, by rw [hclearing]; rfl⟩)
  | built => exact .inr (.inr ⟨_, by rw [hclearing]; rfl⟩)

theorem not_mem_clearing {plan : ProvisionPlan} {timeout : Duration}
    {answer : Except ProvisionError Unit} :
    (⟨.ensure location plan timeout, answer⟩ : Call) ∉ task.clearing := by
  rw [clearing]
  split <;> simp

/-- An environment is asked for as the task says. -/
theorem Progress.eq_of_mem {built : Bool} (h : task.Progress built calls) {plan : ProvisionPlan}
    {timeout : Duration} {answer : Except ProvisionError Unit}
    (hmem : (⟨.ensure location plan timeout, answer⟩ : Call) ∈ calls) :
    (location = task.location ∧ plan = task.plan ∧ timeout = task.settings.provisionTimeout) ∧
      (answer = .ok () ↔ built = true) := by
  cases h with
  | idle => cases hmem
  | stuck cause _ => simp at hmem
  | failed cause =>
      rcases List.mem_append.mp hmem with hclearing | hensuring
      · exact absurd hclearing not_mem_clearing
      · cases List.mem_singleton.mp hensuring
        exact ⟨⟨rfl, rfl, rfl⟩, by simp⟩
  | built =>
      rcases List.mem_append.mp hmem with hclearing | hensuring
      · exact absurd hclearing not_mem_clearing
      · cases List.mem_singleton.mp hensuring
        exact ⟨⟨rfl, rfl, rfl⟩, by simp⟩

/-- All operations are about the environment of the task. -/
theorem Progress.location_of_mem {built : Bool} (h : task.Progress built calls) {call : Call}
    (hmem : call ∈ calls) : call.request = .destroy task.location ∨
      ∃ plan timeout, call.request = .ensure task.location plan timeout := by
  have hclearing : call ∈ task.clearing → call.request = .destroy task.location := by
    intro hclearing
    rw [clearing] at hclearing
    split at hclearing
    · rw [List.mem_singleton.mp hclearing]
    · cases hclearing
  have hensuring : ∀ answer, call ∈ [task.ensuring answer] →
      ∃ plan timeout, call.request = .ensure task.location plan timeout := by
    intro answer hensuring
    exact ⟨_, _, congrArg Procedure.Call.request (List.mem_singleton.mp hensuring)⟩
  cases h with
  | idle => cases hmem
  | stuck cause _ => exact .inl (congrArg Procedure.Call.request (List.mem_singleton.mp hmem))
  | failed cause => exact (List.mem_append.mp hmem).imp hclearing (hensuring _)
  | built => exact (List.mem_append.mp hmem).imp hclearing (hensuring _)

theorem Progress.ensuring_mem (h : task.Progress true calls) : task.ensuring (.ok ()) ∈ calls := by
  cases h
  exact List.mem_append_right _ (List.mem_singleton.mpr rfl)

/-- How far a build came, and whether it says that the environment was rebuilt. -/
theorem Course.exists_progress {result : Except ActivationError Bool}
    (h : task.Course calls result) : ∃ built, task.Progress built (operations calls) ∧
      ∀ rebuilt, result = .ok rebuilt → rebuilt = built := by
  cases h with
  | found _ hnone _ => exact ⟨false, hnone ▸ .idle, by rintro _ ⟨⟩; rfl⟩
  | worked built _ hprogress hne hbuilt =>
      refine ⟨built, hprogress, fun rebuilt hok => ?_⟩
      cases rebuilt with
      | false => exact absurd hok hne
      | true => exact (hbuilt hok).symm

/-- Where a record with the wanted fingerprint is read, nothing is asked for. -/
theorem Course.operations_of_reads {result : Except ActivationError Bool}
    (h : task.Course calls result) (hreads : Reads task.plan.fingerprint calls) :
    operations calls = [] := by
  cases h with
  | found _ hnone _ => exact hnone
  | worked _ hunread => exact absurd hreads hunread

/-- A build that finds the environment asks for nothing. -/
theorem Course.operations_of_found (h : task.Course calls (.ok false)) : operations calls = [] := by
  cases h with
  | found _ hnone _ => exact hnone
  | worked _ _ _ hne _ => exact absurd rfl hne

/-- A build that succeeds and asked for nothing has found what is wanted. -/
theorem Course.sighted {rebuilt : Bool} (h : task.Course calls (.ok rebuilt))
    (hnone : operations calls = []) : Sighted task.location task.plan.fingerprint calls := by
  cases h with
  | found _ _ hsighted => exact hsighted
  | worked built _ hprogress hne hbuilt =>
      cases rebuilt with
      | false => exact absurd rfl hne
      | true =>
          rw [hnone, hbuilt rfl] at hprogress
          exact absurd hprogress.ensuring_mem List.not_mem_nil

/-- A build that succeeds without looking for another one has built the environment. -/
theorem Course.operations_eq {rebuilt : Bool} (h : task.Course calls (.ok rebuilt))
    (hpolicy : task.policy ≠ .smart) :
    operations calls = task.clearing ++ [task.ensuring (.ok ())] := by
  cases h with
  | found hsmart => exact absurd hsmart hpolicy
  | worked built _ hprogress hne hbuilt =>
      cases rebuilt with
      | false => exact absurd rfl hne
      | true =>
          rw [hbuilt rfl] at hprogress
          generalize operations calls = done at hprogress
          cases hprogress
          rfl

end BuildTask

end Enclave.Activation
