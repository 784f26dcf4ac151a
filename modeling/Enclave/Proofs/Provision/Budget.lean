import Enclave.Proofs.Provision.Tasks
import Enclave.Provision.System
import Mathlib.Data.List.Basic

/-! # Builds under one budget of time

Every build goes through its tasks in steps (`staged_ensure`), unless it fails before the first one.
Whether there is an environment to create is told by the interpreter of the environment.  The empty
location stands for the system, whose interpreter has another name than that of an environment
(`not_createTask_iff`).  A new environment is created by the interpreter that the plan names, if no
other is fixed, and one that is found keeps its own (`creators_ensure`). -/

namespace Enclave.Venv

open Procedure (trace_pure_iff trace_bind_iff trace_request_bind_iff)

variable {calls back : List Call} {fixed : Option Path} {location : Path} {plan : ProvisionPlan}
  {budget : Budget} {requirements : List String} {result : Except ProvisionError Unit}
  {e : ProvisionError}

/-! ### Preparing -/

/-- The interpreter that creates an environment: a fixed one, or else the first one that is
found. -/
def Chosen (fixed : Option Path) (plan : ProvisionPlan) (interpreter : Path) (calls : List Call) :
    Prop :=
  fixed = some interpreter ∨
    fixed = none ∧ FirstFound (plan.interpreter :: interpreterNames) interpreter calls

/-- How a build fails before any of its tasks: what is left of an environment cannot be removed, no
interpreter is found, or the directory above the environment cannot be created. -/
inductive Unprepared (fixed : Option Path) (location : Path) (plan : ProvisionPlan)
    (calls : List Call) : ProvisionError → Prop
  | remains {cause : IoError} : ⟨.removeTree location, .error cause⟩ ∈ calls →
      Unprepared fixed location plan calls (fileFailure
        s!"Failed to remove incomplete environment: {location.display}" cause)
  | interpreter : fixed = none →
      (∀ name ∈ plan.interpreter :: interpreterNames, ⟨.findProgram name, none⟩ ∈ calls) →
      Unprepared fixed location plan calls (.other noInterpreter)
  | parent {parent : Path} {cause : IoError} : location.parent? = some parent →
      ⟨.createDirectories parent, .error cause⟩ ∈ calls →
      Unprepared fixed location plan calls
        (fileFailure s!"Failed to create {parent.display}" cause)

theorem Chosen.mono {interpreter : Path} (h : Chosen fixed plan interpreter calls)
    (hsubset : calls ⊆ back) : Chosen fixed plan interpreter back :=
  h.imp_right fun ⟨hnone, hfound⟩ => ⟨hnone, hfound.mono hsubset⟩

theorem Chosen.firstFound {interpreter : Path} (h : Chosen none plan interpreter calls) :
    FirstFound (plan.interpreter :: interpreterNames) interpreter calls := by
  rcases h with hfixed | ⟨_, hfound⟩
  · cases hfixed
  · exact hfound

theorem Unprepared.mono (h : Unprepared fixed location plan calls e) (hsubset : calls ⊆ back) :
    Unprepared fixed location plan back e := by
  cases h with
  | remains hremains => exact .remains (hsubset hremains)
  | interpreter hnone hnames =>
      exact .interpreter hnone fun name hname => hsubset (hnames name hname)
  | parent hparent hcreate => exact .parent hparent (hsubset hcreate)

/-! ### Parts of a build -/

/-- A step goes through its task. -/
theorem works_runStep {step : Step} {command : ChildCommand}
    (h : (runStep budget step command).Trace calls result) :
    Works budget [⟨step, command⟩] calls result := by
  rw [runStep] at h
  obtain ⟨clock, limit, afterClock, rfl, hclock, hlimit⟩ := trace_bind_iff.mp h
  obtain ⟨now, rest, rfl, hremaining⟩ := trace_request_bind_iff.mp hclock
  obtain ⟨rfl, rfl⟩ := trace_pure_iff.mp hremaining
  cases hleft : (budget.leftAt now).isZero with
  | true =>
      rw [hleft] at hlimit
      obtain ⟨rfl, rfl⟩ := trace_pure_iff.mp hlimit
      exact .late hleft aside_nil
  | false =>
      rw [hleft] at hlimit
      obtain ⟨ending, rest, rfl, hrest⟩ := trace_request_bind_iff.mp hlimit
      cases ending with
      | error explanation =>
          obtain ⟨rfl, rfl⟩ := trace_pure_iff.mp hrest
          exact .failed hleft (.unstarted explanation) aside_nil
      | ok output =>
          obtain ⟨rfl, rfl⟩ := trace_pure_iff.mp hrest
          unfold checkStep
          cases hover : output.timedOut with
          | true => exact .failed hleft (.overdue hover) aside_nil
          | false =>
              cases hsuccess : output.success with
              | true => exact .next hleft hsuccess .done
              | false => exact .failed hleft (.unsuccessful hover hsuccess) aside_nil

/-- Installing goes through its tasks. -/
theorem works_install (h : (install location requirements budget).Trace calls result) :
    Works budget (installTasks location requirements) calls result := by
  rw [install] at h
  unfold installTasks
  split at h
  · next hempty =>
      obtain ⟨rfl, rfl⟩ := trace_pure_iff.mp h
      rw [if_pos hempty]
      exact .done
  · next hsome =>
      rw [if_neg hsome]
      obtain ⟨_, rest, rfl, hrest⟩ := trace_request_bind_iff.mp h
      obtain ⟨upgrade, upgraded, afterUpgrade, rfl, hupgrade, hlast⟩ := trace_bind_iff.mp hrest
      refine .aside trivial ?_
      cases upgraded with
      | error e =>
          obtain ⟨rfl, rfl⟩ := trace_pure_iff.mp hlast
          rw [List.append_nil]
          exact (works_runStep hupgrade).append_tasks [_]
      | ok done =>
          obtain ⟨_, work, rfl, hwork⟩ := trace_request_bind_iff.mp hlast
          exact (works_runStep hupgrade).append (.aside trivial (works_runStep hwork))

/-- Choosing an interpreter. -/
theorem chosen_baseInterpreter (location : Path) {found : Except ProvisionError Path}
    (h : (baseInterpreter fixed plan).Trace calls found) :
    Aside calls ∧ (∀ interpreter, found = .ok interpreter → Chosen fixed plan interpreter calls) ∧
      ∀ e, found = .error e → Unprepared fixed location plan calls e := by
  unfold baseInterpreter at h
  cases fixed with
  | some path =>
      obtain ⟨rfl, rfl⟩ := trace_pure_iff.mp h
      refine ⟨aside_nil, ?_, nofun⟩
      rintro _ ⟨⟩
      exact .inl rfl
  | none =>
      obtain ⟨search, answer, rest, rfl, hsearch, hrest⟩ := trace_bind_iff.mp h
      have haside := aside_of_asks (asks_findFirst (fun _ => trivial) _) hsearch
      cases answer with
      | some program =>
          obtain ⟨rfl, rfl⟩ := trace_pure_iff.mp hrest
          rw [List.append_nil]
          refine ⟨haside, ?_, nofun⟩
          rintro _ ⟨⟩
          exact .inr ⟨rfl, trace_findFirst hsearch⟩
      | none =>
          obtain ⟨rfl, rfl⟩ := trace_pure_iff.mp hrest
          rw [List.append_nil]
          refine ⟨haside, nofun, ?_⟩
          rintro _ ⟨⟩
          exact .interpreter rfl (trace_findFirst_none hsearch)

/-- Creating the directory above an environment. -/
theorem prepared_createParent (fixed : Option Path) (plan : ProvisionPlan)
    {made : Except ProvisionError Unit} (h : (createParent location).Trace calls made) :
    Aside calls ∧ ∀ e, made = .error e → Unprepared fixed location plan calls e := by
  refine ⟨aside_of_asks (asks_createParent fun _ _ => trivial) h, ?_⟩
  rintro e rfl
  unfold createParent at h
  split at h
  · cases (trace_pure_iff.mp h).2
  · next parent hparent =>
      obtain ⟨answer, rest, rfl, hrest⟩ := trace_request_bind_iff.mp h
      cases answer with
      | ok done => cases (trace_pure_iff.mp hrest).2
      | error cause =>
          cases (trace_pure_iff.mp hrest).2
          exact .parent hparent List.mem_cons_self

/-- Removing what is left of an environment. -/
theorem prepared_removeIncomplete (fixed : Option Path) (plan : ProvisionPlan)
    {cleared : Except ProvisionError Unit} (h : (removeIncomplete location).Trace calls cleared) :
    Aside calls ∧ ∀ e, cleared = .error e → Unprepared fixed location plan calls e := by
  refine ⟨aside_of_asks (asks_removeIncomplete trivial trivial) h, ?_⟩
  rintro e rfl
  unfold removeIncomplete at h
  obtain ⟨there, rest, rfl, hrest⟩ := trace_request_bind_iff.mp h
  split at hrest
  · obtain ⟨answer, others, rfl, hlast⟩ := trace_request_bind_iff.mp hrest
    cases answer with
    | ok done => cases (trace_pure_iff.mp hlast).2
    | error cause =>
        cases (trace_pure_iff.mp hlast).2
        exact .remains (List.mem_cons_of_mem _ List.mem_cons_self)
  · cases (trace_pure_iff.mp hrest).2

/-- Creating an environment goes through its task, once everything is prepared. -/
theorem works_create (h : (create fixed location plan budget).Trace calls result) :
    (∃ e, result = .error e ∧ Aside calls ∧ Unprepared fixed location plan calls e) ∨
      ∃ interpreter, Chosen fixed plan interpreter calls ∧
        Works budget [createTask interpreter location] calls result := by
  rw [create] at h
  obtain ⟨search, found, afterSearch, rfl, hsearch, hrest⟩ := trace_bind_iff.mp h
  obtain ⟨haside, hchosen, hfail⟩ := chosen_baseInterpreter location hsearch
  cases found with
  | error e =>
      obtain ⟨rfl, rfl⟩ := trace_pure_iff.mp hrest
      rw [List.append_nil]
      exact .inl ⟨e, rfl, haside, hfail e rfl⟩
  | ok interpreter =>
      obtain ⟨parent, made, afterParent, rfl, hparent, hlast⟩ := trace_bind_iff.mp hrest
      obtain ⟨haside', hfail'⟩ := prepared_createParent fixed plan hparent
      cases made with
      | error e =>
          obtain ⟨rfl, rfl⟩ := trace_pure_iff.mp hlast
          rw [List.append_nil]
          exact .inl ⟨e, rfl, haside.append haside', (hfail' e rfl).mono (by simp)⟩
      | ok done =>
          obtain ⟨_, work, rfl, hwork⟩ := trace_request_bind_iff.mp hlast
          refine .inr ⟨interpreter, (hchosen _ rfl).mono (by simp), ?_⟩
          exact .aside_append haside (.aside_append haside' (.aside trivial (works_runStep hwork)))

/-- Cleaning up does not look at the clock, runs nothing and does not change a result. -/
theorem aside_cleanUp (made : Except ProvisionError Unit)
    (h : (match made with
      | .ok () => pure (.ok ())
      | .error e => do
          discard location
          return .error e : Steps (Except ProvisionError Unit)).Trace calls result) :
    Aside calls ∧ result = made := by
  cases made with
  | ok done =>
      obtain ⟨rfl, rfl⟩ := trace_pure_iff.mp h
      exact ⟨aside_nil, rfl⟩
  | error e =>
      obtain ⟨clear, _, rest, rfl, hclear, hrest⟩ := trace_bind_iff.mp h
      obtain ⟨rfl, rfl⟩ := trace_pure_iff.mp hrest
      rw [List.append_nil]
      exact ⟨aside_of_asks (asks_discard trivial fun _ => trivial) hclear, rfl⟩

/-- Building from nothing goes through all tasks, once everything is prepared. -/
theorem works_buildNew (h : (buildNew fixed location plan budget).Trace calls result) :
    (∃ e, result = .error e ∧ Aside calls ∧ Unprepared fixed location plan calls e) ∨
      ∃ interpreter, Chosen fixed plan interpreter calls ∧
        Works budget (createTask interpreter location :: installTasks location plan.requirements)
          calls result := by
  rw [buildNew] at h
  obtain ⟨clear, cleared, afterClear, rfl, hclear, hrest⟩ := trace_bind_iff.mp h
  obtain ⟨haside, hfail⟩ := prepared_removeIncomplete fixed plan hclear
  cases cleared with
  | error e =>
      obtain ⟨rfl, rfl⟩ := trace_pure_iff.mp hrest
      rw [List.append_nil]
      exact .inl ⟨e, rfl, haside, hfail e rfl⟩
  | ok done =>
      obtain ⟨make, created, afterCreate, rfl, hmake, hlast⟩ := trace_bind_iff.mp hrest
      rcases works_create hmake with ⟨e, rfl, haside', hfail'⟩ | ⟨interpreter, hchosen, hworks⟩
      · obtain ⟨hcleaned, rfl⟩ := aside_cleanUp (.error e) hlast
        refine .inl ⟨e, rfl, haside.append (haside'.append hcleaned), hfail'.mono (by simp)⟩
      · refine .inr ⟨interpreter, hchosen.mono (by simp), .aside_append haside ?_⟩
        cases created with
        | error e =>
            obtain ⟨hcleaned, rfl⟩ := aside_cleanUp (.error e) hlast
            exact (hworks.append_tasks _).append_aside hcleaned
        | ok done =>
            obtain ⟨work, made, cleanUp, rfl, hwork, hclean⟩ := trace_bind_iff.mp hlast
            obtain ⟨hcleaned, rfl⟩ := aside_cleanUp made hclean
            exact hworks.append ((works_install hwork).append_aside hcleaned)

/-! ### Builds -/

/-- A build looks at the clock and for the interpreter of the environment, and goes on by what it
finds. -/
theorem works_ensure {total : Duration}
    (h : (ensure fixed location plan total).Trace calls result) :
    ∃ start found rest,
      calls = ⟨.clock, start⟩ :: ⟨.isThere (Layout.interpreter location), found⟩ :: rest ∧
        if found then Works ⟨start, total⟩ (installTasks location plan.requirements) rest result
        else
          (∃ e, result = .error e ∧ Aside rest ∧ Unprepared fixed location plan rest e) ∨
            ∃ interpreter, Chosen fixed plan interpreter rest ∧
              Works ⟨start, total⟩
                (createTask interpreter location :: installTasks location plan.requirements)
                rest result := by
  rw [ensure] at h
  obtain ⟨start, afterClock, rfl, hclock⟩ := trace_request_bind_iff.mp h
  obtain ⟨found, rest, rfl, hrest⟩ := trace_request_bind_iff.mp hclock
  refine ⟨start, found, rest, rfl, ?_⟩
  cases found with
  | true => exact works_install hrest
  | false => exact works_buildNew hrest

/-- **The steps and the budget of a build**, for any answers.  A build looks at the clock and then
for the interpreter of the environment.  If that is there, the build goes through the tasks of
installing what is required.  If it is not, the build fails before any task, or goes through the
task of creating the environment first. -/
theorem staged_ensure {total : Duration}
    (h : (ensure fixed location plan total).Trace calls result) :
    ∃ start found rest,
      calls = ⟨.clock, start⟩ :: ⟨.isThere (Layout.interpreter location), found⟩ :: rest ∧
        if found then Staged ⟨start, total⟩ (installTasks location plan.requirements) rest result
        else
          (∃ e, result = .error e ∧ commands rest = [] ∧
            Unprepared fixed location plan rest e) ∨
            ∃ interpreter, Chosen fixed plan interpreter rest ∧
              Staged ⟨start, total⟩
                (createTask interpreter location :: installTasks location plan.requirements)
                rest result := by
  obtain ⟨start, found, rest, hcalls, hworks⟩ := works_ensure h
  refine ⟨start, found, rest, hcalls, ?_⟩
  cases found with
  | true => exact hworks.staged
  | false =>
      rcases hworks with ⟨e, hresult, haside, hfail⟩ | ⟨interpreter, hchosen, hworks⟩
      · exact .inl ⟨e, hresult, commands_of_aside haside, hfail⟩
      · exact .inr ⟨interpreter, hchosen, hworks.staged⟩

/-- An environment, and a plan for it that requires one package. -/
def tool : Path := .ofText "/envs/tool"

def toolPlan : ProvisionPlan := ⟨.compute "python3" {}, "python3", ["six"]⟩

/-- Answers to a build of an environment that is not there: every look at the clock is a second
after the one before, and all commands succeed but the one after the fourth look. -/
def toolAnswers : (request : Request) → Nat → request.Answer × Nat
  | .isThere _, seconds => (false, seconds)
  | .removeTree _, seconds => (.ok (), seconds)
  | .createDirectories _, seconds => (.ok (), seconds)
  | .findProgram name, seconds => (some (.ofText ("/usr/bin/" ++ name)), seconds)
  | .clock, seconds => (.ofSeconds seconds, seconds + 1)
  | .run _ _, seconds => (.ok (.ofEnded (.exited (if seconds = 4 then 1 else 0)) [] []), seconds)
  | .report _, seconds => ((), seconds)

/-- The calls of that build. -/
def toolCalls : List Call :=
  (ensure none tool toolPlan (.ofSeconds 10)).callsOf toolAnswers 0

/-- A build that runs all three commands and fails at the last one. -/
theorem staged_ensure_tool :
    (ensure none tool toolPlan (.ofSeconds 10)).Trace toolCalls
        (.error (.stepFailed "pip install" "exit code 1: ")) ∧
      (runs toolCalls).map Run.limit = [.ofSeconds 9, .ofSeconds 8, .ofSeconds 7] ∧
      ∃ interpreter, Staged ⟨.ofSeconds 0, .ofSeconds 10⟩
        (createTask interpreter tool :: installTasks tool ["six"]) (toolCalls.drop 2)
        (.error (.stepFailed "pip install" "exit code 1: ")) := by
  have htrace : (ensure none tool toolPlan (.ofSeconds 10)).Trace toolCalls
      (.error (.stepFailed "pip install" "exit code 1: ")) := by
    have hresult : ((ensure none tool toolPlan (.ofSeconds 10)).run toolAnswers 0).1 =
        .error (.stepFailed "pip install" "exit code 1: ") := by
      decide +kernel
    exact hresult ▸ Procedure.trace_run toolAnswers _ 0
  refine ⟨htrace, by decide +kernel, ?_⟩
  obtain ⟨start, found, rest, hcalls, hstaged⟩ := staged_ensure htrace
  have hform : toolCalls =
      ⟨.clock, .ofSeconds 0⟩ :: ⟨.isThere (Layout.interpreter tool), false⟩ :: toolCalls.drop 2 :=
    rfl
  have hcommands : (commands (toolCalls.drop 2)).length = 3 := by decide +kernel
  generalize toolCalls.drop 2 = others at hform hcommands ⊢
  rw [hform] at hcalls
  simp only [List.cons.injEq, Procedure.Call.mk.injEq, heq_eq_eq, true_and] at hcalls
  obtain ⟨rfl, rfl, rfl⟩ := hcalls
  rcases hstaged with ⟨_, _, hnone, _⟩ | ⟨interpreter, _, hstaged⟩
  · rw [hnone] at hcommands
    cases hcommands
  · exact ⟨interpreter, hstaged⟩

/-! ### The empty location -/

/-- A system with a file at a path and a program that succeeds. -/
def systemWith (path : String) : World :=
  { (default : World) with
    files := ⟨[(.ofText "/bin", .directory 0), (.ofText path, .file 1 ⟨[], 0⟩ false),
      (.ofText "/true", .program "true")], 2⟩ }

/-- A build at the empty location in that system, by that program. -/
def emptyBuild : Steps (Except ProvisionError Unit) :=
  ensure (some (.ofText "/true")) (.ofText "") ⟨.compute "python3" {}, "python3", []⟩
    (.ofSeconds 10)

/-- At the empty location an environment is created although `bin/python` is there, and none where
it is missing. -/
theorem not_createTask_iff :
    ((systemWith "/bin/python").pathExists (.ofText "bin/python") = true ∧
        commands (emptyBuild.callsOf handle (systemWith "/bin/python")) =
          [createCommand (.ofText "/true") (.ofText "")]) ∧
      (systemWith "/python3").pathExists (.ofText "bin/python") = false ∧
        commands (emptyBuild.callsOf handle (systemWith "/python3")) = [] ∧
        (emptyBuild.run handle (systemWith "/python3")).1 = .ok () := by
  decide +kernel

/-! ### Who creates an environment -/

/-- Installing creates nothing. -/
theorem filterMap_creator? {place : Path} {commands : List ChildCommand}
    (h : commands <+: (installTasks place requirements).map Task.command) :
    commands.filterMap (creator? location) = [] := by
  rw [List.filterMap_eq_nil_iff]
  intro command hcommand
  obtain ⟨task, htask, rfl⟩ := List.mem_map.mp (h.subset hcommand)
  unfold installTasks at htask
  split at htask
  · cases htask
  · simp only [List.mem_cons, List.not_mem_nil, or_false] at htask
    rcases htask with rfl | rfl <;> exact creator?_installCommand _ _

theorem creators_of_aside (h : Aside calls) : creators location calls = [] := by
  rw [creators, commands_of_aside h]
  rfl

/-- A new environment is created by the command of its task, without which the build does not
succeed. -/
theorem creators_of_works {place interpreter : Path}
    (h : Works budget (createTask interpreter place :: installTasks place requirements) calls
      result) :
    creators location calls = [] ∧ result ≠ .ok () ∨
      creators location calls = (creator? location (createCommand interpreter place)).toList := by
  rw [creators]
  rcases List.prefix_cons_iff.mp h.staged.inOrder with hnone | ⟨later, hcons, hlater⟩
  · refine .inl ⟨by rw [hnone]; rfl, fun hok => ?_⟩
    have hall := (h.staged.succeeds.mp hok).1
    rw [hnone] at hall
    cases hall
  · right
    rw [hcons, List.filterMap_cons, filterMap_creator? hlater]
    unfold createTask
    cases creator? location (createCommand interpreter place) <;> rfl

/-- Who creates an environment in a build: nobody where one is found, and otherwise nobody but the
interpreter that the plan names, without which the build does not succeed. -/
theorem creators_ensure {total : Duration}
    (h : (ensure none location plan total).Trace calls result) :
    ∃ found, ⟨.isThere (Layout.interpreter location), found⟩ ∈ calls ∧
      if found then creators location calls = []
      else creators location calls = [] ∧ result ≠ .ok () ∨
        ∃ interpreter, FirstFound (plan.interpreter :: interpreterNames) interpreter calls ∧
          creators location calls = [interpreter] := by
  obtain ⟨start, found, rest, rfl, hworks⟩ := works_ensure h
  refine ⟨found, by simp, ?_⟩
  change if found then creators location rest = []
    else creators location rest = [] ∧ result ≠ .ok () ∨ ∃ interpreter, FirstFound _ _ _ ∧
      creators location rest = [interpreter]
  cases found with
  | true => exact filterMap_creator? hworks.staged.inOrder
  | false =>
      rcases hworks with ⟨e, rfl, haside, _⟩ | ⟨interpreter, hchosen, hworks⟩
      · exact .inl ⟨creators_of_aside haside, nofun⟩
      · refine (creators_of_works hworks).imp_right fun hcreators => ⟨interpreter, ?_, ?_⟩
        · exact hchosen.firstFound.mono (by simp)
        · rw [hcreators, creator?_createCommand]
          rfl

/-- Wherever an environment is created, this is done by the interpreter that the plan names. -/
theorem firstFound_of_mem_creators {place : Path} {total : Duration}
    (h : (ensure none place plan total).Trace calls result) {creator : Path}
    (hmem : creator ∈ creators location calls) :
    FirstFound (plan.interpreter :: interpreterNames) creator calls := by
  obtain ⟨start, found, rest, rfl, hworks⟩ := works_ensure h
  change creator ∈ creators location rest at hmem
  cases found with
  | true =>
      rw [creators, filterMap_creator? hworks.staged.inOrder] at hmem
      cases hmem
  | false =>
      rcases hworks with ⟨e, _, haside, _⟩ | ⟨interpreter, hchosen, hworks⟩
      · rw [creators_of_aside haside] at hmem
        cases hmem
      · rcases creators_of_works hworks with ⟨hnone, _⟩ | hcreators
        · rw [hnone] at hmem
          cases hmem
        · rw [hcreators, Option.mem_toList, creator?, Option.ite_none_right_eq_some] at hmem
          obtain rfl : interpreter = creator := Option.some.inj hmem.2
          exact hchosen.firstFound.mono (by simp)

end Enclave.Venv
