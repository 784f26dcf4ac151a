import Enclave.Proofs.Provision.Traces

/-! # Tasks under one budget of time

A build has a list of tasks: to create the environment, unless it is found, and to install what is
required.  `Works` is how it goes through them, for any answers: before every task it looks at the
clock, and the command of the task is run in the time that is left, until one task has no time left
or fails.  So the commands are the first ones of the list, each runs after all before it have ended
with the exit code 0, their limits are what is left of one budget, and the error of a build belongs
to the task that it stopped at (`Staged`, `Works.staged`). -/

namespace Enclave.Venv

/-! ### Tasks and runs -/

/-- A step of a build with its command. -/
structure Task where
  step : Step
  command : ChildCommand

/-- The task of creating an environment. -/
def createTask (interpreter location : Path) : Task :=
  ⟨.create, createCommand interpreter location⟩

/-- The tasks of installing requirements. -/
def installTasks (location : Path) (requirements : List String) : List Task :=
  if requirements.isEmpty then []
  else [⟨.upgrade, installCommand location upgradePackages⟩,
    ⟨.install, installCommand location requirements⟩]

/-- A command that was run, its limit, and how that ended. -/
structure Run where
  command : ChildCommand
  limit : Duration
  ending : Except Explanation BoundedOutput

/-- Whether a command has ended in time with the exit code 0. -/
def Run.Succeeds (run : Run) : Prop :=
  ∃ output, run.ending = .ok output ∧ output.success = true

/-- The run that a call is. -/
def run? (call : Call) : Option Run :=
  match call with
  | ⟨.run command limit, ending⟩ => some ⟨command, limit, ending⟩
  | _ => none

/-- The commands that are run, with their limits and endings. -/
def runs (calls : List Call) : List Run :=
  calls.filterMap run?

theorem commands_eq_map_runs (calls : List Call) :
    commands calls = (runs calls).map Run.command := by
  have hcommand : command? = fun call => (run? call).map Run.command := by
    funext ⟨request, answer⟩
    cases request <;> rfl
  rw [commands, hcommand, runs, List.map_filterMap]

variable {calls front back after : List Call} {fixed : Option Path} {location : Path}
  {plan : ProvisionPlan} {budget : Budget} {task : Task} {tasks later : List Task}
  {requirements : List String} {result : Except ProvisionError Unit} {e : ProvisionError}
  {ending : Except Explanation BoundedOutput} {now : Duration}

theorem run?_of_isAside {call : Call} (h : call.request.IsAside) : run? call = none := by
  obtain ⟨request, answer⟩ := call
  cases request with
  | run command limit => cases h
  | _ => rfl

theorem runs_clock_cons (now : Duration) (calls : List Call) :
    runs (⟨.clock, now⟩ :: calls) = runs calls := rfl

theorem runs_run_cons (command : ChildCommand) (limit : Duration)
    (ending : Except Explanation BoundedOutput) (calls : List Call) :
    runs (⟨.run command limit, ending⟩ :: calls) = ⟨command, limit, ending⟩ :: runs calls := rfl

theorem runs_cons_of_isAside {call : Call} (h : call.request.IsAside) (calls : List Call) :
    runs (call :: calls) = runs calls := by
  unfold runs
  rw [List.filterMap_cons, run?_of_isAside h]

theorem runs_of_aside (h : Aside calls) : runs calls = [] := by
  unfold runs
  rw [List.filterMap_eq_nil_iff]
  exact fun call hcall => run?_of_isAside (h call hcall)

/-! ### Time -/

/-- Time that is left and the time that has gone by are the total. -/
theorem Budget.leftAt_add (h : (budget.leftAt now).isZero = false) :
    0 < (budget.leftAt now).nanos ∧
      (budget.leftAt now).nanos + (now.nanos - budget.start.nanos) = budget.total.nanos := by
  simp only [Duration.isZero, beq_eq_false_iff_ne] at h
  unfold Budget.leftAt Duration.remainder at h ⊢
  dsimp only at h ⊢
  omega

theorem Budget.total_le (h : (budget.leftAt now).isZero = true) :
    budget.total.nanos ≤ now.nanos - budget.start.nanos := by
  simp only [Duration.isZero, beq_iff_eq] at h
  unfold Budget.leftAt Duration.remainder at h
  dsimp only at h
  omega

/-! ### Going through tasks -/

/-- The error of a step whose command was run. -/
inductive Blames (budget : Budget) (step : Step) :
    Except Explanation BoundedOutput → ProvisionError → Prop
  | unstarted (explanation : Explanation) :
      Blames budget step (.error explanation) (.other explanation)
  | overdue {output : BoundedOutput} : output.timedOut = true →
      Blames budget step (.ok output) (.timedOut step.name budget.total)
  | unsuccessful {output : BoundedOutput} : output.timedOut = false → output.success = false →
      Blames budget step (.ok output) (.stepFailed step.name (failureDetail output))

/-- How the calls of a build go through its tasks.  Other calls may stand anywhere between two
tasks, and behind the last one. -/
inductive Works (budget : Budget) : List Task → List Call → Except ProvisionError Unit → Prop
  | done : Works budget [] [] (.ok ())
  /-- A call that has nothing to do with tasks. -/
  | aside {tasks : List Task} {call : Call} {calls : List Call}
      {result : Except ProvisionError Unit} : call.request.IsAside →
      Works budget tasks calls result → Works budget tasks (call :: calls) result
  /-- No time is left for a task, so its command is not run. -/
  | late {task : Task} {tasks : List Task} {now : Duration} {after : List Call} :
      (budget.leftAt now).isZero = true → Aside after →
      Works budget (task :: tasks) (⟨.clock, now⟩ :: after)
        (.error (.timedOut task.step.name budget.total))
  /-- The command of a task fails, and no task follows. -/
  | failed {task : Task} {tasks : List Task} {now : Duration}
      {ending : Except Explanation BoundedOutput} {e : ProvisionError} {after : List Call} :
      (budget.leftAt now).isZero = false → Blames budget task.step ending e → Aside after →
      Works budget (task :: tasks)
        (⟨.clock, now⟩ :: ⟨.run task.command (budget.leftAt now), ending⟩ :: after) (.error e)
  /-- The command of a task ends with the exit code 0, and the next task follows. -/
  | next {task : Task} {tasks : List Task} {now : Duration} {output : BoundedOutput}
      {calls : List Call} {result : Except ProvisionError Unit} :
      (budget.leftAt now).isZero = false → output.success = true →
      Works budget tasks calls result →
      Works budget (task :: tasks)
        (⟨.clock, now⟩ :: ⟨.run task.command (budget.leftAt now), .ok output⟩ :: calls) result

namespace Works

theorem aside_append (h : Aside front) (hworks : Works budget tasks calls result) :
    Works budget tasks (front ++ calls) result := by
  induction front with
  | nil => exact hworks
  | cons call front ih =>
      exact .aside (h call List.mem_cons_self)
        (ih fun other hother => h other (List.mem_cons_of_mem _ hother))

theorem append_aside (hworks : Works budget tasks calls result) (h : Aside back) :
    Works budget tasks (calls ++ back) result := by
  induction hworks with
  | done =>
      rw [List.nil_append, ← List.append_nil back]
      exact aside_append h .done
  | aside hcall _ ih => exact .aside hcall ih
  | late hlate hafter => exact .late hlate (hafter.append h)
  | failed htime hblames hafter => exact .failed htime hblames (hafter.append h)
  | next htime hsuccess _ ih => exact .next htime hsuccess ih

/-- A build that has failed leaves the tasks that follow. -/
theorem append_tasks (h : Works budget tasks calls (.error e)) (later : List Task) :
    Works budget (tasks ++ later) calls (.error e) := by
  generalize hresult : Except.error e = result at h
  induction h with
  | done => cases hresult
  | aside hcall _ ih => exact .aside hcall (ih hresult)
  | late hlate hafter =>
      rw [List.cons_append]
      exact .late hlate hafter
  | failed htime hblames hafter =>
      rw [List.cons_append]
      exact .failed htime hblames hafter
  | next htime hsuccess _ ih => exact .next htime hsuccess (ih hresult)

/-- Tasks that have been done are followed by others. -/
theorem append (h : Works budget tasks front (.ok ())) (h' : Works budget later back result) :
    Works budget (tasks ++ later) (front ++ back) result := by
  generalize hresult : Except.ok () = before at h
  induction h with
  | done => exact h'
  | aside hcall _ ih => exact .aside hcall (ih hresult)
  | late => cases hresult
  | failed => cases hresult
  | next htime hsuccess _ ih => exact .next htime hsuccess (ih hresult)

/-- The limit of a command is what is left when the clock is looked at, directly before. -/
theorem limited (h : Works budget tasks calls result) {command : ChildCommand} {limit : Duration}
    (hcalls : calls = front ++ ⟨.run command limit, ending⟩ :: back) :
    ∃ before now, front = before ++ [⟨.clock, now⟩] ∧
      limit = budget.leftAt now ∧ limit.isZero = false := by
  have hnone : ∀ {calls : List Call}, Aside calls →
      (⟨.run command limit, ending⟩ : Call) ∉ calls := fun haside hmem => haside _ hmem
  -- The command is that of the first task, which stands right behind a look at the clock, or of a
  -- later one.  Behind a task that was stopped at there is none.
  induction h generalizing front with
  | done => exact absurd hcalls (by simp)
  | aside hcall _ ih =>
      cases front with
      | nil =>
          obtain ⟨rfl, _⟩ := List.cons.inj hcalls
          cases hcall
      | cons first front =>
          obtain ⟨before, now, rfl, hlimit⟩ := ih (List.cons.inj hcalls).2
          exact ⟨first :: before, now, rfl, hlimit⟩
  | late _ hafter =>
      cases front with
      | nil => cases hcalls
      | cons first front =>
          obtain ⟨_, hrest⟩ := List.cons.inj hcalls
          exact absurd (by simp [hrest]) (hnone hafter)
  | @failed _ _ now _ _ _ htime _ hafter =>
      rcases front with _ | ⟨first, _ | ⟨second, front⟩⟩
      · cases hcalls
      · cases hcalls
        exact ⟨[], now, rfl, rfl, htime⟩
      · obtain ⟨_, hrest⟩ := List.cons.inj (List.cons.inj hcalls).2
        exact absurd (by simp [hrest]) (hnone hafter)
  | @next _ _ now _ _ _ htime _ _ ih =>
      rcases front with _ | ⟨first, _ | ⟨second, front⟩⟩
      · cases hcalls
      · cases hcalls
        exact ⟨[], now, rfl, rfl, htime⟩
      · obtain ⟨_, hrest⟩ := List.cons.inj (List.cons.inj hcalls).2
        obtain ⟨before, now', rfl, hlimit⟩ := ih hrest
        exact ⟨first :: second :: before, now', rfl, hlimit⟩

end Works

/-- How a build stops at a task after some runs: no time is left for the task, or its command is run
and fails. -/
def StopsAt (budget : Budget) (task : Task) (earlier : List Run) (calls : List Call)
    (e : ProvisionError) : Prop :=
  (runs calls = earlier ∧ e = .timedOut task.step.name budget.total ∧
      ∃ now, ⟨.clock, now⟩ ∈ calls ∧ budget.total.nanos ≤ now.nanos - budget.start.nanos) ∨
    ∃ limit ending, runs calls = earlier ++ [⟨task.command, limit, ending⟩] ∧
      Blames budget task.step ending e

/-- Whether tasks have been done before one of them: the commands of the tasks in front of it were
run, and each has ended with the exit code 0. -/
structure DoneBefore (tasks : List Task) (task : Task) (earlier : List Run) : Prop where
  split : ∃ front back, tasks = front ++ task :: back ∧
    earlier.map Run.command = front.map Task.command
  succeed : ∀ run ∈ earlier, run.Succeeds

/-- **A build in steps.**  What is known of a build that goes through its tasks under a budget. -/
structure Staged (budget : Budget) (tasks : List Task) (calls : List Call)
    (result : Except ProvisionError Unit) : Prop where
  /-- The commands that are run are the first ones of the tasks, in their order. -/
  inOrder : commands calls <+: tasks.map Task.command
  /-- A command is run after all before it have ended with the exit code 0. -/
  guarded : ∀ front run back, runs calls = front ++ run :: back →
    ∀ earlier ∈ front, earlier.Succeeds
  /-- The limit of a command is the total without the time that has gone by at the look at the clock
  directly before, and there is some time left. -/
  limited : ∀ front command limit ending back,
    calls = front ++ ⟨.run command limit, ending⟩ :: back →
      ∃ before now, front = before ++ [⟨.clock, now⟩] ∧ 0 < limit.nanos ∧
        limit.nanos + (now.nanos - budget.start.nanos) = budget.total.nanos
  /-- A build succeeds exactly if the commands of all tasks were run and ended with the exit code
  0. -/
  succeeds : result = .ok () ↔
    commands calls = tasks.map Task.command ∧ ∀ run ∈ runs calls, run.Succeeds
  /-- The error of a build is that of the task that it stopped at. -/
  stops : ∀ e, result = .error e →
    ∃ task earlier, DoneBefore tasks task earlier ∧ StopsAt budget task earlier calls e

namespace Works

/-- A build does all its tasks, or those before the one that it stops at. -/
theorem progress (h : Works budget tasks calls result) :
    (result = .ok () ∧ commands calls = tasks.map Task.command ∧
        ∀ run ∈ runs calls, run.Succeeds) ∨
      ∃ e task earlier, result = .error e ∧ DoneBefore tasks task earlier ∧
        StopsAt budget task earlier calls e := by
  induction h with
  | done => exact .inl ⟨rfl, rfl, by simp [runs]⟩
  | @aside tasks call calls result hcall _ ih =>
      have hruns := runs_cons_of_isAside hcall calls
      rcases ih with hall | ⟨e, task, earlier, hresult, hdone, hstop⟩
      · left
        rwa [hruns, commands_eq_map_runs, hruns, ← commands_eq_map_runs]
      · refine .inr ⟨e, task, earlier, hresult, hdone, ?_⟩
        unfold StopsAt at hstop ⊢
        rw [hruns]
        refine hstop.imp_left fun ⟨hearlier, he, now, hmem, htotal⟩ => ?_
        exact ⟨hearlier, he, now, List.mem_cons_of_mem _ hmem, htotal⟩
  | @late task tasks now after hlate hafter =>
      refine .inr ⟨_, task, [], rfl, ⟨⟨[], tasks, rfl, rfl⟩, nofun⟩, .inl ⟨?_, rfl, now, ?_, ?_⟩⟩
      · rw [runs_clock_cons, runs_of_aside hafter]
      · exact List.mem_cons_self
      · exact Budget.total_le hlate
  | @failed task tasks now ending e after _ hblames hafter =>
      refine .inr ⟨e, task, [], rfl, ⟨⟨[], tasks, rfl, rfl⟩, nofun⟩,
        .inr ⟨budget.leftAt now, ending, ?_, hblames⟩⟩
      rw [runs_clock_cons, runs_run_cons, runs_of_aside hafter]
      rfl
  | @next task tasks now output calls result _ hsuccess _ ih =>
      have hfirst : Run.Succeeds ⟨task.command, budget.leftAt now, .ok output⟩ :=
        ⟨output, rfl, hsuccess⟩
      rcases ih with ⟨hresult, hcommands, hall⟩ |
        ⟨e, stopped, earlier, hresult, ⟨⟨front, back, rfl, hfront⟩, hall⟩, hstop⟩
      · refine .inl ⟨hresult, ?_, ?_⟩
        · rw [List.map_cons, ← hcommands]
          rfl
        · rw [runs_clock_cons, runs_run_cons]
          exact List.forall_mem_cons.mpr ⟨hfirst, hall⟩
      · refine .inr ⟨e, stopped, ⟨task.command, budget.leftAt now, .ok output⟩ :: earlier, hresult,
          ⟨⟨task :: front, back, rfl, ?_⟩, List.forall_mem_cons.mpr ⟨hfirst, hall⟩⟩, ?_⟩
        · rw [List.map_cons, List.map_cons, hfront]
        · unfold StopsAt at hstop ⊢
          rw [runs_clock_cons, runs_run_cons]
          rcases hstop with ⟨hearlier, he, later, hmem, htotal⟩ | ⟨limit, ending, hruns, hblames⟩
          · refine .inl ⟨by rw [hearlier], he, later, ?_, htotal⟩
            exact List.mem_cons_of_mem _ (List.mem_cons_of_mem _ hmem)
          · exact .inr ⟨limit, ending, by rw [hruns, List.cons_append], hblames⟩

end Works

theorem Blames.not_succeeds {step : Step} (h : Blames budget step ending e)
    {command : ChildCommand} {limit : Duration} : ¬ Run.Succeeds ⟨command, limit, ending⟩ := by
  rintro ⟨output, hending, hsuccess⟩
  cases h with
  | unstarted => cases hending
  | overdue hover =>
      cases hending
      simp [BoundedOutput.success, hover] at hsuccess
  | unsuccessful _ hfail =>
      cases hending
      rw [hfail] at hsuccess
      cases hsuccess

/-- The commands that were run by a build that has stopped. -/
theorem StopsAt.commands {earlier : List Run} (h : StopsAt budget task earlier calls e)
    (hdone : DoneBefore tasks task earlier) :
    commands calls <+: tasks.map Task.command ∧
      ¬ (commands calls = tasks.map Task.command ∧ ∀ run ∈ runs calls, run.Succeeds) := by
  obtain ⟨⟨front, back, rfl, hfront⟩, _⟩ := hdone
  rw [commands_eq_map_runs, List.map_append, List.map_cons]
  rcases h with ⟨hruns, _⟩ | ⟨limit, ending, hruns, hblames⟩
  · rw [hruns, hfront]
    refine ⟨List.prefix_append .., fun ⟨heq, _⟩ => ?_⟩
    simp at heq
  · rw [hruns, List.map_append, hfront]
    refine ⟨(List.prefix_append_right_inj _).mpr ⟨back.map Task.command, rfl⟩, fun ⟨_, hall⟩ => ?_⟩
    exact hblames.not_succeeds (hall _ (List.mem_append_right _ List.mem_cons_self))

/-- **Going through tasks.**  A build that goes through its tasks does so in steps. -/
theorem Works.staged (h : Works budget tasks calls result) :
    Staged budget tasks calls result where
  inOrder := by
    rcases h.progress with ⟨_, hcommands, _⟩ | ⟨e, task, earlier, _, hdone, hstop⟩
    · exact hcommands ▸ List.prefix_rfl
    · exact (hstop.commands hdone).1
  guarded := by
    intro front run back hruns other hother
    rcases h.progress with ⟨_, _, hall⟩ | ⟨e, task, earlier, _, hdone, hstop⟩
    · exact hall other (by simp [hruns, hother])
    · apply hdone.succeed
      rcases hstop with ⟨hearlier, _⟩ | ⟨limit, ending, hearlier, _⟩
      · rw [← hearlier, hruns]
        exact List.mem_append_left _ hother
      · -- Only the last run may fail, and it is not in front of any.
        rw [hruns] at hearlier
        rcases List.eq_nil_or_concat back with rfl | ⟨others, last, rfl⟩
        · exact (List.append_inj' hearlier rfl).1 ▸ hother
        · have hsplit : (front ++ run :: others) ++ [last] =
              earlier ++ [⟨task.command, limit, ending⟩] := by
            simpa using hearlier
          exact (List.append_inj' hsplit rfl).1 ▸ List.mem_append_left _ hother
  limited := by
    intro front command limit ending back hcalls
    obtain ⟨before, now, hfront, rfl, htime⟩ := h.limited hcalls
    obtain ⟨hpos, htotal⟩ := Budget.leftAt_add htime
    exact ⟨before, now, hfront, hpos, htotal⟩
  succeeds := by
    rcases h.progress with ⟨hresult, hall⟩ | ⟨e, task, earlier, rfl, hdone, hstop⟩
    · exact iff_of_true hresult hall
    · exact iff_of_false nofun (hstop.commands hdone).2
  stops := by
    intro e hresult
    rcases h.progress with ⟨hok, _⟩ | ⟨e', task, earlier, herror, hdone, hstop⟩
    · rw [hresult] at hok
      cases hok
    · rw [hresult] at herror
      cases herror
      exact ⟨task, earlier, hdone, hstop⟩

end Enclave.Venv
