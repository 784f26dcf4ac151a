import Enclave.Proofs.Activation.Contract
import Enclave.Proofs.Activation.Records
import Enclave.Proofs.Provision.Budget

/-! # Who has created an environment

The interpreter that is declared is part of what decides whether an environment is built again, but
not of what decides whether it is created again: a build that finds an environment only installs into
it.  So after a build the environment has the declared interpreter exactly if none was found or if
the one that was found had it already (`creator_iff`), and an activation that reuses an environment
leaves it with the interpreter that it has (`creator?_of_reused`).  What is built has the declared
interpreter in every run in which this stays the same (`Steady.creator?_of_rebuilt`), but not if it
changes while the environment is there: then the record names an interpreter that has not created
the environment (`creator_of_changed`).

The calls of the provisioner are remembered here, which changes nothing else (`activate_recorder`). -/

namespace Enclave

open Activation (Request Steps Outcome operations)

/-! ### Remembering calls -/

namespace Venv

/-- Carries out a procedure and remembers its calls. -/
def remembered {α : Type} (steps : Steps α) (state : World × List Call) :
    α × (World × List Call) :=
  ((perform steps state.1).1, (perform steps state.1).2, state.2 ++ steps.callsOf handle state.1)

/-- The provisioner that builds virtual environments with the interpreters that the plans name, and
remembers the calls of its operations. -/
def recorder : Provisioner (List Call) where
  isPresent location state :=
    ((perform (isPresent location) state.1).1, (perform (isPresent location) state.1).2, state.2)
  ensure location plan timeout := remembered (ensure none location plan timeout)
  destroy location := remembered (destroy location)

variable {α Memory : Type}

theorem performBeside_forget (steps : Steps α) (state : World × List Call) :
    performBeside steps (state.1, ()) =
      ((remembered steps state).1, (remembered steps state).2.1, ()) := rfl

theorem onWorld_memory (operation : World → α × World) (state : World × Memory) :
    (Activator.onWorld operation state).2.2 = state.2 := rfl

theorem onWorld_forget (operation : World → α × World) (state : World × Memory) :
    Activator.onWorld operation (state.1, ()) = ((Activator.onWorld operation state).1,
      (Activator.onWorld operation state).2.1, ()) := rfl

/-- Remembering changes nothing else. -/
theorem activate_recorder (activator : Activator) (now : Instant) (context : ResolutionContext)
    (request : ActivationRequest) (state : World × List Call) :
    activator.activate (provisioner none) now context request (state.1, ()) =
      ((activator.activate recorder now context request state).1,
        (activator.activate recorder now context request state).2.1, ()) := by
  have hforget : (Activation.activate activator.settings (Activator.isQuiet state.1) context
      request).run (Activator.handle activator.settings (provisioner none) now) (state.1, ()) = _ :=
    Procedure.run_forget (Activator.handle activator.settings recorder now)
      (fun state => (state.1, ())) (fun asked state => by
        cases asked with
        | isPresent location => exact performBeside_forget (isPresent location) state
        | ensure location plan timeout =>
            exact performBeside_forget (ensure none location plan timeout) state
        | destroy location => exact performBeside_forget (destroy location) state
        | _ =>
            simp only [Activator.handle]
            exact onWorld_forget _ state) _ state
  rw [Activator.activate, Activator.activate, hforget]

end Venv

/-- The calls that an activation's calls to its provisioner come to. -/
inductive Records : List Activation.Call → List Venv.Call → Prop
  | nil : Records [] []
  | ensure {location : Path} {plan : ProvisionPlan} {timeout : Duration}
      {answer : Except ProvisionError Unit} {made later : List Venv.Call}
      {calls : List Activation.Call} :
      (Venv.ensure none location plan timeout).Trace made answer → Records calls later →
      Records (⟨.ensure location plan timeout, answer⟩ :: calls) (made ++ later)
  | destroy {location : Path} {answer : Except ProvisionError Unit} {made later : List Venv.Call}
      {calls : List Activation.Call} :
      (Venv.destroy location).Trace made answer → Records calls later →
      Records (⟨.destroy location, answer⟩ :: calls) (made ++ later)
  | other {call : Activation.Call} {calls : List Activation.Call} {later : List Venv.Call} :
      call.request.isOperation = false → Records calls later → Records (call :: calls) later

variable {calls : List Activation.Call} {made : List Venv.Call} {location path : Path}

/-- The calls of a request are remembered. -/
theorem exists_records_cons (settings : ActivatorSettings) (now : Instant) (request : Request)
    (moment : Moment (List Venv.Call)) :
    ∃ made,
      (Activator.watch settings Venv.recorder now request moment).2.1.2 = moment.1.2 ++ made ∧
      ∀ calls later, Records calls later → Records
        (⟨request, (Activator.watch settings Venv.recorder now request moment).1⟩ :: calls)
        (made ++ later) := by
  cases request with
  | ensure location plan timeout =>
      exact ⟨_, rfl, fun _ _ hlater => .ensure (Procedure.trace_run Venv.handle _ _) hlater⟩
  | destroy location =>
      exact ⟨_, rfl, fun _ _ hlater => .destroy (Procedure.trace_run Venv.handle _ _) hlater⟩
  | isPresent location =>
      exact ⟨[], (List.append_nil _).symm, fun _ _ hlater => .other rfl hlater⟩
  | _ =>
      refine ⟨[], ?_, fun _ _ hlater => .other rfl hlater⟩
      rw [Procedure.watched_state, Activator.handle, Venv.onWorld_memory, List.append_nil]

/-- The calls of a run are remembered. -/
theorem exists_records {α : Type} (settings : ActivatorSettings) (now : Instant) (p : Steps α)
    (moment : Moment (List Venv.Call)) :
    ∃ made, Records (p.callsOf (Activator.watch settings Venv.recorder now) moment) made ∧
      (p.run (Activator.watch settings Venv.recorder now) moment).2.1.2 = moment.1.2 ++ made := by
  induction p generalizing moment with
  | done value => exact ⟨[], .nil, (List.append_nil _).symm⟩
  | ask request next ih =>
      obtain ⟨first, hfirst, hrecords⟩ := exists_records_cons settings now request moment
      obtain ⟨later, hlater, hmemory⟩ :=
        ih (Activator.watch settings Venv.recorder now request moment).1
          (Activator.watch settings Venv.recorder now request moment).2
      refine ⟨first ++ later, hrecords _ _ hlater, ?_⟩
      rw [← List.append_assoc, ← hfirst]
      exact hmemory

/-- Only operations come to calls that are remembered. -/
theorem Records.operations (h : Records calls made) : Records (operations calls) made := by
  induction h with
  | nil => exact .nil
  | ensure htrace _ ih => exact .ensure htrace ih
  | destroy htrace _ ih => exact .destroy htrace ih
  | @other call calls later hother _ ih =>
      rw [Activation.operations, List.filter_cons_of_neg (by simp [hother])]
      exact ih

theorem Records.eq_nil (h : Records [] made) : made = [] := by
  cases h
  rfl

/-- What is remembered of an environment that was asked for. -/
theorem Records.of_ensure {plan : ProvisionPlan} {timeout : Duration}
    {answer : Except ProvisionError Unit}
    (h : Records [⟨.ensure location plan timeout, answer⟩] made) :
    (Venv.ensure none location plan timeout).Trace made answer := by
  cases h with
  | ensure htrace hnil =>
      cases hnil
      rwa [List.append_nil]
  | other hother => cases hother

/-- What is remembered of an environment that was destroyed. -/
theorem Records.of_destroy {answer : Except ProvisionError Unit}
    (h : Records (⟨.destroy location, answer⟩ :: calls) made) :
    ∃ front back, made = front ++ back ∧ (Venv.destroy location).Trace front answer ∧
      Records calls back := by
  cases h with
  | destroy htrace hlater => exact ⟨_, _, rfl, htrace, hlater⟩
  | other hother => cases hother

/-- Every environment is created by the interpreter that is named when it is asked for. -/
theorem Records.firstFound {name : String} (h : Records calls made)
    (hnames : ∀ place plan timeout answer, ⟨.ensure place plan timeout, answer⟩ ∈ calls →
      plan.interpreter = name) {creator : Path} (hmem : creator ∈ Venv.creators location made) :
    Venv.FirstFound (name :: Venv.interpreterNames) creator made := by
  induction h with
  | nil => cases hmem
  | @ensure place plan timeout answer made later calls htrace _ ih =>
      rw [Venv.creators_append] at hmem
      rcases List.mem_append.mp hmem with hmade | hlater
      · rw [← hnames place plan timeout answer List.mem_cons_self]
        exact (Venv.firstFound_of_mem_creators htrace hmade).mono (List.subset_append_left ..)
      · exact (ih (fun place plan timeout answer hcall => hnames place plan timeout answer
          (List.mem_cons_of_mem _ hcall)) hlater).mono (List.subset_append_right ..)
  | @destroy place answer made later calls htrace _ ih =>
      rw [Venv.creators_append, Venv.creators_of_aside (Venv.aside_destroy htrace)] at hmem
      exact (ih (fun place plan timeout answer hcall => hnames place plan timeout answer
        (List.mem_cons_of_mem _ hcall)) hmem).mono (List.subset_append_right ..)
  | other _ _ ih =>
      exact ih (fun place plan timeout answer hcall => hnames place plan timeout answer
        (List.mem_cons_of_mem _ hcall)) hmem

/-! ### Builds -/

namespace System

variable {system : System (List Venv.Call)} {now : Instant} {request : ActivationRequest}
  {activation : Activation}

/-- The operations of a success that was rebuilt: it asked for its environment, for what is declared,
and had destroyed it before at most. -/
theorem exists_ensure_of_rebuilt {settings : ActivatorSettings}
    {outcome : Outcome} (hcontract : Activation.Contract settings request calls outcome)
    {success : Activation.Success} (hresult : outcome.result = .ok success)
    (hrebuilt : success.rebuilt = true) (hlocation : success.location = some location) :
    ∃ plan : ProvisionPlan, plan.interpreter = settings.interpreter ∧
      (operations calls = [⟨.ensure location plan settings.provisionTimeout, .ok ()⟩] ∨
        operations calls = [⟨.destroy location, .ok ()⟩,
          ⟨.ensure location plan settings.provisionTimeout, .ok ()⟩]) := by
  obtain ⟨place, plan, timeout, hensure⟩ := (hcontract.rebuilt success hresult).mp hrebuilt
  have hsome : operations calls ≠ [] := List.ne_nil_of_mem (Activation.mem_operations.mpr hensure)
  have hmode : request.descriptor.mode = .isolated := by
    cases hmode : request.descriptor.mode with
    | system => exact absurd (hcontract.untouched (.inl hmode)) hsome
    | isolated => rfl
  obtain ⟨found, wanted, hfound, _, hdeclares, habout, _, halways⟩ :=
    hcontract.succeeded success hresult hmode
  obtain rfl : location = found := Option.some.inj (hlocation.symm.trans hfound)
  cases hpolicy : request.policy with
  | never => exact absurd (hcontract.untouched (.inr hpolicy)) hsome
  | always =>
      obtain ⟨requirements, _, rfl⟩ := hdeclares
      exact ⟨_, rfl, .inr (halways hpolicy)⟩
  | smart =>
      have hmem := Activation.mem_operations.mpr hensure
      obtain ⟨rfl, requirements, _, rfl⟩ := hcontract.declared _ _ _ _ hensure
      have hplace := habout _ hmem
      simp only [reduceCtorEq, Request.ensure.injEq, false_or] at hplace
      obtain ⟨_, _, rfl, rfl, rfl⟩ := hplace
      obtain hnone | ⟨_, _, _, hone⟩ := hcontract.smart hpolicy
      · exact absurd hnone hsome
      · rw [hone] at hmem
        cases List.mem_singleton.mp hmem
        exact ⟨_, rfl, .inl hone⟩

/-- The calls of the provisioner in an activation. -/
def callsMade (system : System (List Venv.Call)) (now : Instant) (request : ActivationRequest) :
    List Venv.Call :=
  (system.activate Venv.recorder now request).2.moment.1.2.drop system.moment.1.2.length

/-- The calls of an activation to its provisioner are remembered. -/
theorem exists_trace (system : System (List Venv.Call)) (now : Instant)
    (request : ActivationRequest) :
    (system.activate Venv.recorder now request).2.moment.1.2 =
        system.moment.1.2 ++ system.callsMade now request ∧
      ∃ calls, Records calls (system.callsMade now request) ∧
        (system.steps request).Trace calls
          ((system.steps request).run
            (Activator.watch system.activator.settings Venv.recorder now) system.moment).1 := by
  obtain ⟨made, hrecords, hmemory⟩ := exists_records system.activator.settings now
    (system.steps request) system.moment
  have hmade : system.callsMade now request = made :=
    (congrArg (List.drop system.moment.1.2.length) hmemory).trans List.drop_left
  rw [hmade]
  exact ⟨hmemory, _, hrecords, Procedure.trace_run _ _ _⟩

/-- An activation keeps its contract, and its calls to the provisioner are remembered. -/
theorem exists_contract (system : System (List Venv.Call)) (now : Instant)
    (request : ActivationRequest) :
    (system.activate Venv.recorder now request).2.moment.1.2 =
        system.moment.1.2 ++ system.callsMade now request ∧
      ∃ calls, Records calls (system.callsMade now request) ∧
        Activation.Contract system.activator.settings request calls
          ((system.steps request).run
            (Activator.watch system.activator.settings Venv.recorder now) system.moment).1 := by
  obtain ⟨hmemory, calls, hrecords, htrace⟩ := system.exists_trace now request
  exact ⟨hmemory, calls, hrecords, Activation.contract_of_trace htrace⟩

/-- An activation that reuses an environment makes no calls at all. -/
theorem callsMade_of_reused
    (hresult : (system.activate Venv.recorder now request).1.result = .ok activation)
    (hreused : activation.rebuilt = false) : system.callsMade now request = [] := by
  obtain ⟨success, hok, _, _, hsame⟩ := exists_success hresult
  obtain ⟨_, calls, hrecords, htrace⟩ := system.exists_trace now request
  have hnone := Activation.operations_of_reused htrace hok (hsame.trans hreused)
  exact (hnone ▸ hrecords.operations).eq_nil

/-- Who creates an environment: an activation that builds one either finds one and creates none, or
creates one with the interpreter that is declared. -/
theorem creators_of_rebuilt
    (hresult : (system.activate Venv.recorder now request).1.result = .ok activation)
    (hlocation : activation.location = some location) (hrebuilt : activation.rebuilt = true) :
    ∃ found, ⟨.isThere (Layout.interpreter location), found⟩ ∈ system.callsMade now request ∧
      if found then Venv.creators location (system.callsMade now request) = []
      else ∃ interpreter,
        Venv.creators location (system.callsMade now request) = [interpreter] ∧
        Venv.FirstFound (system.activator.settings.interpreter :: Venv.interpreterNames)
          interpreter (system.callsMade now request) := by
  obtain ⟨success, hok, hplace, _, hsame⟩ := exists_success hresult
  obtain ⟨_, calls, hrecords, hcontract⟩ := system.exists_contract now request
  obtain ⟨plan, hinterpreter, hoperations⟩ := exists_ensure_of_rebuilt hcontract hok
    (hsame.trans hrebuilt) (hplace.trans hlocation)
  generalize system.callsMade now request = made at hrecords
  have hlast : ∃ front back, made = front ++ back ∧ Venv.creators location front = [] ∧
      (Venv.ensure none location plan system.activator.settings.provisionTimeout).Trace back
        (.ok ()) := by
    have hmade := hrecords.operations
    rcases hoperations with hone | htwo
    · rw [hone] at hmade
      exact ⟨[], made, rfl, rfl, hmade.of_ensure⟩
    · rw [htwo] at hmade
      obtain ⟨front, back, rfl, hdestroy, hback⟩ := hmade.of_destroy
      refine ⟨front, back, rfl, ?_, hback.of_ensure⟩
      exact Venv.creators_of_aside (Venv.aside_destroy hdestroy)
  obtain ⟨front, back, rfl, hfront, htrace⟩ := hlast
  obtain ⟨found, hfound, hcreators⟩ := Venv.creators_ensure htrace
  refine ⟨found, List.mem_append_right _ hfound, ?_⟩
  rw [Venv.creators_append, hfront, List.nil_append]
  cases found with
  | true => exact hcreators
  | false =>
      obtain ⟨_, hfail⟩ | ⟨interpreter, hfirst, hone⟩ := hcreators
      · exact absurd rfl hfail
      · rw [hinterpreter] at hfirst
        exact ⟨interpreter, hone, hfirst.mono (List.subset_append_right ..)⟩

/-- The interpreter that has last created an environment at a location. -/
def creator? (system : System (List Venv.Call)) (location : Path) : Option Path :=
  (Venv.creators location system.moment.1.2).getLast?

/-- Whether the declared interpreter denotes a program whenever it is looked for in an activation. -/
def Resolves (system : System (List Venv.Call)) (now : Instant) (request : ActivationRequest)
    (path : Path) : Prop :=
  ∀ answer, ⟨.findProgram system.activator.settings.interpreter, answer⟩ ∈
    system.callsMade now request → answer = some path

/-- An activation that reuses an environment leaves the last creator of every environment. -/
theorem creator?_of_reused
    (hresult : (system.activate Venv.recorder now request).1.result = .ok activation)
    (hreused : activation.rebuilt = false) (location : Path) :
    (system.activate Venv.recorder now request).2.creator? location =
      system.creator? location := by
  rw [creator?, creator?, (system.exists_trace now request).1,
    callsMade_of_reused hresult hreused, List.append_nil]

/-- After a build the last creator of an environment is the one before where an environment was
found, and the declared interpreter otherwise. -/
theorem creator?_of_rebuilt
    (hresult : (system.activate Venv.recorder now request).1.result = .ok activation)
    (hlocation : activation.location = some location) (hrebuilt : activation.rebuilt = true)
    (hresolves : system.Resolves now request path) :
    ∃ found, ⟨.isThere (Layout.interpreter location), found⟩ ∈ system.callsMade now request ∧
      (system.activate Venv.recorder now request).2.creator? location =
        if found then system.creator? location else some path := by
  obtain ⟨found, hfound, hcreators⟩ := creators_of_rebuilt hresult hlocation hrebuilt
  refine ⟨found, hfound, ?_⟩
  rw [creator?, creator?, (system.exists_contract now request).1, Venv.creators_append]
  cases found with
  | true =>
      rw [show Venv.creators location (system.callsMade now request) = [] from hcreators,
        List.append_nil]
      rfl
  | false =>
      obtain ⟨interpreter, hone, hfirst⟩ := hcreators
      rw [hone, List.getLast?_concat, hfirst.eq_of_resolves hresolves]
      rfl

/-- **When a built environment has the declared interpreter.**  If the declared interpreter denotes
one program, then after an activation that was rebuilt this program has created the environment
exactly if no environment was found or it had created the one that was found. -/
theorem creator_iff
    (hresult : (system.activate Venv.recorder now request).1.result = .ok activation)
    (hlocation : activation.location = some location) (hrebuilt : activation.rebuilt = true)
    (hresolves : system.Resolves now request path) :
    ∃ found, ⟨.isThere (Layout.interpreter location), found⟩ ∈ system.callsMade now request ∧
      ((system.activate Venv.recorder now request).2.creator? location = some path ↔
        (found = true → system.creator? location = some path)) := by
  obtain ⟨found, hfound, hcreator⟩ := creator?_of_rebuilt hresult hlocation hrebuilt hresolves
  refine ⟨found, hfound, ?_⟩
  rw [hcreator]
  cases found <;> simp

/-! ### Runs -/

/-- In an activation an environment is created by the declared interpreter only. -/
theorem Resolves.eq_of_mem_creators (h : system.Resolves now request path) {creator : Path}
    (hmem : creator ∈ Venv.creators location (system.callsMade now request)) : creator = path := by
  obtain ⟨_, calls, hrecords, hcontract⟩ := system.exists_contract now request
  refine (hrecords.firstFound (fun place plan timeout answer hcall => ?_) hmem).eq_of_resolves h
  obtain ⟨_, requirements, _, rfl⟩ := hcontract.declared _ _ _ _ hcall
  rfl

/-- Runs of activations in which the declared interpreter always denotes one program.  Between them
everything but the memory of the provisioner may change. -/
inductive Steady (path : Path) : System (List Venv.Call) → System (List Venv.Call) → Prop
  | refl (system : System (List Venv.Call)) : Steady path system system
  | activate {start system : System (List Venv.Call)} (now : Instant)
      (request : ActivationRequest) : Steady path start system →
      system.Resolves now request path →
      Steady path start (system.activate Venv.recorder now request).2
  | change {start system changed : System (List Venv.Call)} : Steady path start system →
      changed.moment.1.2 = system.moment.1.2 → Steady path start changed

theorem Steady.eq_of_mem_creators {start : System (List Venv.Call)}
    (h : Steady path start system) (hstart : start.moment.1.2 = []) {creator : Path}
    (hmem : creator ∈ Venv.creators location system.moment.1.2) : creator = path := by
  induction h with
  | refl =>
      rw [hstart] at hmem
      cases hmem
  | @activate system now request _ hresolves ih =>
      rw [(system.exists_contract now request).1, Venv.creators_append] at hmem
      exact (List.mem_append.mp hmem).elim ih hresolves.eq_of_mem_creators
  | change _ hsame ih =>
      rw [hsame] at hmem
      exact ih hmem

/-- In a run without a change of the declared interpreter this has created every environment that is
built, unless that was found without having been created in the run. -/
theorem Steady.creator?_of_rebuilt {start : System (List Venv.Call)}
    (h : Steady path start system) (hstart : start.moment.1.2 = [])
    (hresult : (system.activate Venv.recorder now request).1.result = .ok activation)
    (hlocation : activation.location = some location) (hrebuilt : activation.rebuilt = true)
    (hresolves : system.Resolves now request path) :
    (system.activate Venv.recorder now request).2.creator? location = some path ∨
      system.creator? location = none ∧
        ⟨.isThere (Layout.interpreter location), true⟩ ∈ system.callsMade now request := by
  obtain ⟨found, hfound, hcreator⟩ :=
    System.creator?_of_rebuilt hresult hlocation hrebuilt hresolves
  rw [hcreator]
  cases found with
  | false => exact .inl rfl
  | true =>
      cases hbefore : system.creator? location with
      | none => exact .inr ⟨rfl, hfound⟩
      | some creator =>
          obtain rfl := h.eq_of_mem_creators hstart (List.mem_of_getLast? hbefore)
          exact .inl rfl

/-! ### A system with two interpreters -/

/-- A program that creates environments with a copy of itself. -/
def copier : String :=
  "#!/bin/sh\nmkdir -p \"$4/bin\"\ncp \"$0\" \"$4/bin/python\"\n"

/-- A system in which two such programs are found.  One of them is declared. -/
def workshop (declared : String) : System (List Venv.Call) where
  activator := ⟨{ ActivatorSettings.standard sampleRoot with interpreter := declared }, .empty⟩
  context := ⟨[], .empty⟩
  moment := ((⟨⟨[(.ofText "/envs", .directory 1), (.ofText "/bin", .directory 2),
    (.ofText "/bin/sh", .program "sh"), (.ofText "/bin/mkdir", .program "mkdir"),
    (.ofText "/bin/cp", .program "cp"), (.ofText "/bin/first", .file 3 ⟨Bytes.ofText copier, 0⟩ true),
    (.ofText "/bin/second", .file 4 ⟨Bytes.ofText copier, 0⟩ true)], 5⟩, [], 0,
    Table.set .empty "PATH" (Bytes.ofText "/bin"), [], .zero, []⟩, []), [])

/-- This system after the activation of `a`. -/
def built : System (List Venv.Call) :=
  ((workshop "first").activate Venv.recorder sampleTime (sampleRequest "a")).2

/-- What another activation of `a` comes to if the other program is declared. -/
def rebuilt : Activator.Completion × System (List Venv.Call) :=
  { built with activator := (workshop "second").activator }.activate Venv.recorder sampleTime
    (sampleRequest "a")

/-- Whether a call finds a program under a name if it looks for it. -/
def agrees (name : String) (path : Path) (call : Venv.Call) : Bool :=
  match call with
  | ⟨.findProgram other, found⟩ => other != name || found == some path
  | _ => true

theorem Resolves.of_agrees (h : (system.callsMade now request).all
    (agrees system.activator.settings.interpreter path)) : system.Resolves now request path := by
  intro answer hmem
  have hagrees := List.all_eq_true.mp h _ hmem
  simpa [agrees] using hagrees

section

attribute [local irreducible] System.activate

/-- The first activation creates the environment with the declared program. -/
theorem creator_iff_workshop : ∃ activation found,
    ((workshop "first").activate Venv.recorder sampleTime (sampleRequest "a")).1.result =
        .ok activation ∧ activation.rebuilt = true ∧
      ⟨.isThere (Layout.interpreter sampleA), found⟩ ∈
        (workshop "first").callsMade sampleTime (sampleRequest "a") ∧
      (built.creator? sampleA = some (.ofText "/bin/first") ↔ (found = true →
        (workshop "first").creator? sampleA = some (.ofText "/bin/first"))) := by
  have hactivation : ((workshop "first").activate Venv.recorder sampleTime
      (sampleRequest "a")).1.result.map (fun activation =>
        (activation.location, activation.rebuilt)) = .ok (some sampleA, true) ∧
      ((workshop "first").callsMade sampleTime (sampleRequest "a")).all
        (agrees "first" (.ofText "/bin/first")) = true := by
    decide +kernel
  obtain ⟨activation, hresult, hparts⟩ := exists_ok_of_map_eq_ok hactivation.1
  obtain ⟨hlocation, hrebuilt⟩ := Prod.mk.inj hparts
  obtain ⟨found, hfound, hiff⟩ :=
    creator_iff hresult hlocation hrebuilt (Resolves.of_agrees hactivation.2)
  exact ⟨activation, found, hresult, hrebuilt, hfound, hiff⟩

/-- The second activation builds the environment, and the record names the program that is then
declared, but the other one has created it. -/
theorem creator_of_changed :
    (∃ activation, rebuilt.1.result = .ok activation ∧
        (activation.location, activation.rebuilt) = (some sampleA, true)) ∧
      (BuildRecord.load rebuilt.2.moment.1.1 sampleA).1.map (·.interpreter) = some "second" ∧
      (Venv.handle (.findProgram "second") rebuilt.2.moment.1.1).1 =
        some (.ofText "/bin/second") ∧
      rebuilt.2.creator? sampleA = some (.ofText "/bin/first") := by
  have hrebuilt : rebuilt.1.result.map (fun activation =>
      (activation.location, activation.rebuilt)) = .ok (some sampleA, true) ∧
      (BuildRecord.load rebuilt.2.moment.1.1 sampleA).1.map (·.interpreter) = some "second" ∧
      (Venv.handle (.findProgram "second") rebuilt.2.moment.1.1).1 =
        some (.ofText "/bin/second") ∧
      rebuilt.2.creator? sampleA = some (.ofText "/bin/first") := by
    rw [BuildRecord.load_eq, rebuilt, built, activate_eq_activateChars, activate_eq_activateChars]
    decide +kernel
  exact ⟨exists_ok_of_map_eq_ok hrebuilt.1, hrebuilt.2⟩

end

end System
end Enclave
