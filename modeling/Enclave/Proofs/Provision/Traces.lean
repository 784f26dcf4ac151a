import Enclave.Proofs.FileSystem.Paths
import Enclave.Proofs.Trace
import Enclave.Provision.Venv

/-! # Calls of a build

The calls by which a virtual environment is built or destroyed, whatever is answered.  `commands`
are the commands that are run, and `creators` the interpreters among them that create an
environment.  Everything but the steps of a build goes aside (`Aside`): it neither looks at the
clock nor runs a command.  Each part of a build is described by what all its requests have in
common, for any property of requests (`asks_findFirst` and the lemmas after it). -/

namespace Enclave.Venv

open Procedure (asks_pure trace_pure_iff trace_request_bind_iff)

/-! ### Calls -/

/-- A request of a build with its answer. -/
abbrev Call := Procedure.Call Request.Answer

/-- The command that a call runs. -/
def command? (call : Call) : Option ChildCommand :=
  match call.request with
  | .run command _ => some command
  | _ => none

/-- The commands that are run. -/
def commands (calls : List Call) : List ChildCommand :=
  calls.filterMap command?

/-- The interpreter that a command runs to create an environment at a location. -/
def creator? (location : Path) (command : ChildCommand) : Option Path :=
  if command = createCommand command.program location then some command.program else none

/-- The interpreters that are run to create an environment at a location. -/
def creators (location : Path) (calls : List Call) : List Path :=
  (commands calls).filterMap (creator? location)

/-- Whether a path was found under the first of several names that denotes a program. -/
def FirstFound (names : List String) (path : Path) (calls : List Call) : Prop :=
  ∃ front name back, names = front ++ name :: back ∧
    (∀ other ∈ front, ⟨.findProgram other, none⟩ ∈ calls) ∧ ⟨.findProgram name, some path⟩ ∈ calls

variable {calls front back : List Call} {location path : Path}

theorem commands_append (front back : List Call) :
    commands (front ++ back) = commands front ++ commands back :=
  List.filterMap_append ..

theorem creators_append (front back : List Call) :
    creators location (front ++ back) = creators location front ++ creators location back := by
  rw [creators, commands_append, List.filterMap_append]
  rfl

theorem creator?_createCommand (interpreter location : Path) :
    creator? location (createCommand interpreter location) = some interpreter :=
  if_pos rfl

/-- Installing creates nothing. -/
theorem creator?_installCommand (place : Path) (packages : List String) :
    creator? location (installCommand place packages) = none := by
  refine if_neg fun heq => ?_
  have harguments := congrArg (·.arguments[1]?) heq
  have hdiffer : Bytes.ofText "pip" ≠ Bytes.ofText "venv" := by decide +kernel
  exact hdiffer (Option.some.inj harguments)

theorem FirstFound.mono {names : List String} (h : FirstFound names path calls)
    (hsubset : calls ⊆ back) : FirstFound names path back := by
  obtain ⟨earlier, name, later, hnames, hnone, hsome⟩ := h
  exact ⟨earlier, name, later, hnames, fun other hother => hsubset (hnone other hother),
    hsubset hsome⟩

/-- A name that always denotes one program is found as that. -/
theorem FirstFound.eq_of_resolves {name : String} {names : List String} {program : Path}
    (h : FirstFound (name :: names) path calls)
    (hresolves : ∀ answer, ⟨.findProgram name, answer⟩ ∈ calls → answer = some program) :
    path = program := by
  obtain ⟨earlier, first, later, hnames, hnone, hsome⟩ := h
  cases earlier with
  | nil =>
      obtain ⟨rfl, rfl⟩ := List.cons.inj hnames
      exact Option.some.inj (hresolves _ hsome)
  | cons other earlier =>
      obtain ⟨rfl, _⟩ := List.cons.inj hnames
      exact absurd (hresolves _ (hnone _ List.mem_cons_self)) nofun

/-! ### Requests on the way -/

/-- Whether a request is neither about time nor to run a command. -/
def Request.IsAside : Request → Prop
  | clock => False
  | run _ _ => False
  | _ => True

/-- Whether time and commands do not occur in calls. -/
def Aside (calls : List Call) : Prop :=
  ∀ call ∈ calls, call.request.IsAside

theorem aside_nil : Aside [] :=
  nofun

theorem Aside.append (h : Aside front) (h' : Aside back) : Aside (front ++ back) := by
  intro call hcall
  rcases List.mem_append.mp hcall with hcall | hcall
  · exact h call hcall
  · exact h' call hcall

theorem aside_of_asks {α : Type} {steps : Steps α} {value : α} (h : steps.Asks Request.IsAside)
    (htrace : steps.Trace calls value) : Aside calls :=
  fun _ => h.of_mem_trace htrace

theorem commands_of_aside (h : Aside calls) : commands calls = [] := by
  rw [commands, List.filterMap_eq_nil_iff]
  rintro ⟨request, answer⟩ hcall
  cases request with
  | run command limit => cases h _ hcall
  | _ => rfl

theorem asks_findFirst {P : Request → Prop} (h : ∀ name, P (.findProgram name))
    (names : List String) : (findFirst names).Asks P := by
  induction names with
  | nil => exact asks_pure none
  | cons name names ih =>
      refine (Procedure.asks_request (h name)).bind fun found => ?_
      cases found with
      | some path => exact asks_pure _
      | none => exact ih

theorem asks_createParent {P : Request → Prop}
    (h : ∀ parent, location.parent? = some parent → P (.createDirectories parent)) :
    (createParent location).Asks P := by
  rw [createParent]
  cases hparent : location.parent? with
  | none => exact asks_pure _
  | some parent =>
      refine (Procedure.asks_request (h parent hparent)).bind fun made => ?_
      cases made <;> exact asks_pure _

theorem asks_discard {P : Request → Prop} (hremove : P (.removeTree location))
    (hreport : ∀ event, P (.report event)) : (discard location).Asks P := by
  refine Procedure.Asks.bind (Procedure.asks_request hremove) fun removed => ?_
  split
  · exact asks_pure _
  · exact asks_pure _
  · exact Procedure.asks_request (hreport _)

theorem asks_removeIncomplete {P : Request → Prop} (hthere : P (.isThere location))
    (hremove : P (.removeTree location)) : (removeIncomplete location).Asks P := by
  refine Procedure.Asks.bind (Procedure.asks_request hthere) fun present => ?_
  split
  · refine (Procedure.asks_request hremove).bind fun removed => ?_
    cases removed <;> exact asks_pure _
  · exact asks_pure _

/-- Nothing is run to destroy an environment. -/
theorem aside_destroy {value : Except ProvisionError Unit}
    (h : (destroy location).Trace calls value) : Aside calls := by
  have hasks : (destroy location).Asks Request.IsAside := by
    have hremove : (ask (.removeTree location)).Asks Request.IsAside :=
      Procedure.asks_request trivial
    refine Procedure.Asks.bind (Procedure.asks_request trivial) fun there => ?_
    split
    · refine hremove.bind fun removed => ?_
      cases removed <;> exact asks_pure _
    · exact asks_pure _
  exact aside_of_asks hasks h

/-! ### Looking for an interpreter -/

/-- Where a program is found, it is the first one. -/
theorem trace_findFirst {names : List String} (h : (findFirst names).Trace calls (some path)) :
    FirstFound names path calls := by
  induction names generalizing calls with
  | nil => cases (trace_pure_iff.mp h).2
  | cons name names ih =>
      obtain ⟨answer, rest, rfl, hrest⟩ := trace_request_bind_iff.mp h
      cases answer with
      | some found =>
          obtain ⟨rfl, hfound⟩ := trace_pure_iff.mp hrest
          cases hfound
          exact ⟨[], name, names, rfl, nofun, List.mem_cons_self⟩
      | none =>
          obtain ⟨earlier, first, later, rfl, hnone, hsome⟩ := ih hrest
          refine ⟨name :: earlier, first, later, rfl, ?_, List.mem_cons_of_mem _ hsome⟩
          exact List.forall_mem_cons.mpr
            ⟨List.mem_cons_self, fun other hother => List.mem_cons_of_mem _ (hnone other hother)⟩

/-- Where no program is found, none is found under any name. -/
theorem trace_findFirst_none {names : List String} (h : (findFirst names).Trace calls none) :
    ∀ name ∈ names, ⟨.findProgram name, none⟩ ∈ calls := by
  induction names generalizing calls with
  | nil => exact nofun
  | cons first names ih =>
      obtain ⟨answer, rest, rfl, hrest⟩ := trace_request_bind_iff.mp h
      cases answer with
      | some path => cases (trace_pure_iff.mp hrest).2
      | none =>
          refine List.forall_mem_cons.mpr ⟨List.mem_cons_self, fun name hname => ?_⟩
          exact List.mem_cons_of_mem _ (ih hrest name hname)

end Enclave.Venv
