import Enclave.Proofs.Provision.Traces
import Enclave.Proofs.World
import Enclave.Provision.System

/-! # What a build leaves behind that fails

Whatever the commands of a build do to the files, a new environment whose build fails is gone again,
and of an environment that was there the build itself removes nothing.  In either case the build
itself changes nothing but what is at the location of the environment, and the directories above it
that were missing (`ensure_failure`).

The commands are children with any effect on the world and any ending, so they are a parameter. -/

namespace Enclave

/-! ### Vacant locations -/

namespace World

variable {world : World} {path : Path}

/-- Whether a path denotes nothing, not even a link that leads nowhere. -/
def IsVacant (world : World) (path : Path) : Prop :=
  ∀ follow found there, world.files.resolve world.base path follow ≠ .ok (found, some there)

theorem isPartOf_removeTree (world : World) (path : Path) :
    (world.removeTree path).2.files.IsPartOf world.files := by
  rw [removeTree]
  cases hremove : world.files.removeTree world.base path with
  | ok files =>
      obtain ⟨gone, _, _, _, rfl⟩ := FileSystem.exists_of_removeTree hremove
      exact world.files.isPartOf_prune gone
  | error e =>
      rcases world.files.emptied_eq world.base path with hsame | ⟨there, _, _, hempty⟩
      · rw [hsame]
        exact .refl _
      · rw [hempty]
        exact world.files.isPartOf_empty there

/-- After a removal that succeeded or found nothing, nothing is there. -/
theorem isVacant_removeTree (hnamed : world.files.IsNamed)
    (h : (world.removeTree path).1 = .ok () ∨ (world.removeTree path).1 = .error .notFound) :
    (world.removeTree path).2.IsVacant path := by
  cases hremove : world.files.removeTree world.base path with
  | error e =>
      rw [removeTree, hremove] at h
      obtain rfl : e = .notFound := by simpa using h
      have hnone := FileSystem.ne_of_removeTree hremove
      have hsame : world.files.emptied world.base path = world.files := by
        rcases world.files.emptied_eq world.base path with hsame | ⟨there, id, hresolve, _⟩
        · exact hsame
        · exact absurd hresolve (hnone _ _)
      rw [removeTree, hremove, hsame]
      exact FileSystem.resolve_ne_of_nofollow hnone
  | ok files =>
      obtain ⟨gone, there, hne, hresolve, rfl⟩ := FileSystem.exists_of_removeTree hremove
      have hpart := world.files.isPartOf_prune gone
      rw [removeTree, hremove]
      refine FileSystem.resolve_ne_of_nofollow fun found other hfound => ?_
      have hbefore := resolve_mono hnamed hpart hfound
      rw [hresolve] at hbefore
      obtain ⟨rfl, _⟩ := Prod.mk.inj (Except.ok.inj hbefore)
      have hgone := FileSystem.entry?_of_resolve hfound
      rw [FileSystem.entry?_prune, if_pos ⟨hne, List.prefix_rfl⟩] at hgone
      cases hgone

end World

namespace Venv

open Procedure (Reaches asks_pure)

variable {location path : Path}

/-! ### Children -/

/-- What the commands of a build do. -/
abbrev Children : Type :=
  ChildCommand → Duration → World → Except Explanation BoundedOutput × World

/-- How the world answers the requests of a build if children do this. -/
def handleWith (children : Children) : (request : Request) → World → request.Answer × World
  | .run command limit, world => children command limit world
  | request, world => handle request world

theorem handleWith_runBounded : handleWith ChildCommand.runBounded = handle := by
  funext request world
  cases request <;> rfl

/-- Whether children leave names without slashes. -/
def Children.KeepNames (children : Children) : Prop :=
  ∀ command limit world, world.files.IsNamed → (children command limit world).2.files.IsNamed

/-- The provisioner of the system builds by running the commands. -/
theorem ensure_provisioner (fixed : Option Path) (location : Path) (plan : ProvisionPlan)
    (total : Duration) (world : World) :
    let ran := (ensure fixed location plan total).run (handleWith ChildCommand.runBounded) world
    (provisioner fixed).ensure location plan total (world, ()) = (ran.1, ran.2, ()) := by
  rw [handleWith_runBounded]
  rfl

/-- Whether a request is answered without a child. -/
def Request.isOwn : Request → Bool
  | run _ _ => false
  | _ => true

theorem handleWith_of_isOwn {children : Children} {request : Request} (h : request.isOwn)
    (world : World) : handleWith children request world = handle request world := by
  cases request with
  | run command limit => cases h
  | _ => rfl

/-! ### Requests -/

/-- Whether the request of a build is about its environment or the directory above it, if it is one
that changes files. -/
def Request.Concerns (location : Path) : Request → Prop
  | removeTree path => path = location
  | createDirectories path => location.parent? = some path
  | _ => True

theorem asks_ask (request : Request) (h : request.Concerns location) :
    (ask request).Asks (Request.Concerns location) :=
  Procedure.asks_request h

theorem asks_runStep {P : Request → Prop} (hclock : P .clock) {command : ChildCommand}
    (hrun : ∀ limit, P (.run command limit)) (budget : Budget) (step : Step) :
    (runStep budget step command).Asks P := by
  have hleft : (budget.remaining step).Asks P :=
    (Procedure.asks_request hclock).bind fun _ => asks_pure _
  refine hleft.bind fun limit => ?_
  cases limit with
  | error e => exact asks_pure _
  | ok limit =>
      refine (Procedure.asks_request (hrun limit)).bind fun answer => ?_
      cases answer <;> exact asks_pure _

/-- Installing looks at the clock, reports and runs the installer. -/
theorem asks_install {P : Request → Prop} (hclock : P .clock) (hreport : ∀ event, P (.report event))
    (hrun : ∀ packages limit, P (.run (installCommand location packages) limit))
    (requirements : List String) (budget : Budget) :
    (install location requirements budget).Asks P := by
  rw [install]
  split
  · exact asks_pure _
  · refine (Procedure.asks_request (hreport _)).bind fun _ => ?_
    refine (asks_runStep hclock (hrun _) _ _).bind fun upgraded => ?_
    cases upgraded with
    | error e => exact asks_pure _
    | ok _ =>
        exact (Procedure.asks_request (hreport _)).bind fun _ => asks_runStep hclock (hrun _) _ _

theorem asks_create (fixed : Option Path) (location : Path) (plan : ProvisionPlan)
    (budget : Budget) : (create fixed location plan budget).Asks (Request.Concerns location) := by
  have hbase : (baseInterpreter fixed plan).Asks (Request.Concerns location) := by
    unfold baseInterpreter
    cases fixed with
    | some path => exact asks_pure _
    | none =>
        refine (asks_findFirst (fun _ => trivial) _).bind fun found => ?_
        cases found <;> exact asks_pure _
  refine hbase.bind fun interpreter => ?_
  cases interpreter with
  | error e => exact asks_pure _
  | ok interpreter =>
      refine (asks_createParent fun _ hparent => hparent).bind fun made => ?_
      cases made with
      | error e => exact asks_pure _
      | ok _ =>
          refine (asks_ask (.report _) trivial).bind fun _ => ?_
          exact asks_runStep trivial (fun _ => trivial) _ _

theorem asks_buildNew (fixed : Option Path) (location : Path) (plan : ProvisionPlan)
    (budget : Budget) : (buildNew fixed location plan budget).Asks (Request.Concerns location) := by
  have hdiscard : (discard location).Asks (Request.Concerns location) :=
    asks_discard rfl fun _ => trivial
  have hclear : (removeIncomplete location).Asks (Request.Concerns location) :=
    asks_removeIncomplete trivial rfl
  refine hclear.bind fun cleared => ?_
  cases cleared with
  | error e => exact asks_pure _
  | ok _ =>
      refine (asks_create fixed location plan budget).bind fun created => ?_
      cases created with
      | error e => exact hdiscard.bind fun _ => asks_pure _
      | ok _ =>
          have hinstall : (install location plan.requirements budget).Asks _ :=
            asks_install (P := Request.Concerns location) trivial (fun _ => trivial)
              (fun _ _ => trivial) _ _
          refine hinstall.bind fun result => ?_
          cases result with
          | ok _ => exact asks_pure _
          | error e => exact hdiscard.bind fun _ => asks_pure _

theorem asks_ensure (fixed : Option Path) (location : Path) (plan : ProvisionPlan)
    (total : Duration) : (ensure fixed location plan total).Asks (Request.Concerns location) := by
  refine Procedure.Asks.bind (asks_ask .clock trivial) fun start => ?_
  refine Procedure.Asks.bind (asks_ask (.isThere (Layout.interpreter location)) trivial)
    fun found => ?_
  split
  · exact asks_install (P := Request.Concerns location) trivial (fun _ => trivial)
      (fun _ _ => trivial) _ _
  · exact asks_buildNew _ _ _ _

/-! ### What requests change -/

/-- What a request of a build may change: it may report, remove what is at the location of the
environment, and create directories above it that were missing. -/
structure Touches (location : Path) (before after : World) : Prop where
  surroundings : { after with files := before.files, events := before.events } = before
  files : ∀ there, after.files.entry? there = before.files.entry? there ∨
    (after.files.entry? there = none ∧ ∃ gone entry,
      before.files.resolve before.base location false = .ok (gone, some entry) ∧ gone <+: there) ∨
    (before.files.entry? there = none ∧ ∃ parent, location.parent? = some parent ∧
      ∃ above ∈ parent.ancestors, ∃ id,
        after.files.resolve before.base above true = .ok (there, some (.directory id)))

theorem touches_of_files_eq {before after : World}
    (hsurroundings : { after with files := before.files, events := before.events } = before)
    (hfiles : after.files = before.files) : Touches location before after :=
  ⟨hsurroundings, fun _ => .inl (by rw [hfiles])⟩

theorem touches_removeTree (location : Path) (world : World) :
    Touches location world (world.removeTree location).2 := by
  rw [World.removeTree]
  cases hremove : world.files.removeTree world.base location with
  | ok files =>
      obtain ⟨gone, there, hne, hresolve, rfl⟩ := FileSystem.exists_of_removeTree hremove
      refine ⟨rfl, fun other => ?_⟩
      by_cases hbelow : other ≠ [] ∧ gone <+: other
      · exact .inr (.inl ⟨by rw [FileSystem.entry?_prune, if_pos hbelow], gone, there, hresolve,
          hbelow.2⟩)
      · exact .inl (by rw [FileSystem.entry?_prune, if_neg hbelow])
  | error e =>
      refine ⟨rfl, fun other => ?_⟩
      rcases world.files.emptied_eq world.base location with hsame | ⟨there, id, hresolve, hempty⟩
      · exact .inl (by rw [hsame])
      · by_cases hbelow : other ≠ [] ∧ other ≠ there ∧ there <+: other
        · exact .inr (.inl ⟨by rw [hempty, FileSystem.entry?_empty, if_pos hbelow], there, _,
            hresolve, hbelow.2.2⟩)
        · exact .inl (by rw [hempty, FileSystem.entry?_empty, if_neg hbelow])

theorem touches_createDirectories {parent : Path} (hparent : location.parent? = some parent)
    (world : World) : Touches location world (world.createDirectories parent).2 := by
  refine ⟨rfl, fun other => ?_⟩
  have hadds : FileSystem.AddsAt world.base parent.ancestors world.files _ :=
    FileSystem.addsAt_createDirectories (Path.withoutFinalSlashes_parent? hparent)
  rcases hadds other with hsame | ⟨hnone, above, habove, id, hresolve⟩
  · exact .inl hsame
  · exact .inr (.inr ⟨hnone, parent, hparent, above, habove, id, hresolve⟩)

/-- The requests of a build that no child answers leave everything else alone. -/
theorem touches_handle {request : Request} (h : request.Concerns location) (hown : request.isOwn)
    (world : World) : Touches location world (handle request world).2 := by
  cases request with
  | removeTree path =>
      obtain rfl : path = location := h
      exact touches_removeTree path world
  | createDirectories parent => exact touches_createDirectories h world
  | run command limit => cases hown
  | _ => exact touches_of_files_eq rfl rfl

/-! ### Names -/

theorem isNamed_handleWith {children : Children}
    (hchildren : children.KeepNames)
    (request : Request) {world : World} (h : world.files.IsNamed) :
    (handleWith children request world).2.files.IsNamed := by
  cases request with
  | run command limit => exact hchildren command limit world h
  | createDirectories path => exact h.createDirectories world.base path
  | removeTree path => exact h.of_isPartOf (world.isPartOf_removeTree path)
  | _ => exact h

theorem isNamed_run {children : Children}
    (hchildren : children.KeepNames)
    {α : Type} (steps : Steps α) {world : World} (h : world.files.IsNamed) :
    (steps.run (handleWith children) world).2.files.IsNamed := by
  induction steps generalizing world with
  | done value => exact h
  | ask request next ih => exact ih _ (isNamed_handleWith hchildren request h)

/-! ### Cleaning up -/

/-- The answer to an attempt to remove what is at a location. -/
def removal? (location : Path) (call : Call) : Option (Except IoError Unit) :=
  match call with
  | ⟨.removeTree path, answer⟩ => if path = location then some answer else none
  | _ => none

/-- Whether an attempt to remove something has removed it or found nothing. -/
def isClear : Except IoError Unit → Bool
  | .ok () => true
  | .error cause => cause == .notFound

theorem isClear_iff {answer : Except IoError Unit} :
    isClear answer = true ↔ answer = .ok () ∨ answer = .error .notFound := by
  cases answer <;> simp [isClear]

/-- Whether nothing was in the way of any attempt to remove what is at a location. -/
def RemovalsSucceed (location : Path) (calls : List Call) : Prop :=
  ∀ answer ∈ calls.filterMap (removal? location), isClear answer = true

theorem removalsSucceed_append {front back : List Call} :
    RemovalsSucceed location (front ++ back) ↔
      RemovalsSucceed location front ∧ RemovalsSucceed location back := by
  simp only [RemovalsSucceed, List.filterMap_append, List.mem_append, or_imp, forall_and]

theorem RemovalsSucceed.of_cons {answer : Except IoError Unit} {calls : List Call}
    (h : RemovalsSucceed location (⟨.removeTree location, answer⟩ :: calls)) :
    answer = .ok () ∨ answer = .error .notFound := by
  rw [← isClear_iff]
  have hremoval : removal? location ⟨.removeTree location, answer⟩ = some answer := if_pos rfl
  refine h answer ?_
  rw [List.filterMap_cons_some hremoval]
  exact List.mem_cons_self

/-- Whether steps that come to such a value leave nothing at a location, if removals succeed. -/
def Clears {α : Type} (children : Children) (location : Path) (ends : α → Prop)
    (steps : Steps α) : Prop :=
  ∀ world, world.files.IsNamed →
    RemovalsSucceed location (steps.callsOf (handleWith children) world) →
    ends (steps.run (handleWith children) world).1 →
    (steps.run (handleWith children) world).2.IsVacant location

section

variable {α β : Type} {children : Children} {ends : α → Prop} {steps : Steps α}
  {f : α → Steps β}

theorem Clears.bind {ends : β → Prop}
    (hchildren : children.KeepNames)
    (hf : ∀ value, Clears children location ends (f value)) :
    Clears children location ends (steps >>= f) := by
  intro world hnamed hremovals hends
  have hrun : (steps >>= f).run (handleWith children) world = _ :=
    Procedure.run_bind (handleWith children) steps f world
  rw [Procedure.callsOf_bind, removalsSucceed_append] at hremovals
  rw [hrun] at hends ⊢
  exact hf _ _ (isNamed_run hchildren steps hnamed) hremovals.2 hends

/-- Steps that come to other values clear nothing. -/
theorem clears_pure {value : α} (h : ¬ ends value) :
    Clears children location ends (pure value) :=
  fun _ _ _ hends => absurd hends h

/-- Whatever is said after the cleaning up, the location is clear. -/
theorem Clears.then_pure {ends : β → Prop} (h : Clears children location (fun _ => True) steps)
    (value : β) : Clears children location ends (steps >>= fun _ => pure value) := by
  intro world hnamed hremovals _
  have hrun : (steps >>= fun _ => pure value).run (handleWith children) world = _ :=
    Procedure.run_bind (handleWith children) steps (fun _ => pure value) world
  rw [Procedure.callsOf_bind, removalsSucceed_append] at hremovals
  rw [hrun]
  exact h world hnamed hremovals.1 trivial

/-- Steps that stop at an error with the location clear. -/
theorem Clears.bind_result {steps : Steps (Except ProvisionError Unit)}
    {f : Except ProvisionError Unit → Steps (Except ProvisionError Unit)}
    (hchildren : children.KeepNames)
    (h : Clears children location (∃ e, · = .error e) steps)
    (herror : ∀ e, f (.error e) = pure (.error e))
    (hf : Clears children location (∃ e, · = .error e) (f (.ok ()))) :
    Clears children location (∃ e, · = .error e) (steps >>= f) := by
  intro world hnamed hremovals hends
  have hrun : (steps >>= f).run (handleWith children) world = _ :=
    Procedure.run_bind (handleWith children) steps f world
  rw [Procedure.callsOf_bind, removalsSucceed_append] at hremovals
  rw [hrun] at hends ⊢
  have hnamed' := isNamed_run hchildren steps hnamed
  have hfirst := h world hnamed hremovals.1
  generalize steps.run (handleWith children) world = ran at hnamed' hfirst hremovals hends ⊢
  obtain ⟨result, after⟩ := ran
  cases result with
  | error e =>
      rw [herror]
      exact hfirst ⟨e, rfl⟩
  | ok _ =>
      exact hf after hnamed' hremovals.2 hends

/-- A removal that succeeded or found nothing, and nothing after it. -/
theorem clears_removeTree_bind {ends : β → Prop} {f : Except IoError Unit → Steps β}
    (hf : ∀ answer, answer = .ok () ∨ answer = .error .notFound → ∃ value, f answer = pure value) :
    Clears children location ends (ask (.removeTree location) >>= f) := by
  intro world hnamed hremovals _
  have hremoved : (world.removeTree location).1 = _ ∨ _ := hremovals.of_cons
  obtain ⟨value, hvalue⟩ := hf _ hremoved
  have hrun : (ask (.removeTree location) >>= f).run (handleWith children) world = _ :=
    Procedure.run_bind (handleWith children) (ask (.removeTree location)) f world
  have hask : (ask (.removeTree location)).run (handleWith children) world =
      world.removeTree location := rfl
  rw [hrun, hask, hvalue]
  exact World.isVacant_removeTree hnamed hremoved

theorem clears_discard (location : Path) :
    Clears children location (fun _ => True) (discard location) :=
  clears_removeTree_bind fun answer hanswer => by
    rcases hanswer with rfl | rfl <;> exact ⟨_, rfl⟩

theorem clears_removeIncomplete
    (hchildren : children.KeepNames) (location : Path) :
    Clears children location (∃ e, · = .error e) (removeIncomplete location) := by
  refine Clears.bind hchildren fun present => ?_
  split
  · refine clears_removeTree_bind fun answer hanswer => ?_
    rcases hanswer with rfl | rfl <;> exact ⟨_, rfl⟩
  · exact clears_pure nofun

/-- A new environment whose build fails is not there afterwards. -/
theorem clears_buildNew
    (hchildren : children.KeepNames)
    (fixed : Option Path) (location : Path) (plan : ProvisionPlan) (budget : Budget) :
    Clears children location (∃ e, · = .error e) (buildNew fixed location plan budget) := by
  have hdiscard : ∀ e : ProvisionError, Clears children location (∃ e, · = .error e)
      (discard location >>= fun _ => pure (Except.error e : Except ProvisionError Unit)) :=
    fun e => (clears_discard location).then_pure _
  refine (clears_removeIncomplete hchildren location).bind_result hchildren (fun _ => rfl) ?_
  refine Clears.bind hchildren fun created => ?_
  cases created with
  | error e => exact hdiscard e
  | ok _ =>
      refine Clears.bind hchildren fun result => ?_
      cases result with
      | error e => exact hdiscard e
      | ok _ => exact clears_pure nofun

end

/-! ### Builds -/

/-- The options of a command that creates an environment in a cleared directory. -/
def creationOptions : List Bytes :=
  ["-m", "venv", "--clear"].map Bytes.ofText

/-- Whether a request changes no file by itself and does not have an environment created. -/
def Request.Spares : Request → Prop
  | run command _ => ¬ creationOptions <+: command.arguments
  | request => ∀ world, (handle request world).2.files = world.files

theorem spares_installCommand (location : Path) (packages : List String) (limit : Duration) :
    (Request.run (installCommand location packages) limit).Spares := by
  intro hprefix
  have hsecond := hprefix.getElem (show 1 < creationOptions.length by decide)
  have hdiffer : Bytes.ofText "venv" ≠ Bytes.ofText "pip" := by decide +kernel
  exact hdiffer hsecond

/-- **A build that fails leaves nothing half-built and costs no environment.**  Whatever the children
do, a new environment whose build fails is not there afterwards if nothing was in the way of its
removal.  Where an interpreter was there, the build itself changes no file and does not have the
environment created again.  What no child does touches nothing but the location and the directories
above it that were missing. -/
theorem ensure_failure {children : Children} (hchildren : children.KeepNames) (fixed : Option Path)
    (location : Path) (plan : ProvisionPlan) (total : Duration) {start : World}
    (hstart : start.files.IsNamed) :
    let steps := ensure fixed location plan total
    let answers := handleWith children
    let calls := steps.callsOf answers start
    let ran := steps.run answers start
    (start.pathExists (Layout.interpreter location) = false → RemovalsSucceed location calls →
      (∃ e, ran.1 = .error e) → ran.2.IsVacant location) ∧
    (start.pathExists (Layout.interpreter location) = true → ∀ call ∈ calls, call.request.Spares) ∧
    ∀ call ∈ calls, call.request.isOwn → ∀ world,
      Touches location world (handle call.request world).2 := by
  intro steps answers calls ran
  let budget : Budget := ⟨start.clock, total⟩
  let there := start.pathExists (Layout.interpreter location)
  let work : Steps (Except ProvisionError Unit) :=
    if there then install location plan.requirements budget
    else buildNew fixed location plan budget
  have hrun : ran = work.run answers start := rfl
  have hcalls : calls = [⟨.clock, start.clock⟩, ⟨.isThere (Layout.interpreter location), there⟩] ++
      work.callsOf answers start := rfl
  rw [hrun, hcalls]
  refine ⟨fun hnew hremovals hfails => ?_, fun hthere call hcall => ?_,
    fun call hcall hown world => ?_⟩
  · have hwork : work = buildNew fixed location plan budget := if_neg (by simp [there, hnew])
    rw [hwork] at hremovals hfails ⊢
    exact clears_buildNew hchildren fixed location plan budget start hstart
      (removalsSucceed_append.mp hremovals).2 hfails
  · have hwork : work = install location plan.requirements budget := if_pos hthere
    rw [hwork] at hcall
    rcases List.mem_append.mp hcall with hfirst | hcall
    · simp only [List.mem_cons, List.not_mem_nil, or_false] at hfirst
      rcases hfirst with rfl | rfl <;> exact fun _ => rfl
    · exact (asks_install (P := Request.Spares) (fun _ => rfl) (fun _ _ => rfl)
        (spares_installCommand location) _ _).of_mem_callsOf hcall
  · have hconcerns : call.request.Concerns location :=
      (asks_ensure fixed location plan total).of_mem_callsOf (hcalls ▸ hcall)
    exact touches_handle hconcerns hown world

/-! ### A build that fails -/

/-- Children that make the directory of executables and then fail. -/
def failing : Children := fun _ _ world =>
  (.ok (.ofEnded (.exited 1) [] []),
    (world.createDirectories (Layout.binDir (.ofText "/envs/tool"))).2)

/-- A build by them. -/
def failedBuild : Except ProvisionError Unit × World :=
  (ensure (some (.ofText "/python")) (.ofText "/envs/tool") ⟨.compute "python3" {}, "python3", []⟩
    (.ofMillis 1000)).run (handleWith failing) default

theorem ensure_failure_tool :
    failing.KeepNames ∧ (default : World).files.IsNamed ∧
      (∃ e, failedBuild.1 = .error e) ∧ failedBuild.2.pathExists (.ofText "/envs") = true ∧
      failedBuild.2.IsVacant (.ofText "/envs/tool") := by
  have hnames : failing.KeepNames := fun _ _ world h => h.createDirectories world.base _
  have hnamed : (default : World).files.IsNamed := FileSystem.isNamed_of_entries (by decide)
  have hfails : ∃ e, failedBuild.1 = .error e := by
    have hnone : failedBuild.1.toOption = none := by decide +kernel
    cases hresult : failedBuild.1 with
    | error e => exact ⟨e, rfl⟩
    | ok _ =>
        rw [hresult] at hnone
        cases hnone
  have hremovals : RemovalsSucceed (.ofText "/envs/tool")
      ((ensure (some (.ofText "/python")) (.ofText "/envs/tool")
        ⟨.compute "python3" {}, "python3", []⟩ (.ofMillis 1000)).callsOf (handleWith failing)
          default) := by
    rw [RemovalsSucceed]
    decide +kernel
  have hfailure := ensure_failure hnames (some (.ofText "/python")) (.ofText "/envs/tool")
    ⟨.compute "python3" {}, "python3", []⟩ (.ofMillis 1000) hnamed
  exact ⟨hnames, hnamed, hfails, by decide +kernel, hfailure.1 (by decide +kernel) hremovals hfails⟩

end Venv
end Enclave
