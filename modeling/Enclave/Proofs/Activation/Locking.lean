import Enclave.Proofs.Activation.Outcomes
import Enclave.Proofs.Activation.Surroundings

/-! # The discipline of build locks

What the calls of an activation do to the locks is told by the calls alone (`lockedAfter`): every
lock that is acquired is given back, whatever happens in between, and an environment is changed only
while its lock is held (`LockDiscipline`).  A lock is asked for exactly if the decision was to build,
so locks that others hold make no difference otherwise, and if it stays contended the activation
fails without having changed anything.  In the world the set of locked files is the same after an
activation as it was before it (`lockDiscipline_activate`). -/

namespace Enclave

namespace Activation

open Layout

/-! ### Calls and locks -/

/-- The locked files after a call. -/
def lockedBy (locked : List Nat) : Call → List Nat
  | ⟨.acquireLock _ _ _, .ok lock⟩ => lock.file :: locked
  | ⟨.releaseLock lock, _⟩ => locked.erase lock.file
  | _ => locked

/-- The locked files after some calls. -/
def lockedAfter (locked : List Nat) (calls : List Call) : List Nat :=
  calls.foldl lockedBy locked

variable {calls front back : List Call} {call : Call} {location : Path} {outcome : Outcome}
  {settings : ActivatorSettings} {reporter : Reporter} {request : ActivationRequest}
  {found : Detection} {locked : List Nat}

theorem lockedAfter_append (locked : List Nat) (front back : List Call) :
    lockedAfter locked (front ++ back) = lockedAfter (lockedAfter locked front) back :=
  List.foldl_append

theorem lockedAfter_eq_self (h : ∀ call ∈ calls, ∀ locked, lockedBy locked call = locked) :
    lockedAfter locked calls = locked := by
  induction calls with
  | nil => rfl
  | cons call calls ih =>
      rw [lockedAfter, List.foldl_cons, h call List.mem_cons_self]
      exact ih fun other hother => h other (List.mem_cons_of_mem _ hother)

theorem Request.Looks.lockedBy_eq (h : call.request.Looks) (locked : List Nat) :
    lockedBy locked call = locked := by
  obtain ⟨request, answer⟩ := call
  cases request <;> first | rfl | exact h.elim

theorem Request.WorksAt.lockedBy_eq (h : call.request.WorksAt location) (locked : List Nat) :
    lockedBy locked call = locked := by
  obtain ⟨request, answer⟩ := call
  cases request <;> first | rfl | exact h.elim

theorem Watching.lockedAfter (h : Watching calls) (locked : List Nat) :
    lockedAfter locked calls = locked :=
  lockedAfter_eq_self fun call hcall => (h call hcall).lockedBy_eq

theorem Watching.changed? (h : Watching calls) : ∀ call ∈ calls, call.request.changed? = none :=
  fun call hcall => (h call hcall).changed?_eq_none

/-- Whether the lock of a location has been acquired and is still held after some calls. -/
def HeldAfter (location : Path) (calls : List Call) : Prop :=
  ∃ mode timeout lock, ⟨.acquireLock (lockFile location) mode timeout, .ok lock⟩ ∈ calls ∧
    ∀ locked, lockedAfter locked calls = lock.file :: locked

/-- Whether a location is that of the environment that was asked for, seen from the current directory
that was asked for if the root is relative. -/
def IsLocated (settings : ActivatorSettings) (request : ActivationRequest) (calls : List Call)
    (location : Path) : Prop :=
  ∃ working, locate settings.root request.descriptor.name working = .ok location ∧
    (settings.root.isAbsolute ∨ ⟨.workingDirectory, working⟩ ∈ calls)

/-- What holds for the locks and the calls of an activation. -/
structure LockDiscipline (settings : ActivatorSettings) (request : ActivationRequest)
    (calls : List Call) (outcome : Outcome) : Prop where
  /-- Every lock is given back. -/
  balanced : ∀ locked, lockedAfter locked calls = locked
  /-- An environment is changed only while its lock is held. -/
  guarded : ∀ front call back location, calls = front ++ call :: back →
    call.request.changed? = some location →
      IsLocated settings request calls location ∧ HeldAfter location front
  /-- A lock is asked for exactly if the decision was to build. -/
  asked : (∃ call ∈ calls, call.request.isLocking) ↔ ToBuild settings request calls
  /-- It is that of the environment, and until then everything was only looked at. -/
  first : ∀ front call back, calls = front ++ call :: back → call.request.isLocking →
    Watching front ∧ ∃ location, IsLocated settings request calls location ∧
      call.request = .acquireLock (lockFile location) settings.lockMode settings.lockTimeout
  /-- If it stays contended, nothing is changed and the activation times out. -/
  refused : ∀ path mode timeout answer, ⟨.acquireLock path mode timeout, answer⟩ ∈ calls →
    Contends ⟨.acquireLock path mode timeout, answer⟩ →
      (∀ call ∈ calls, call.request.changed? = none) ∧
        ∃ waited, outcome.result = .error (.lockTimeout request.descriptor.name path waited)
  /-- Without a build nothing is asked for that depends on a lock. -/
  watching : ¬ ToBuild settings request calls → Watching calls

/-! ### Without a lock -/

theorem LockDiscipline.of_watching (h : Watching calls) (hbuild : ¬ ToBuild settings request calls) :
    LockDiscipline settings request calls outcome where
  balanced := h.lockedAfter
  guarded front call back location hcalls hchanged := by
    have hcall : call ∈ calls := by simp [hcalls]
    rw [h.changed? call hcall] at hchanged
    cases hchanged
  asked := by
    refine iff_of_false ?_ hbuild
    rintro ⟨call, hcall, hlocking⟩
    rw [(h call hcall).not_isLocking] at hlocking
    cases hlocking
  first front call back hcalls hlocking := by
    have hcall : call ∈ calls := by simp [hcalls]
    rw [(h call hcall).not_isLocking] at hlocking
    cases hlocking
  refused path mode timeout answer hmem _ := (h _ hmem).elim
  watching _ := h

/-! ### Under the lock -/

/-- Where something stands that is not at the beginning. -/
theorem split_of_not_mem {α : Type} {first second front back : List α} {x : α}
    (h : first ++ second = front ++ x :: back) (hx : x ∉ first) :
    ∃ rest, front = first ++ rest ∧ second = rest ++ x :: back := by
  rcases List.append_eq_append_iff.mp h with ⟨rest, hfront, hsecond⟩ | ⟨rest, hfirst, hsecond⟩
  · exact ⟨rest, hfront, hsecond⟩
  · cases rest with
    | nil => exact ⟨[], by simp_all, by simpa using hsecond.symm⟩
    | cons y rest =>
        obtain rfl := (List.cons.inj hsecond).1
        exact absurd (by simp [hfirst]) hx

/-- Where something stands that is not at the end. -/
theorem split_of_not_mem_right {α : Type} {first second front back : List α} {x : α}
    (h : first ++ second = front ++ x :: back) (hx : x ∉ second) :
    ∃ rest, first = front ++ x :: rest := by
  rcases List.append_eq_append_iff.mp h with ⟨rest, hfront, hsecond⟩ | ⟨rest, hfirst, hsecond⟩
  · exact absurd (by simp [hsecond]) hx
  · cases rest with
    | nil =>
        rw [List.nil_append] at hsecond
        exact absurd (by simp [← hsecond]) hx
    | cons y rest =>
        obtain ⟨rfl, _⟩ := List.cons.inj hsecond
        exact ⟨rest, hfirst⟩

namespace BuildTask

variable {task : BuildTask} {result : Except ActivationError Bool} (h : task.Locked calls result)

include h

theorem Locked.balanced (locked : List Nat) : lockedAfter locked calls = locked := by
  cases h with
  | refused cause => rfl
  | @held lock work _ hserves =>
      have hwork : lockedAfter (lock.file :: locked) work = lock.file :: locked :=
        lockedAfter_eq_self fun call hcall => (hserves.worksAt call hcall).lockedBy_eq
      calc lockedAfter locked (task.locking (.ok lock) :: (work ++ [⟨.releaseLock lock, ()⟩]))
        _ = lockedAfter (lock.file :: locked) (work ++ [⟨.releaseLock lock, ()⟩]) := rfl
        _ = lockedAfter (lockedAfter (lock.file :: locked) work) [⟨.releaseLock lock, ()⟩] :=
          lockedAfter_append ..
        _ = (lock.file :: locked).erase lock.file := by
          rw [hwork]
          rfl
        _ = locked := List.erase_cons_head ..

/-- Under its lock a build changes its own environment only. -/
theorem Locked.guarded (hcalls : calls = front ++ call :: back)
    (hchanged : call.request.changed? = some location) :
    location = task.location ∧ HeldAfter task.location front := by
  have hlocking : ∀ answer, call ≠ task.locking answer := by
    rintro answer rfl
    cases hchanged
  cases h with
  | refused cause =>
      have hmem : call ∈ [task.locking (.error cause)] := by simp [hcalls]
      exact absurd (List.mem_singleton.mp hmem) (hlocking _)
  | @held lock work _ hserves =>
      have hlast : call ∉ [(⟨.releaseLock lock, ()⟩ : Call)] := by
        intro hmem
        rw [List.mem_singleton.mp hmem] at hchanged
        cases hchanged
      cases front with
      | nil => exact absurd (List.cons.inj hcalls).1.symm (hlocking _)
      | cons first rest =>
          obtain ⟨rfl, hrest⟩ := List.cons.inj hcalls
          obtain ⟨last, rfl⟩ := split_of_not_mem_right hrest hlast
          have hkept : ∀ locked, lockedAfter (lock.file :: locked) rest = lock.file :: locked :=
            fun locked => lockedAfter_eq_self fun other hother =>
              (hserves.worksAt other (List.mem_append_left _ hother)).lockedBy_eq
          exact ⟨(hserves.worksAt call (by simp)).eq_of_changed? hchanged, _, _, lock,
            List.mem_cons_self, hkept⟩

/-- A build asks for its lock, first of all and only once. -/
theorem Locked.first (hcalls : calls = front ++ call :: back) (hlocking : call.request.isLocking) :
    front = [] ∧ ∃ answer, call = task.locking answer := by
  cases h with
  | refused cause =>
      cases front with
      | nil => exact ⟨rfl, _, (List.cons.inj hcalls).1.symm⟩
      | cons other front => simp at hcalls
  | @held lock work _ hserves =>
      cases front with
      | nil => exact ⟨rfl, _, (List.cons.inj hcalls).1.symm⟩
      | cons other front =>
          have hmem : call ∈ work ++ [⟨.releaseLock lock, ()⟩] := by simp [(List.cons.inj hcalls).2]
          rcases List.mem_append.mp hmem with hmem | hmem
          · have hworks := hserves.worksAt call hmem
            obtain ⟨asked, answer⟩ := call
            cases asked <;> first | exact hworks.elim | cases hlocking
          · rw [List.mem_singleton.mp hmem] at hlocking
            cases hlocking

/-- A build whose lock stays contended does nothing but ask for it. -/
theorem Locked.refused_of_contends {path : Path} {mode : LockMode} {timeout : Duration}
    {answer : Except LockError BuildLock}
    (hmem : ⟨.acquireLock path mode timeout, answer⟩ ∈ calls)
    (hcontends : Contends ⟨.acquireLock path mode timeout, answer⟩) :
    (∀ call ∈ calls, call.request.changed? = none) ∧
      ∃ waited, result = .error (.lockTimeout task.name path waited) := by
  obtain ⟨waits, hwaits, hcontended⟩ := hcontends
  obtain ⟨waited, rfl⟩ := (BuildLock.wait_of_trace hwaits).busy_iff_contended.mpr hcontended
  obtain ⟨front, back, hcalls⟩ := List.append_of_mem hmem
  obtain ⟨rfl, answer, hanswer⟩ := h.first hcalls rfl
  cases h with
  | refused cause =>
      obtain ⟨heq, rfl⟩ := List.cons.inj hcalls
      cases heq
      exact ⟨by simp [locking, Request.changed?], waited, rfl⟩
  | held lock hserves => cases (List.cons.inj hcalls).1

end BuildTask

/-- A build keeps the discipline. -/
theorem LockDiscipline.of_locked {task : BuildTask} {work : List Call}
    {result : Except ActivationError Bool} (hfront : Watching front)
    (hwork : task.Locked work result) (hback : Reporting back) (hsettings : task.settings = settings)
    (hname : task.name = request.descriptor.name)
    (hlocated : IsLocated settings request (front ++ (work ++ back)) task.location)
    (hbuild : ToBuild settings request (front ++ (work ++ back)))
    (houtcome : ∀ e, result = .error e → outcome.result = .error e) :
    LockDiscipline settings request (front ++ (work ++ back)) outcome where
  balanced locked := by
    rw [lockedAfter_append, lockedAfter_append, hfront.lockedAfter, hwork.balanced,
      hback.watching.lockedAfter]
  guarded before call after location hcalls hchanged := by
    have hnotFront : call ∉ front := fun hmem => by
      rw [hfront.changed? call hmem] at hchanged
      cases hchanged
    have hnotBack : call ∉ back := fun hmem => by
      rw [hback.watching.changed? call hmem] at hchanged
      cases hchanged
    obtain ⟨rest, rfl, hrest⟩ := split_of_not_mem hcalls hnotFront
    obtain ⟨last, hlast⟩ := split_of_not_mem_right hrest hnotBack
    obtain ⟨rfl, mode, timeout, lock, hmem, hheld⟩ := hwork.guarded hlast hchanged
    refine ⟨hlocated, mode, timeout, lock, List.mem_append_right _ hmem, fun locked => ?_⟩
    rw [lockedAfter_append, hfront.lockedAfter, hheld]
  asked := by
    refine iff_of_true ?_ hbuild
    cases hwork with
    | refused cause => exact ⟨task.locking (.error cause), by simp, rfl⟩
    | held lock _ => exact ⟨task.locking (.ok lock), by simp, rfl⟩
  first before call after hcalls hlocking := by
    have hnotFront : call ∉ front := fun hmem => by
      rw [(hfront call hmem).not_isLocking] at hlocking
      cases hlocking
    have hnotBack : call ∉ back := fun hmem => by
      rw [(hback.watching call hmem).not_isLocking] at hlocking
      cases hlocking
    obtain ⟨rest, rfl, hrest⟩ := split_of_not_mem hcalls hnotFront
    obtain ⟨last, hlast⟩ := split_of_not_mem_right hrest hnotBack
    obtain ⟨rfl, answer, rfl⟩ := hwork.first hlast hlocking
    rw [List.append_nil]
    exact ⟨hfront, _, hlocated, by rw [← hsettings]; rfl⟩
  refused path mode timeout answer hmem hcontends := by
    have hmem' : ⟨.acquireLock path mode timeout, answer⟩ ∈ work := by
      rcases List.mem_append.mp hmem with hmem | hmem
      · exact (hfront _ hmem).elim
      · exact (List.mem_append.mp hmem).resolve_right fun hmem => (hback.watching _ hmem).elim
    obtain ⟨hnone, waited, hresult⟩ := hwork.refused_of_contends hmem' hcontends
    refine ⟨fun call hcall => ?_, waited, hname ▸ houtcome _ hresult⟩
    rcases List.mem_append.mp hcall with hcall | hcall
    · exact hfront.changed? call hcall
    · exact (List.mem_append.mp hcall).elim (hnone call) (hback.watching.changed? call)
  watching hno := absurd hbuild hno

/-! ### Activations -/

theorem isLocated_of_findLocation
    (h : (findLocation settings.root request.descriptor.name).Trace front (.ok location))
    (hsubset : front ⊆ calls) : IsLocated settings request calls location := by
  obtain ⟨working, hlocate, hasked⟩ := calls_findLocation h
  refine ⟨working, hlocate.symm, ?_⟩
  rcases hasked with ⟨hneedless, _⟩ | ⟨_, rfl⟩
  · simp only [(locate_eq_ok_iff.mp hlocate.symm).1, Option.isSome_none, Bool.false_or] at hneedless
    exact .inl hneedless
  · exact .inr (hsubset (List.mem_singleton.mpr rfl))

theorem LockDiscipline.of_found {look rest : List Call}
    (hfront : (findLocation settings.root request.descriptor.name).Trace front (.ok location))
    (hlook : (detect settings reporter request.descriptor location).Trace look found)
    (hrest : Decided settings reporter request location found rest outcome) :
    LockDiscipline settings request (front ++ look ++ rest) outcome := by
  have hwatching := (trace_findLocation hfront).1.append (trace_detect hlook).1
  have hbuild := toBuild_found_iff hfront hlook hrest
  have hbuilding : ∀ {destroyFirst entering work back result}, Reporting entering →
      (taskFor settings reporter request location found destroyFirst).run.Trace work result →
      Reporting back → (∀ e, result = .error e → outcome.result = .error e) →
      ToBuild settings request (front ++ look ++ (entering ++ work ++ back)) →
      LockDiscipline settings request (front ++ look ++ (entering ++ work ++ back)) outcome := by
    intro destroyFirst entering work back result hentering hwork hback houtcome htoBuild
    have hsplit : front ++ look ++ (entering ++ work ++ back) =
        (front ++ look ++ entering) ++ (work ++ back) := by simp
    rw [hsplit] at htoBuild ⊢
    exact .of_locked (hwatching.append hentering.watching) (BuildTask.locked_run hwork) hback
      rfl rfl (isLocated_of_findLocation hfront (by simp)) htoBuild houtcome
  cases hrest with
  | notFound hdecision hreporting _ =>
      refine .of_watching (hwatching.append hreporting.watching) ?_
      rw [hbuild, hdecision]
      nofun
  | reused _ hdecision hreporting _ =>
      refine .of_watching (hwatching.append hreporting.watching) ?_
      rw [hbuild, hdecision]
      nofun
  | failed destroyFirst e hdecision hentering hwork hback hfails =>
      refine hbuilding hentering hwork hback ?_ (hbuild.mpr ⟨_, hdecision⟩)
      rintro _ ⟨⟩
      exact hfails.1
  | built destroyFirst _ _ hdecision hentering hwork hback _ =>
      exact hbuilding hentering hwork hback nofun (hbuild.mpr ⟨_, hdecision⟩)

/-- Every activation keeps the discipline, whatever is answered to its requests. -/
theorem lockDiscipline_of_trace {quiet : Bool} {context : ResolutionContext}
    (h : (activate settings quiet context request).Trace calls outcome) :
    LockDiscipline settings request calls outcome := by
  cases way_of_trace h with
  | system _ hreporting _ =>
      exact .of_watching hreporting.watching (not_toBuild_of_detections hreporting.detections)
  | lost _ _ hfront hback _ =>
      exact .of_watching ((trace_findLocation hfront).1.append hback.watching)
        (not_toBuild_lost hfront hback)
  | found location found _ hfront hlook hrest => exact .of_found hfront hlook hrest

end Activation

/-! ### The world -/

/-- A state of the world with other locked files. -/
def relock {Memory : Type} (others : List Nat) (state : World × Memory) : World × Memory :=
  ({ state.1 with locked := others }, state.2)

/-- Whether a provisioner neither looks at the locks nor changes them. -/
structure Provisioner.IgnoresLocks {Memory : Type} (provisioner : Provisioner Memory) : Prop where
  isPresent : ∀ location others state, provisioner.isPresent location (relock others state) =
    ((provisioner.isPresent location state).1,
      relock others (provisioner.isPresent location state).2)
  ensure : ∀ location plan timeout state,
    (provisioner.ensure location plan timeout state).2.1.locked = state.1.locked
  destroy : ∀ location state, (provisioner.destroy location state).2.1.locked = state.1.locked

theorem World.locked_change (world : World)
    (operation : FileSystem → Location → Except IoError FileSystem) :
    (world.change operation).2.locked = world.locked := by
  rw [change]
  split <;> rfl

namespace Scripted

theorem locked_build (location : Path) (world : World) :
    (build location world).2.locked = world.locked := by
  rw [build]
  split
  · next heq => exact (congrArg (·.2.locked) heq).symm
  · next heq => exact (World.locked_change _ _).trans (congrArg (·.2.locked) heq).symm

theorem locked_remove (location : Path) (world : World) :
    (remove location world).2.locked = world.locked := by
  rw [remove]
  split
  · rw [World.removeTree]
    split <;> rfl
  · rfl

/-- A script says nothing about locks. -/
theorem ignoresLocks_provisioner : provisioner.IgnoresLocks where
  isPresent location others state := by
    obtain ⟨world, script, calls⟩ := state
    rw [provisioner]
    dsimp only [relock, isPresent]
    cases script.answers <;> rfl
  ensure location plan timeout state := by
    obtain ⟨world, script, calls⟩ := state
    rw [provisioner]
    dsimp only [ensure]
    cases script.ensure with
    | build => exact locked_build location world
    | pretend => rfl
    | fail error => rfl
  destroy location state := by
    obtain ⟨world, script, calls⟩ := state
    rw [provisioner]
    dsimp only [destroy]
    cases script.destroy with
    | remove => exact locked_remove location world
    | fail error => rfl

end Scripted

namespace Activator

open Activation (Request Call Steps lockedBy lockedAfter LockDiscipline ToBuild)

variable {Memory : Type} {provisioner : Provisioner Memory} {settings : ActivatorSettings}
  {now : Instant} {state : World × Memory}

theorem locked_remove (location : Path) (world : World) :
    (BuildRecord.remove location world).2.locked = world.locked := by
  rw [BuildRecord.remove]
  split <;> next heq => exact (congrArg (·.2.locked) heq).symm.trans (world.locked_change _)

theorem locked_writeDraft (record : BuildRecord) (location : Path) (world : World) :
    (record.writeDraft location world).2.locked = world.locked := by
  rw [BuildRecord.writeDraft]
  split <;> next heq => exact (congrArg (·.2.locked) heq).symm.trans (world.locked_change _)

theorem locked_moveDraft (location : Path) (world : World) :
    (BuildRecord.moveDraft location world).2.locked = world.locked := by
  rw [BuildRecord.moveDraft]
  split <;> next heq => exact (congrArg (·.2.locked) heq).symm.trans (world.locked_change _)

/-- What an answer says about locks is what has happened to them. -/
theorem locked_handle (hprovisioner : provisioner.IgnoresLocks) (request : Request)
    (state : World × Memory) :
    (handle settings provisioner now request state).2.1.locked =
      lockedBy state.1.locked ⟨request, (handle settings provisioner now request state).1⟩ := by
  cases request with
  | isPresent location =>
      exact congrArg (·.2.1.locked) (hprovisioner.isPresent location state.1.locked state)
  | destroy location => exact hprovisioner.destroy location state
  | ensure location plan timeout => exact hprovisioner.ensure location plan timeout state
  | acquireLock path mode timeout =>
      have hlocked := BuildLock.locked_acquireIn path mode timeout state.1
      rw [handle, onWorld_fst, onWorld_world]
      split at hlocked
      · next lock hanswer =>
          rw [hanswer]
          exact hlocked.2
      · next cause hanswer =>
          rw [hanswer]
          exact hlocked
  | removeRecord location => exact locked_remove location state.1
  | writeDraft location record => exact locked_writeDraft record location state.1
  | moveDraft location => exact locked_moveDraft location state.1
  | _ => rfl

/-- Requests that only look do not look at locks. -/
theorem handle_relock (hprovisioner : provisioner.IgnoresLocks) {request : Request}
    (h : request.Looks) (others : List Nat) (state : World × Memory) :
    handle settings provisioner now request (relock others state) =
      ((handle settings provisioner now request state).1,
        relock others (handle settings provisioner now request state).2) := by
  cases request with
  | isPresent location => exact hprovisioner.isPresent location others state
  | workingDirectory => rfl
  | declarations files => rfl
  | readRecord location => rfl
  | report event => rfl
  | _ => exact h.elim

/-- A lock is at the path that it was asked for at. -/
theorem path_of_mem_callsOf {α : Type} {steps : Steps α} {path : Path} {mode : LockMode}
    {timeout : Duration} {lock : BuildLock}
    (hmem : ⟨.acquireLock path mode timeout, .ok lock⟩ ∈
      steps.callsOf (handle settings provisioner now) state) : lock.path = path := by
  obtain ⟨before, hanswer⟩ := Procedure.exists_of_mem_callsOf hmem
  have hacquired : .ok lock =
      (handle settings provisioner now (.acquireLock path mode timeout) before).1 := hanswer
  rw [handle, onWorld_fst] at hacquired
  have hlocked := BuildLock.locked_acquireIn path mode timeout before.1
  rw [← hacquired] at hlocked
  exact hlocked.1

/-- A lock that is held in the world when it is asked for is contended. -/
theorem contends_of_held {path : Path} (h : BuildLock.Held path state.1) {mode : LockMode}
    {timeout : Duration} {answer : Except LockError BuildLock}
    (hanswer : answer =
      (handle settings provisioner now (.acquireLock path mode timeout) state).1) :
    Activation.Contends ⟨.acquireLock path mode timeout, answer⟩ := by
  rw [hanswer, handle, onWorld_fst, BuildLock.acquireIn]
  exact ⟨_, Procedure.trace_run _ _ state.1, h.contended mode timeout state.1.clock⟩

section

variable {α : Type} {steps left : Steps α} {request : ActivationRequest}
  {outcome : Activation.Outcome} {moment : World × Memory}
  (hprovisioner : provisioner.IgnoresLocks)

include hprovisioner

/-- The calls so far tell which files are locked. -/
theorem exists_calls_of_reaches
    (h : Procedure.Reaches (handle settings provisioner now) steps state left moment) :
    ∃ front, steps.callsOf (handle settings provisioner now) state =
        front ++ left.callsOf (handle settings provisioner now) moment ∧
      moment.1.locked = lockedAfter state.1.locked front :=
  h.exists_calls (·.1.locked) lockedBy (locked_handle hprovisioner)

variable (h : LockDiscipline settings request
  (steps.callsOf (handle settings provisioner now) state) outcome)

include h

/-- The locked files are the same after a run. -/
theorem locked_run :
    (steps.run (handle settings provisioner now) state).2.1.locked = state.1.locked := by
  obtain ⟨front, hcalls, hlocked⟩ := exists_calls_of_reaches hprovisioner
    (Procedure.reaches_done steps state)
  rw [hcalls, Procedure.callsOf, List.append_nil] at h
  exact hlocked.trans (h.balanced _)

/-- Whenever something is changed, the lock of its environment is held. -/
theorem exists_lock_of_reaches {asked : Request} {next : asked.Answer → Steps α} {location : Path}
    (hreaches : Procedure.Reaches (handle settings provisioner now) steps state (.ask asked next)
      moment) (hchanged : asked.changed? = some location) :
    ∃ lock : BuildLock, lock.path = Layout.lockFile location ∧
      moment.1.locked = lock.file :: state.1.locked := by
  obtain ⟨front, hcalls, hlocked⟩ := exists_calls_of_reaches hprovisioner hreaches
  obtain ⟨_, mode, timeout, lock, hmem, hheld⟩ := h.guarded front _ _ location hcalls hchanged
  have hacquired : ⟨.acquireLock (Layout.lockFile location) mode timeout, .ok lock⟩ ∈
      steps.callsOf (handle settings provisioner now) state := by
    rw [hcalls]
    exact List.mem_append_left _ hmem
  exact ⟨lock, path_of_mem_callsOf hacquired, hlocked.trans (hheld _)⟩

/-- A run that decided to build asks for its lock when the locked files are still those from before,
and if somebody holds this lock then, it changes nothing and times out. -/
theorem exists_reaches_of_toBuild
    (hbuild : ToBuild settings request (steps.callsOf (handle settings provisioner now) state)) :
    ∃ location next moment,
      Activation.IsLocated settings request
        (steps.callsOf (handle settings provisioner now) state) location ∧
      Procedure.Reaches (handle settings provisioner now) steps state (.ask (.acquireLock
        (Layout.lockFile location) settings.lockMode settings.lockTimeout) next) moment ∧
      moment.1.locked = state.1.locked ∧
      (BuildLock.Held (Layout.lockFile location) moment.1 →
        (∀ call ∈ steps.callsOf (handle settings provisioner now) state,
          call.request.changed? = none) ∧ ∃ waited, outcome.result =
            .error (.lockTimeout request.descriptor.name (Layout.lockFile location) waited)) := by
  obtain ⟨call, hmem, hlocking⟩ := h.asked.mpr hbuild
  obtain ⟨front, back, hsplit⟩ := List.append_of_mem hmem
  obtain ⟨hwatching, location, hlocated, hrequest⟩ := h.first front call back hsplit hlocking
  obtain ⟨next, moment, hreaches, hcalls, hanswer⟩ := Procedure.exists_reaches hsplit
  obtain ⟨asked, answer⟩ := call
  obtain rfl : asked = _ := hrequest
  refine ⟨location, next, moment, hlocated, hreaches, ?_, fun hheld => ?_⟩
  · obtain ⟨before, hbefore, hlocked⟩ := exists_calls_of_reaches hprovisioner hreaches
    rw [hcalls, hsplit, List.append_cancel_right_eq] at hbefore
    rw [hlocked, ← hbefore, hwatching.lockedAfter]
  · exact h.refused _ _ _ answer hmem (contends_of_held hheld hanswer)

/-- A run that did not decide to build is the same whatever is locked. -/
theorem run_relock
    (hbuild : ¬ ToBuild settings request (steps.callsOf (handle settings provisioner now) state))
    (others : List Nat) : steps.run (handle settings provisioner now) (relock others state) =
      ((steps.run (handle settings provisioner now) state).1,
        relock others (steps.run (handle settings provisioner now) state).2) :=
  Procedure.run_forget_of_calls (relock others) Request.Looks
    (fun _ hlooks => handle_relock hprovisioner hlooks others) (h.watching hbuild)

end

/-- **The discipline of build locks.**  Whatever is answered to its requests, an activation gives
back every lock and changes an environment only while it holds its lock.  In the world, the locked
files are the same after it; whenever something is changed they are those and the lock of the
environment.  If somebody else holds that lock, an activation that decided to build fails without
having changed anything, and one that did not ends as with any other locks. -/
theorem lockDiscipline_activate (hprovisioner : provisioner.IgnoresLocks) (activator : Activator)
    (now : Instant) (context : ResolutionContext) (request : ActivationRequest)
    (state : World × Memory) :
    let steps := Activation.activate activator.settings (isQuiet state.1) context request
    let answers := handle activator.settings provisioner now
    let calls := steps.callsOf answers state
    let ended := activator.activate provisioner now context request state
    (∀ {σ : Type} (answers : (request : Request) → σ → request.Answer × σ) (start : σ),
      LockDiscipline activator.settings request (steps.callsOf answers start)
        (steps.run answers start).1) ∧
    ended.2.1.locked = state.1.locked ∧
    (∀ asked next moment location, Procedure.Reaches answers steps state (.ask asked next) moment →
      asked.changed? = some location → ∃ lock : BuildLock, lock.path = Layout.lockFile location ∧
        moment.1.locked = lock.file :: state.1.locked) ∧
    (ToBuild activator.settings request calls → ∃ location next moment,
      Activation.IsLocated activator.settings request calls location ∧
      Procedure.Reaches answers steps state (.ask (.acquireLock (Layout.lockFile location)
        activator.settings.lockMode activator.settings.lockTimeout) next) moment ∧
      moment.1.locked = state.1.locked ∧
      (BuildLock.Held (Layout.lockFile location) moment.1 →
        (∀ call ∈ calls, call.request.changed? = none) ∧ ∃ waited, ended.1.result =
          .error (.lockTimeout request.descriptor.name (Layout.lockFile location) waited))) ∧
    (¬ ToBuild activator.settings request calls → ∀ others,
      activator.activate provisioner now context request (relock others state) =
        (ended.1, relock others ended.2)) := by
  intro steps answers calls ended
  have hdiscipline : ∀ {σ : Type} (answers : (request : Request) → σ → request.Answer × σ)
      (start : σ), LockDiscipline activator.settings request (steps.callsOf answers start)
        (steps.run answers start).1 := fun answers start =>
    Activation.lockDiscipline_of_trace (Procedure.trace_run answers steps start)
  have hkept := hdiscipline answers state
  refine ⟨hdiscipline, locked_run hprovisioner hkept, ?_, fun hbuild => ?_, fun hbuild others => ?_⟩
  · exact fun asked next moment location => exists_lock_of_reaches hprovisioner hkept
  · obtain ⟨location, next, moment, hlocated, hreaches, hlocked, hrefused⟩ :=
      exists_reaches_of_toBuild hprovisioner hkept hbuild
    refine ⟨location, next, moment, hlocated, hreaches, hlocked, fun hheld => ?_⟩
    obtain ⟨hnone, waited, hresult⟩ := hrefused hheld
    exact ⟨hnone, waited, congrArg (Except.map _) hresult⟩
  · have hrun := run_relock hprovisioner hkept hbuild others
    rw [activate]
    exact congrArg (fun ran => (activator.complete request ran.1, ran.2)) hrun

/-! ### A lock that somebody else has -/

/-- A world in which somebody has locked an environment. -/
def lockedWorld : World :=
  (BuildLock.attempt (Layout.lockFile (.ofText "/envs/tool")) default).2

/-- An activation of this environment that does not wait. -/
def tryTool (state : World × Scripted.Memory) : Completion × (World × Scripted.Memory) :=
  activate ⟨{ standardActivator.settings with lockMode := .failFast }, .empty⟩ Scripted.provisioner
    .epoch (.ofSearchPath []) ⟨⟨"tool", .isolated, some []⟩, .smart, .off⟩ state

theorem lockDiscipline_activate_tool :
    Scripted.provisioner.IgnoresLocks ∧ lockedWorld.locked = [1] ∧
      (tryTool (lockedWorld, {})).1.failure? = some "lock_timeout" ∧
      (tryTool (lockedWorld, {})).2.1.locked = [1] := by
  have hlocked : lockedWorld.locked = [1] := by decide +kernel
  have hfailure : (tryTool (lockedWorld, {})).1.failure? = some "lock_timeout" := by decide +kernel
  have hdiscipline := lockDiscipline_activate Scripted.ignoresLocks_provisioner
    ⟨{ standardActivator.settings with lockMode := .failFast }, .empty⟩ .epoch (.ofSearchPath [])
    ⟨⟨"tool", .isolated, some []⟩, .smart, .off⟩ (lockedWorld, {})
  exact ⟨Scripted.ignoresLocks_provisioner, hlocked, hfailure, hdiscipline.2.1.trans hlocked⟩

end Activator
end Enclave
