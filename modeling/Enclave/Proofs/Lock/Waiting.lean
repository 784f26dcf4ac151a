import Enclave.Lock.Build
import Enclave.Proofs.Procedure
import Enclave.Proofs.Trace

/-! # Waiting for a lock

A wait tries the lock again and again.  It ends with the first attempt that acquires the lock or
fails, and it gives up only if every attempt has found the lock held (`Wait`, `wait_of_trace`),
whatever the clock says: so a lock is busy exactly if it was contended all the time
(`busy_iff_contended`).  In the world, what single attempts keep is kept by a wait
(`safe_acquireWithin`), and a wait locks at most the file that it was asked for
(`locked_acquireIn`). -/

namespace Enclave.BuildLock

open Procedure (trace_pure_iff trace_request_bind_iff)

/-- A request of a wait with its answer. -/
abbrev Call := Procedure.Call Request.Answer

/-- Whether somebody else held the lock whenever it was tried. -/
def Contended (waits : List Call) : Prop :=
  ∀ path answer, ⟨.attempt path, answer⟩ ∈ waits → answer = .ok none

variable {path : Path} {mode : LockMode} {timeout : Duration} {waits front : List Call}
  {answer : Except LockError BuildLock}

theorem Contended.append (hfront : Contended front) (hback : Contended waits) :
    Contended (front ++ waits) := fun path answer hmem =>
  (List.mem_append.mp hmem).elim (hfront path answer) (hback path answer)

/-! ### All answers -/

/-- How a wait for a lock can go. -/
inductive Wait (path : Path) : List Call → Except LockError BuildLock → Prop
  | acquired {earlier : List Call} (lock : BuildLock) : Contended earlier →
      Wait path (earlier ++ [⟨.attempt path, .ok (some lock)⟩]) (.ok lock)
  | failed {earlier : List Call} (cause : IoError) : Contended earlier →
      Wait path (earlier ++ [⟨.attempt path, .error cause⟩]) (.error (.io path cause))
  | busy {waits : List Call} (waited : Duration) : Contended waits →
      Wait path waits (.error (.busy path waited))

theorem Wait.prepend (h : Wait path waits answer) (hfront : Contended front) :
    Wait path (front ++ waits) answer := by
  cases h with
  | acquired lock hearlier =>
      rw [← List.append_assoc]
      exact .acquired lock (hfront.append hearlier)
  | failed cause hearlier =>
      rw [← List.append_assoc]
      exact .failed cause (hfront.append hearlier)
  | busy waited hwaits => exact .busy waited (hfront.append hwaits)

theorem wait_tryThen {again : Duration → Procedure Request.Answer (Except LockError BuildLock)}
    (hagain : ∀ waited waits, (again waited).Trace waits answer → Wait path waits answer)
    (h : (tryThen path mode timeout again).Trace waits answer) : Wait path waits answer := by
  have hfirst : Contended [] := nofun
  rw [tryThen] at h
  obtain ⟨tried, rest, rfl, hrest⟩ := trace_request_bind_iff.mp h
  cases tried with
  | error cause =>
      obtain ⟨rfl, rfl⟩ := trace_pure_iff.mp hrest
      exact .failed cause hfirst
  | ok found =>
      cases found with
      | some lock =>
          obtain ⟨rfl, rfl⟩ := trace_pure_iff.mp hrest
          exact .acquired lock hfirst
      | none =>
          obtain ⟨waited, last, rfl, hlast⟩ := trace_request_bind_iff.mp hrest
          have hcontended : Contended [⟨.attempt path, .ok none⟩, ⟨.elapsed, waited⟩] := by
            intro other answer hmem
            simp only [List.mem_cons, List.not_mem_nil, or_false] at hmem
            rcases hmem with heq | heq <;> cases heq
            rfl
          split at hlast
          · obtain ⟨rfl, rfl⟩ := trace_pure_iff.mp hlast
            exact .busy waited hcontended
          · exact (hagain waited last hlast).prepend hcontended

theorem wait_acquireWithin {pauses : Nat}
    (h : (acquireWithin path mode timeout pauses).Trace waits answer) : Wait path waits answer := by
  induction pauses generalizing waits with
  | zero =>
      rw [acquireWithin] at h
      refine wait_tryThen ?_ h
      intro waited waits hnone
      obtain ⟨rfl, rfl⟩ := trace_pure_iff.mp hnone
      exact .busy waited nofun
  | succ pauses ih =>
      rw [acquireWithin] at h
      refine wait_tryThen ?_ h
      intro waited waits hagain
      obtain ⟨_, rest, rfl, hrest⟩ := trace_request_bind_iff.mp hagain
      obtain ⟨_, last, rfl, hlast⟩ := trace_request_bind_iff.mp hrest
      have hpause : Contended [⟨.report (waiting path), ()⟩, ⟨.pause (nextPause timeout waited), ()⟩] := by
        intro other answer hmem
        simp at hmem
      exact (ih hlast).prepend hpause

/-- Whatever attempts find and clocks say, a wait goes in one of three ways. -/
theorem wait_of_trace (h : (acquire path mode timeout).Trace waits answer) :
    Wait path waits answer :=
  wait_acquireWithin h

/-- A lock is busy exactly if somebody else held it whenever it was tried. -/
theorem Wait.busy_iff_contended (h : Wait path waits answer) :
    (∃ waited, answer = .error (.busy path waited)) ↔ Contended waits := by
  cases h with
  | acquired lock =>
      refine ⟨nofun, fun hcontended => ?_⟩
      cases hcontended path _ (List.mem_append_right _ (List.mem_singleton.mpr rfl))
  | failed cause =>
      refine ⟨nofun, fun hcontended => ?_⟩
      cases hcontended path _ (List.mem_append_right _ (List.mem_singleton.mpr rfl))
  | busy waited hwaits => exact ⟨fun _ => hwaits, fun _ => ⟨waited, rfl⟩⟩

/-- Waiting for a lock fails exactly if an attempt does. -/
theorem Wait.failed_iff (h : Wait path waits answer) :
    (∃ cause, answer = .error (.io path cause)) ↔
      ∃ other cause, ⟨.attempt other, .error cause⟩ ∈ waits := by
  have hnone : ∀ {earlier : List Call}, Contended earlier →
      ∀ other cause, ⟨.attempt other, .error cause⟩ ∉ earlier := fun hearlier other cause hmem => by
    cases hearlier other _ hmem
  cases h with
  | acquired lock hearlier =>
      refine ⟨nofun, ?_⟩
      rintro ⟨other, cause, hmem⟩
      rcases List.mem_append.mp hmem with hmem | hmem
      · exact absurd hmem (hnone hearlier other cause)
      · cases List.mem_singleton.mp hmem
  | failed cause =>
      refine ⟨fun _ => ⟨path, cause, ?_⟩, fun _ => ⟨cause, rfl⟩⟩
      exact List.mem_append_right _ (List.mem_singleton.mpr rfl)
  | busy waited hwaits =>
      refine ⟨nofun, ?_⟩
      rintro ⟨other, cause, hmem⟩
      exact absurd hmem (hnone hwaits other cause)

/-! ### In the world -/

/-- What a single attempt does to the locks. -/
theorem attempt_locked (path : Path) (world : World) :
    (∃ lock, (attempt path world).1 = .ok (some lock) ∧ lock.path = path ∧
      (attempt path world).2.locked = lock.file :: world.locked) ∨
    ((∀ lock, (attempt path world).1 ≠ .ok (some lock)) ∧
      (attempt path world).2.locked = world.locked) := by
  rw [attempt]
  split
  next prepared world' heq =>
    -- Creating directories locks nothing.
    have hlocked : world'.locked = world.locked := by
      split at heq <;> exact (congrArg (·.2.locked) heq).symm
    split
    · exact .inr ⟨by simp, hlocked⟩
    · split
      · exact .inr ⟨by simp, hlocked⟩
      · next files id _ =>
          dsimp only
          split
          · exact .inr ⟨by simp, hlocked⟩
          · exact .inl ⟨_, rfl, rfl, congrArg _ hlocked⟩

variable {P : World → Prop} {Q : Except LockError BuildLock → World → Prop} {start : Duration}
  {world : World}

/-- What is known of an attempt to lock a file: as long as it finds the lock held, something is
kept, and otherwise it ends as it should. -/
structure Tries (path : Path) (P : World → Prop) (Q : Except LockError BuildLock → World → Prop) :
    Prop where
  attempt : ∀ world, P world →
    match (attempt path world).1 with
    | .ok none => P (attempt path world).2
    | .ok (some lock) => Q (.ok lock) (attempt path world).2
    | .error cause => Q (.error (.io path cause)) (attempt path world).2
  report : ∀ world event, P world → P (world.report event)
  wait : ∀ world time, P world → P (world.wait time)
  busy : ∀ world waited, P world → Q (.error (.busy path waited)) world

/-- Whether a request of a wait for one lock is made where something is kept. -/
def Admits (path : Path) (P : World → Prop) (request : Request) (world : World) : Prop :=
  P world ∧ ∀ other, request = .attempt other → other = path

theorem Tries.safe_tryThen (h : Tries path P Q)
    {again : Duration → Procedure Request.Answer (Except LockError BuildLock)}
    (hagain : ∀ waited world, P world →
      (again waited).Safe (handle start) (Admits path P) Q world) (hworld : P world) :
    (tryThen path mode timeout again).Safe (handle start) (Admits path P) Q world := by
  rw [tryThen]
  refine Procedure.safe_request_bind ⟨hworld, by rintro _ ⟨⟩; rfl⟩ ?_
  have hattempt := h.attempt world hworld
  dsimp only [handle]
  split <;> simp only [*] at hattempt
  · exact hattempt
  · exact hattempt
  · refine Procedure.safe_request_bind ⟨hattempt, nofun⟩ ?_
    split
    · exact h.busy _ _ hattempt
    · exact hagain _ _ hattempt

/-- What single attempts keep is kept by a wait. -/
theorem Tries.safe_acquireWithin (h : Tries path P Q) (pauses : Nat) (hworld : P world) :
    (acquireWithin path mode timeout pauses).Safe (handle start) (Admits path P) Q world := by
  induction pauses generalizing world with
  | zero =>
      rw [acquireWithin]
      exact h.safe_tryThen (fun waited world hworld => h.busy world waited hworld) hworld
  | succ pauses ih =>
      rw [acquireWithin]
      refine h.safe_tryThen (fun waited world hworld => ?_) hworld
      refine Procedure.safe_request_bind ⟨hworld, nofun⟩ ?_
      refine Procedure.safe_request_bind ⟨h.report _ _ hworld, nofun⟩ ?_
      exact ih (h.wait _ _ (h.report _ _ hworld))

theorem Tries.acquireIn (h : Tries path P Q) (mode : LockMode) (timeout : Duration)
    (hworld : P world) :
    Q (acquireIn path mode timeout world).1 (acquireIn path mode timeout world).2 :=
  (h.safe_acquireWithin _ hworld).run

/-- Acquiring a lock locks its file, and failing to do so locks nothing. -/
theorem locked_acquireIn (path : Path) (mode : LockMode) (timeout : Duration) (world : World) :
    match (BuildLock.acquireIn path mode timeout world).1 with
    | .ok lock => lock.path = path ∧
        (BuildLock.acquireIn path mode timeout world).2.locked = lock.file :: world.locked
    | .error _ => (BuildLock.acquireIn path mode timeout world).2.locked = world.locked := by
  have htries : Tries path (fun now => now.locked = world.locked) fun answer now =>
      match answer with
      | .ok lock => lock.path = path ∧ now.locked = lock.file :: world.locked
      | .error _ => now.locked = world.locked := by
    refine ⟨fun now hnow => ?_, fun _ _ h => h, fun _ _ h => h, fun _ _ h => h⟩
    rcases attempt_locked path now with ⟨lock, hanswer, hpath, hlocked⟩ | ⟨hnone, hlocked⟩
    · simp only [hanswer]
      exact ⟨hpath, hlocked.trans (congrArg _ hnow)⟩
    · split
      · exact hlocked.trans hnow
      · next lock hanswer => exact absurd hanswer (hnone lock)
      · exact hlocked.trans hnow
  exact htries.acquireIn mode timeout rfl

/-- Whether the file of a lock is there with a number, so that opening it changes nothing. -/
structure Opens (path : Path) (world : World) (id : Nat) : Prop where
  directory : ∀ parent, path.parent? = some parent →
    world.files.createDirectories world.base parent = (.ok (), world.files)
  file : world.files.touch world.base path = .ok (world.files, id)

/-- Whether somebody has locked the file of a lock. -/
def Held (path : Path) (world : World) : Prop :=
  ∃ id ∈ world.locked, Opens path world id

theorem Held.attempt_eq (h : Held path world) : attempt path world = (.ok none, world) := by
  obtain ⟨id, hlocked, hdirectory, hfile⟩ := h
  have hcontains : world.locked.contains id = true := List.contains_iff_mem.mpr hlocked
  have hcreate : ∀ parent, path.parent? = some parent →
      world.createDirectories parent = (.ok (), world) := by
    intro parent hparent
    simp only [World.createDirectories, hdirectory parent hparent]
  rw [attempt]
  cases hparent : path.parent? with
  | none => simp only [hfile, if_pos hcontains]
  | some parent => simp only [hcreate parent hparent, hfile, if_pos hcontains]

/-- A lock that is held in the world is held for the whole wait. -/
theorem Held.contended (h : Held path world) (mode : LockMode) (timeout start : Duration) :
    Contended ((acquire path mode timeout).callsOf (handle start) world) := by
  have htries : Tries path (Held path) fun _ _ => True := by
    refine ⟨fun now hnow => ?_, fun _ _ hnow => ?_, fun _ _ hnow => ?_, fun _ _ _ => trivial⟩
    · rw [hnow.attempt_eq]
      exact hnow
    -- opening a file depends neither on the reported events nor on the clock
    · obtain ⟨id, hlocked, hdirectory, hfile⟩ := hnow
      exact ⟨id, hlocked, hdirectory, hfile⟩
    · obtain ⟨id, hlocked, hdirectory, hfile⟩ := hnow
      exact ⟨id, hlocked, hdirectory, hfile⟩
  have hsafe : (acquire path mode timeout).Safe (handle start) (Admits path (Held path))
      (fun _ _ => True) world := htries.safe_acquireWithin _ h
  intro other answer hmem
  obtain ⟨now, ⟨hnow, hpath⟩, hanswer⟩ := hsafe.exists_of_mem_callsOf hmem
  obtain rfl := hpath other rfl
  exact hanswer.trans (congrArg Prod.fst hnow.attempt_eq)

end Enclave.BuildLock
