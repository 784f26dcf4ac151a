import Enclave.Lock.Mode
import Enclave.Procedure
import Enclave.World

/-! # Build locks

A build lock is a file that at most one builder has locked.  `acquire` tries to lock it, and if
another builder has it, tries again after a pause until the time to wait is over.  It is a procedure
over the answers to single attempts and the measured time; `attempt` and `release` are what a
single attempt and giving the lock back do to the world. -/

namespace Enclave

/-- A held lock: the path it was asked for, and the number of the locked file. -/
structure BuildLock where
  path : Path
  file : Nat
deriving DecidableEq, Repr

/-- Why a lock was not acquired. -/
inductive LockError
  | busy (path : Path) (waited : Duration)
  | io (path : Path) (cause : IoError)
deriving DecidableEq, Repr

/-- The wording of a lock error. -/
def LockError.message : LockError → String
  | .busy path waited =>
      s!"lock {path.display} is held by another process (waited {waited.millis}ms)"
  | .io path cause => s!"failed to open lock {path.display}: {cause.message}"

namespace BuildLock

/-- The pause between two attempts. -/
def pollInterval : Duration := .ofMillis 100

/-! ### Single attempts -/

/-- Locks a file if nobody has locked it.  The file and the directories above it are created if they
are missing. -/
def attempt (path : Path) (world : World) : Except IoError (Option BuildLock) × World :=
  let (prepared, world) := match path.parent? with
    | some parent => world.createDirectories parent
    | none => (.ok (), world)
  match prepared with
  | .error cause => (.error cause, world)
  | .ok () =>
      match world.files.touch world.base path with
      | .error cause => (.error cause, world)
      | .ok (files, id) =>
          let world := { world with files }
          if world.locked.contains id then (.ok none, world)
          else (.ok (some ⟨path, id⟩), { world with locked := id :: world.locked })

/-- Gives a lock back. -/
def release (lock : BuildLock) (world : World) : World :=
  { world with locked := world.locked.erase lock.file }

/-! ### Waiting -/

/-- What waiting for a lock asks for. -/
inductive Request
  /-- Try to lock a file. -/
  | attempt (path : Path)
  /-- The time since the start. -/
  | elapsed
  /-- A pause. -/
  | pause (time : Duration)
  /-- A report. -/
  | report (event : Event)

/-- The answers to these requests. -/
abbrev Request.Answer : Request → Type
  | attempt _ => Except IoError (Option BuildLock)
  | elapsed => Duration
  | pause _ => Unit
  | report _ => Unit

/-- The report about a wait. -/
def waiting (path : Path) : Event :=
  ⟨.debug, .lock, "waiting for concurrent build to finish", [("lock", path.display)]⟩

/-- Whether to give up on a lock that is held. -/
def givesUp (mode : LockMode) (timeout waited : Duration) : Bool :=
  mode == .failFast || waited.reaches timeout

/-- The pause before the next attempt: the poll interval, or the rest of the time to wait. -/
def nextPause (timeout waited : Duration) : Duration :=
  pollInterval.shorter (timeout.remainder waited)

/-- Tries once to lock a file.  If the lock is held and it is not time to give up, `again` goes on
with the time waited so far. -/
def tryThen (path : Path) (mode : LockMode) (timeout : Duration)
    (again : Duration → Procedure Request.Answer (Except LockError BuildLock)) :
    Procedure Request.Answer (Except LockError BuildLock) := do
  match ← Procedure.request (Request.attempt path) with
  | .error cause => return .error (.io path cause)
  | .ok (some lock) => return .ok lock
  | .ok none =>
      let waited ← Procedure.request Request.elapsed
      if givesUp mode timeout waited then return .error (.busy path waited) else again waited

/-- Tries to lock a file, with at most the given number of pauses between attempts. -/
def acquireWithin (path : Path) (mode : LockMode) (timeout : Duration) :
    Nat → Procedure Request.Answer (Except LockError BuildLock)
  | 0 => tryThen path mode timeout fun waited => return .error (.busy path waited)
  | pauses + 1 => tryThen path mode timeout fun waited => do
      Procedure.request (Request.report (waiting path))
      Procedure.request (Request.pause (nextPause timeout waited))
      acquireWithin path mode timeout pauses

/-- The number of pauses after which the time to wait is over. -/
def pausesFor (timeout : Duration) : Nat :=
  (timeout.nanos + pollInterval.nanos - 1) / pollInterval.nanos

/-- Acquires a lock according to a mode and a time to wait. -/
def acquire (path : Path) (mode : LockMode) (timeout : Duration) :
    Procedure Request.Answer (Except LockError BuildLock) :=
  acquireWithin path mode timeout (pausesFor timeout)

/-- How the world answers the requests of a wait that began at `start`. -/
def handle (start : Duration) : (request : Request) → World → request.Answer × World
  | .attempt path, world => attempt path world
  | .elapsed, world => (world.clock.remainder start, world)
  | .pause time, world => ((), world.wait time)
  | .report event, world => ((), world.report event)

/-- Acquires a lock in the world. -/
def acquireIn (path : Path) (mode : LockMode) (timeout : Duration) (world : World) :
    Except LockError BuildLock × World :=
  (acquire path mode timeout).run (handle world.clock) world

/-! ### Laws -/

/-- A lock that was just acquired and is given back leaves the held locks as they were. -/
theorem locked_release_attempt {path : Path} {world world' : World} {lock : BuildLock}
    (h : attempt path world = (.ok (some lock), world')) :
    (lock.release world').locked = world.locked := by
  unfold attempt at h
  split at h
  split at h
  · simp at h
  · split at h
    · simp at h
    · dsimp only at h
      split at h
      · simp at h
      · next hp _ _ _ _ _ =>
          simp only [Prod.mk.injEq, Except.ok.injEq, Option.some.injEq] at h
          obtain ⟨rfl, rfl⟩ := h
          simp only [release, List.erase_cons_head]
          split at hp
          · simp only [World.createDirectories, Prod.mk.injEq] at hp
            rw [← hp.2]
          · simp only [Prod.mk.injEq] at hp
            rw [hp.2]

end BuildLock
end Enclave
