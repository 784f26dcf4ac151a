import Enclave.Proofs.Lock.Attempts
import Enclave.Proofs.Lock.Waiting
import Mathlib.Algebra.Order.Floor.Div

/-! # How long a wait for a lock takes

A wait goes round after round (`round`): an attempt, a look at the clock and, unless one of these
ends the wait, a pause.  Nothing in a round counts the rounds.  What bounds them is the clock: if it
never goes back and each pause takes at least as long as asked for (`Steady`), every round that goes
on brings the measured time a poll interval closer to the time to wait, or up to it
(`timeout_le_of_round`).  So the rounds end (`lt_of_rounds`), and a wait with a bounded number of
pauses is the loop without a bound (`trace_acquire_iff`).  `acquire_settled` says how it ends and
what it asks for on the way. -/

namespace Enclave

/-! ### Loops -/

namespace Procedure

variable {Request : Type} {Answer : Request → Type} {α : Type}

/-- The calls by which a loop comes to a value: its body is repeated until it gives one. -/
inductive Repeats (body : Procedure Answer (Option α)) : List (Call Answer) → α → Prop
  | last {calls : List (Call Answer)} {value : α} :
      body.Trace calls (some value) → Repeats body calls value
  | again {front calls : List (Call Answer)} {value : α} :
      body.Trace front none → Repeats body calls value → Repeats body (front ++ calls) value

/-- The calls of a number of rounds of a loop that goes on after them. -/
inductive Rounds (body : Procedure Answer (Option α)) : Nat → List (Call Answer) → Prop
  | none : Rounds body 0 []
  | more {front calls : List (Call Answer)} {rounds : Nat} :
      body.Trace front none → Rounds body rounds calls → Rounds body (rounds + 1) (front ++ calls)

end Procedure

namespace BuildLock

open Procedure (Repeats Rounds trace_bind_iff trace_pure_iff trace_request_bind_iff)

variable {path : Path} {mode : LockMode} {timeout waited : Duration} {calls rest : List Call}
  {least bound : Nat} {answer : Except LockError BuildLock}

/-! ### Rounds -/

/-- One round of a wait: what the wait comes to, or nothing if it goes on. -/
def round (path : Path) (mode : LockMode) (timeout : Duration) :
    Procedure Request.Answer (Option (Except LockError BuildLock)) := do
  match ← Procedure.request (Request.attempt path) with
  | .error cause => return some (.error (.io path cause))
  | .ok (some lock) => return some (.ok lock)
  | .ok none =>
      let waited ← Procedure.request Request.elapsed
      if givesUp mode timeout waited then return some (.error (.busy path waited))
      Procedure.request (Request.report (waiting path))
      Procedure.request (Request.pause (nextPause timeout waited))
      return none

/-- The calls of a round that goes on. -/
def goingOn (path : Path) (timeout waited : Duration) : List Call :=
  [⟨.attempt path, .ok none⟩, ⟨.elapsed, waited⟩, ⟨.report (waiting path), ()⟩,
    ⟨.pause (nextPause timeout waited), ()⟩]

/-- How a round can go. -/
inductive Round (path : Path) (mode : LockMode) (timeout : Duration) :
    List Call → Option (Except LockError BuildLock) → Prop
  | failed (cause : IoError) :
      Round path mode timeout [⟨.attempt path, .error cause⟩] (some (.error (.io path cause)))
  | acquired (lock : BuildLock) :
      Round path mode timeout [⟨.attempt path, .ok (some lock)⟩] (some (.ok lock))
  | busy (waited : Duration) : givesUp mode timeout waited = true →
      Round path mode timeout [⟨.attempt path, .ok none⟩, ⟨.elapsed, waited⟩]
        (some (.error (.busy path waited)))
  | goesOn (waited : Duration) : givesUp mode timeout waited = false →
      Round path mode timeout (goingOn path timeout waited) none

/-- Tries once to lock a file.  If the wait is over, `ended` makes something of what it comes to, and
otherwise `again` goes on with the time waited so far. -/
def tryWith {α : Type} (path : Path) (mode : LockMode) (timeout : Duration)
    (ended : Except LockError BuildLock → α) (again : Duration → Procedure Request.Answer α) :
    Procedure Request.Answer α := do
  match ← Procedure.request (Request.attempt path) with
  | .error cause => return ended (.error (.io path cause))
  | .ok (some lock) => return ended (.ok lock)
  | .ok none =>
      let waited ← Procedure.request Request.elapsed
      if givesUp mode timeout waited then return ended (.error (.busy path waited))
      else again waited

/-- An attempt with what comes after it is a round that ends the wait, or the start of one that goes
on. -/
theorem trace_tryWith_iff {α : Type} {ended : Except LockError BuildLock → α}
    {again : Duration → Procedure Request.Answer α} {result : α} :
    (tryWith path mode timeout ended again).Trace calls result ↔
      (∃ answer, Round path mode timeout calls (some answer) ∧ result = ended answer) ∨
        ∃ waited rest, givesUp mode timeout waited = false ∧
          calls = ⟨.attempt path, .ok none⟩ :: ⟨.elapsed, waited⟩ :: rest ∧
            (again waited).Trace rest result := by
  constructor
  · intro h
    rw [tryWith] at h
    obtain ⟨tried, rest, rfl, hrest⟩ := trace_request_bind_iff.mp h
    match tried, hrest with
    | .error cause, hrest =>
        obtain ⟨rfl, rfl⟩ := trace_pure_iff.mp hrest
        exact .inl ⟨_, .failed cause, rfl⟩
    | .ok (some lock), hrest =>
        obtain ⟨rfl, rfl⟩ := trace_pure_iff.mp hrest
        exact .inl ⟨_, .acquired lock, rfl⟩
    | .ok none, hrest =>
        obtain ⟨waited, last, rfl, hlast⟩ := trace_request_bind_iff.mp hrest
        split at hlast
        · next hgives =>
            obtain ⟨rfl, rfl⟩ := trace_pure_iff.mp hlast
            exact .inl ⟨_, .busy waited hgives, rfl⟩
        · next hgives => exact .inr ⟨waited, last, Bool.eq_false_iff.mpr hgives, rfl, hlast⟩
  · rintro (⟨_, cause | lock | ⟨waited, hgives⟩, rfl⟩ | ⟨waited, rest, hgives, rfl, hrest⟩)
    · exact trace_request_bind_iff.mpr ⟨_, _, rfl, trace_pure_iff.mpr ⟨rfl, rfl⟩⟩
    · exact trace_request_bind_iff.mpr ⟨_, _, rfl, trace_pure_iff.mpr ⟨rfl, rfl⟩⟩
    · refine trace_request_bind_iff.mpr ⟨_, _, rfl, trace_request_bind_iff.mpr ⟨_, _, rfl, ?_⟩⟩
      rw [if_pos hgives]
      exact trace_pure_iff.mpr ⟨rfl, rfl⟩
    · refine trace_request_bind_iff.mpr ⟨_, _, rfl, trace_request_bind_iff.mpr ⟨_, _, rfl, ?_⟩⟩
      rwa [hgives]

theorem round_eq :
    round path mode timeout = tryWith path mode timeout some fun waited => do
      Procedure.request (Request.report (waiting path))
      Procedure.request (Request.pause (nextPause timeout waited))
      return none :=
  rfl

theorem tryThen_eq {again : Duration → Procedure Request.Answer (Except LockError BuildLock)} :
    tryThen path mode timeout again = tryWith path mode timeout id again :=
  rfl

theorem trace_round_iff {result : Option (Except LockError BuildLock)} :
    (round path mode timeout).Trace calls result ↔ Round path mode timeout calls result := by
  rw [round_eq, trace_tryWith_iff]
  constructor
  · rintro (⟨_, hround, rfl⟩ | ⟨waited, reported, hgives, rfl, hreported⟩)
    · exact hround
    · obtain ⟨_, paused, rfl, hpaused⟩ := trace_request_bind_iff.mp hreported
      obtain ⟨_, rest, rfl, hrest⟩ := trace_request_bind_iff.mp hpaused
      obtain ⟨rfl, rfl⟩ := trace_pure_iff.mp hrest
      exact .goesOn waited hgives
  · intro hround
    cases result with
    | some answer => exact .inl ⟨answer, hround, rfl⟩
    | none =>
        cases hround with
        | goesOn waited hgives =>
            refine .inr ⟨waited, _, hgives, rfl, trace_request_bind_iff.mpr ⟨_, _, rfl, ?_⟩⟩
            exact trace_request_bind_iff.mpr ⟨_, _, rfl, trace_pure_iff.mpr ⟨rfl, rfl⟩⟩

theorem trace_tryThen_iff
    {again : Duration → Procedure Request.Answer (Except LockError BuildLock)} :
    (tryThen path mode timeout again).Trace calls answer ↔
      Round path mode timeout calls (some answer) ∨
        ∃ waited rest, givesUp mode timeout waited = false ∧
          calls = ⟨.attempt path, .ok none⟩ :: ⟨.elapsed, waited⟩ :: rest ∧
            (again waited).Trace rest answer := by
  rw [tryThen_eq, trace_tryWith_iff]
  simp only [id, exists_eq_right']

/-! ### Clocks -/

/-- Whether a clock never goes back and takes at least the time of every pause: each measured time
is at least the one before it and the pauses since then, and the first is at least a given one. -/
def Steady : Nat → List Call → Prop
  | _, [] => True
  | least, ⟨.elapsed, waited⟩ :: rest => least ≤ waited.nanos ∧ Steady waited.nanos rest
  | least, ⟨.pause time, _⟩ :: rest => Steady (least + time.nanos) rest
  | least, ⟨.attempt _, _⟩ :: rest => Steady least rest
  | least, ⟨.report _, _⟩ :: rest => Steady least rest

/-- What a clock shows in a round that goes on. -/
theorem steady_goingOn_append_iff :
    Steady least (goingOn path timeout waited ++ rest) ↔
      least ≤ waited.nanos ∧ Steady (waited.nanos + (nextPause timeout waited).nanos) rest :=
  Iff.rfl

theorem givesUp_eq_false_iff :
    givesUp mode timeout waited = false ↔ mode = .block ∧ waited.nanos < timeout.nanos := by
  cases mode <;> simp [givesUp, Duration.reaches]

theorem nextPause_nanos (timeout waited : Duration) :
    (nextPause timeout waited).nanos =
      min pollInterval.nanos (timeout.nanos - waited.nanos) := by
  rw [nextPause, Duration.shorter, Duration.remainder]
  split
  · next hle => exact (min_eq_left hle).symm
  · next hle => exact (min_eq_right (Nat.le_of_not_le hle)).symm

/-- A round that goes on brings the clock a poll interval closer to the time to wait, or up to
it. -/
theorem timeout_le_of_round (hsteady : Steady least (goingOn path timeout waited ++ rest))
    (hbound : timeout.nanos ≤ least + (bound + 1) * pollInterval.nanos) :
    timeout.nanos ≤
      waited.nanos + (nextPause timeout waited).nanos + bound * pollInterval.nanos := by
  have hleast : least ≤ waited.nanos := (steady_goingOn_append_iff.mp hsteady).1
  rw [Nat.succ_mul] at hbound
  rw [nextPause_nanos]
  omega

/-- A round goes on only as long as there is time left. -/
theorem pos_of_round (hgives : givesUp mode timeout waited = false) (hleast : least ≤ waited.nanos)
    (hbound : timeout.nanos ≤ least + bound * pollInterval.nanos) : 0 < bound := by
  have htime : waited.nanos < timeout.nanos := (givesUp_eq_false_iff.mp hgives).2
  refine Nat.pos_of_ne_zero fun hzero => ?_
  rw [hzero, Nat.zero_mul] at hbound
  omega

/-- What bounds the rounds is one less after each round that goes on. -/
theorem exists_bound_of_round (hgives : givesUp mode timeout waited = false)
    (hsteady : Steady least (goingOn path timeout waited ++ rest))
    (hbound : timeout.nanos ≤ least + bound * pollInterval.nanos) :
    ∃ fewer, bound = fewer + 1 ∧ Steady (waited.nanos + (nextPause timeout waited).nanos) rest ∧
      timeout.nanos ≤
        waited.nanos + (nextPause timeout waited).nanos + fewer * pollInterval.nanos := by
  obtain ⟨hleast, hrest⟩ := steady_goingOn_append_iff.mp hsteady
  obtain ⟨fewer, rfl⟩ := Nat.exists_eq_succ_of_ne_zero (pos_of_round hgives hleast hbound).ne'
  exact ⟨fewer, rfl, hrest, timeout_le_of_round hsteady hbound⟩

/-! ### The bounded wait and the loop -/

/-- However often the loop goes round, it does so at most as often as poll intervals fit into the
time to wait. -/
theorem le_of_rounds {rounds : Nat} (h : Rounds (round path mode timeout) rounds calls)
    (hsteady : Steady least calls)
    (hbound : timeout.nanos ≤ least + bound * pollInterval.nanos) : rounds ≤ bound := by
  induction h generalizing least bound with
  | none => exact Nat.zero_le _
  | more hround _ ih =>
      cases trace_round_iff.mp hround with
      | goesOn waited hgives =>
          obtain ⟨fewer, rfl, hrest, hfewer⟩ := exists_bound_of_round hgives hsteady hbound
          exact Nat.succ_le_succ (ih hrest hfewer)

/-- With a steady clock, a wait with as many pauses as poll intervals fit into the time to wait is
the loop. -/
theorem trace_acquireWithin_iff {pauses : Nat} (hsteady : Steady least calls)
    (hbound : timeout.nanos ≤ least + pauses * pollInterval.nanos) :
    (acquireWithin path mode timeout pauses).Trace calls answer ↔
      Repeats (round path mode timeout) calls answer := by
  induction pauses generalizing least calls with
  | zero =>
      rw [acquireWithin, trace_tryThen_iff]
      constructor
      · rintro (hround | ⟨waited, rest, hgives, rfl, -⟩)
        · exact .last (trace_round_iff.mpr hround)
        -- the last attempt is made when the time to wait is over
        · have hpos : 0 < 0 := pos_of_round hgives hsteady.1 hbound
          exact absurd hpos (Nat.lt_irrefl 0)
      · rintro (hround | ⟨hround, -⟩)
        · exact .inl (trace_round_iff.mp hround)
        · cases trace_round_iff.mp hround with
          | goesOn waited hgives =>
              exact absurd (pos_of_round hgives hsteady.1 hbound) (Nat.lt_irrefl 0)
  | succ pauses ih =>
      rw [acquireWithin, trace_tryThen_iff]
      constructor
      · rintro (hround | ⟨waited, reported, hgives, rfl, hreported⟩)
        · exact .last (trace_round_iff.mpr hround)
        · obtain ⟨_, paused, rfl, hpaused⟩ := trace_request_bind_iff.mp hreported
          obtain ⟨_, rest, rfl, hrest⟩ := trace_request_bind_iff.mp hpaused
          have hnext := timeout_le_of_round hsteady hbound
          have hloop := (ih (steady_goingOn_append_iff.mp hsteady).2 hnext).mp hrest
          exact .again (trace_round_iff.mpr (.goesOn waited hgives)) hloop
      · rintro (hround | ⟨hround, hrest⟩)
        · exact .inl (trace_round_iff.mp hround)
        · cases trace_round_iff.mp hround with
          | goesOn waited hgives =>
              have hnext := timeout_le_of_round hsteady hbound
              have hlast := (ih (steady_goingOn_append_iff.mp hsteady).2 hnext).mpr hrest
              refine .inr ⟨waited, _, hgives, rfl, ?_⟩
              refine trace_request_bind_iff.mpr ⟨(), _, rfl, ?_⟩
              exact trace_request_bind_iff.mpr ⟨(), _, rfl, hlast⟩

/-! ### What a wait asks for -/

/-- How often a lock is tried. -/
def attempts (calls : List Call) : Nat :=
  calls.countP fun call =>
    match call.request with
    | .attempt _ => true
    | _ => false

/-- The time that is asked for in pauses. -/
def pauseTime (calls : List Call) : Nat :=
  (calls.map fun call =>
    match call.request with
    | .pause time => time.nanos
    | _ => 0).sum

theorem attempts_goingOn_append (timeout waited : Duration) (rest : List Call) :
    attempts (goingOn path timeout waited ++ rest) = attempts rest + 1 := by
  rw [attempts, List.countP_append, Nat.add_comm]
  rfl

theorem pauseTime_goingOn_append (timeout waited : Duration) (rest : List Call) :
    pauseTime (goingOn path timeout waited ++ rest) =
      (nextPause timeout waited).nanos + pauseTime rest := by
  simp [pauseTime, goingOn]

theorem attempts_le_of_repeats (h : Repeats (round path mode timeout) calls answer)
    (hsteady : Steady least calls)
    (hbound : timeout.nanos ≤ least + bound * pollInterval.nanos) :
    attempts calls ≤ bound + 1 := by
  induction h generalizing least bound with
  | last hround =>
      cases trace_round_iff.mp hround <;> exact Nat.succ_le_succ (Nat.zero_le bound)
  | again hround _ ih =>
      cases trace_round_iff.mp hround with
      | goesOn waited hgives =>
          obtain ⟨fewer, rfl, hrest, hfewer⟩ := exists_bound_of_round hgives hsteady hbound
          rw [attempts_goingOn_append]
          exact Nat.succ_le_succ (ih hrest hfewer)

/-- A wait that does not wait tries once. -/
theorem attempts_of_failFast (h : Repeats (round path .failFast timeout) calls answer) :
    attempts calls = 1 := by
  cases h with
  | last hround => cases trace_round_iff.mp hround <;> rfl
  | again hround =>
      cases trace_round_iff.mp hround with
      | goesOn waited hgives => cases (givesUp_eq_false_iff.mp hgives).1

/-- The pauses fit into the rest of the time to wait. -/
theorem pauseTime_le_of_repeats (h : Repeats (round path mode timeout) calls answer)
    (hsteady : Steady least calls) : pauseTime calls ≤ timeout.nanos - least := by
  induction h generalizing least with
  | last hround => cases trace_round_iff.mp hround <;> exact Nat.zero_le _
  | again hround _ ih =>
      cases trace_round_iff.mp hround with
      | goesOn waited hgives =>
          obtain ⟨hleast, hrest⟩ := steady_goingOn_append_iff.mp hsteady
          have hpauses := ih hrest
          have htime := (givesUp_eq_false_iff.mp hgives).2
          have hpause := nextPause_nanos timeout waited
          rw [pauseTime_goingOn_append]
          omega

theorem exists_of_repeats (h : Repeats (round path mode timeout) calls answer) :
    ∃ tried rest, calls = ⟨.attempt path, tried⟩ :: rest := by
  cases h with
  | last hround => cases trace_round_iff.mp hround <;> exact ⟨_, _, rfl⟩
  | again hround =>
      cases trace_round_iff.mp hround with
      | goesOn waited => exact ⟨_, _, rfl⟩

/-- The request at a place among the calls. -/
def requestAt (calls : List Call) (i : Nat) : Option Request :=
  (calls[i]?).map (·.request)

/-- After every pause the lock is tried again. -/
theorem attempt_of_pause (h : Repeats (round path mode timeout) calls answer) {i : Nat}
    {time : Duration} (hpause : requestAt calls i = some (.pause time)) :
    requestAt calls (i + 1) = some (.attempt path) := by
  induction h generalizing i with
  | last hround =>
      cases trace_round_iff.mp hround <;> rcases i with _ | _ | i <;> cases hpause
  | again hround hrest ih =>
      cases trace_round_iff.mp hround with
      | goesOn waited hgives =>
          match i, hpause with
          | 3, _ =>
              obtain ⟨tried, rest, rfl⟩ := exists_of_repeats hrest
              rfl
          | i + 4, hpause => exact ih hpause

/-- A lock is given up on because of what the clock showed last. -/
theorem givesUp_of_busy (h : Repeats (round path mode timeout) calls (.error (.busy path waited))) :
    calls.getLast? = some ⟨.elapsed, waited⟩ ∧ givesUp mode timeout waited = true := by
  generalize hanswer : Except.error (LockError.busy path waited) = answer at h
  induction h with
  | last hround =>
      subst hanswer
      cases trace_round_iff.mp hround with
      | busy _ hgives => exact ⟨rfl, hgives⟩
  | again _ _ ih =>
      obtain ⟨hlast, hgives⟩ := ih hanswer
      refine ⟨?_, hgives⟩
      rw [List.getLast?_append, hlast]
      rfl

/-! ### How a wait ends -/

/-- The number of attempts that a wait needs at most: one if it does not wait, and otherwise one for
every poll interval that has begun within the time to wait, and one more. -/
def mostAttempts : LockMode → Duration → Nat
  | .failFast, _ => 1
  | .block, timeout => timeout.nanos ⌈/⌉ pollInterval.nanos + 1

/-- How a wait for a lock goes if the clock is steady. -/
structure Settled (path : Path) (mode : LockMode) (timeout : Duration) (calls : List Call)
    (answer : Except LockError BuildLock) : Prop where
  /-- It is the loop, which nothing bounds but the clock. -/
  loops : Repeats (round path mode timeout) calls answer
  /-- The lock is tried a bounded number of times. -/
  attempts : attempts calls ≤ mostAttempts mode timeout
  /-- The first attempt that acquires the lock or fails ends the wait with what it has found. -/
  ends : Wait path calls answer
  /-- The lock is busy only if it was held at every attempt, and if there was no time to wait or
  none was left when the clock was read last. -/
  busy : ∀ waited, answer = .error (.busy path waited) →
    Contended calls ∧ calls.getLast? = some ⟨.elapsed, waited⟩ ∧
      (mode = .failFast ∨ timeout.nanos ≤ waited.nanos)
  /-- After every pause the lock is tried again. -/
  again : ∀ i time, requestAt calls i = some (.pause time) →
    requestAt calls (i + 1) = some (.attempt path)
  /-- The pauses fit into the time to wait. -/
  pauses : pauseTime calls ≤ timeout.nanos

theorem timeout_le_pausesFor (timeout : Duration) :
    timeout.nanos ≤ 0 + pausesFor timeout * pollInterval.nanos := by
  have hpoll : pollInterval.nanos = 100000000 := rfl
  rw [pausesFor, hpoll]
  omega

theorem pausesFor_eq (timeout : Duration) :
    pausesFor timeout = timeout.nanos ⌈/⌉ pollInterval.nanos :=
  (Nat.ceilDiv_eq_add_pred_div timeout.nanos pollInterval.nanos).symm

/-- However often the loop goes round, it does so fewer times than a wait needs attempts. -/
theorem lt_of_rounds {rounds : Nat} (h : Rounds (round path mode timeout) rounds calls)
    (hsteady : Steady 0 calls) : rounds < mostAttempts mode timeout := by
  cases mode with
  | failFast =>
      cases h with
      | none => exact Nat.zero_lt_one
      | more hround =>
          cases trace_round_iff.mp hround with
          | goesOn waited hgives => cases (givesUp_eq_false_iff.mp hgives).1
  | block =>
      rw [mostAttempts, ← pausesFor_eq]
      exact Nat.lt_succ_of_le (le_of_rounds h hsteady (timeout_le_pausesFor timeout))

/-- With a steady clock, waiting is the loop. -/
theorem trace_acquire_iff (hsteady : Steady 0 calls) :
    (acquire path mode timeout).Trace calls answer ↔
      Repeats (round path mode timeout) calls answer :=
  trace_acquireWithin_iff hsteady (timeout_le_pausesFor timeout)

theorem settled_of_trace (h : (acquire path mode timeout).Trace calls answer)
    (hsteady : Steady 0 calls) : Settled path mode timeout calls answer := by
  have hloop : Repeats (round path mode timeout) calls answer := (trace_acquire_iff hsteady).mp h
  refine ⟨hloop, ?_, wait_of_trace h, ?_, fun _ _ => attempt_of_pause hloop, ?_⟩
  · cases mode with
    | failFast => exact (attempts_of_failFast hloop).le
    | block =>
        rw [mostAttempts, ← pausesFor_eq]
        exact attempts_le_of_repeats hloop hsteady (timeout_le_pausesFor timeout)
  · rintro waited rfl
    obtain ⟨hlast, hgives⟩ := givesUp_of_busy hloop
    refine ⟨(wait_of_trace h).busy_iff_contended.mp ⟨waited, rfl⟩, hlast, ?_⟩
    cases mode with
    | failFast => exact .inl rfl
    | block => exact .inr (by simpa [givesUp, Duration.reaches] using hgives)
  · exact pauseTime_le_of_repeats hloop hsteady

/-! ### In the world -/

/-- The clock of the world is steady. -/
theorem steady_callsOf {α : Type} {start : Duration} (p : Procedure Request.Answer α)
    {world : World} (hstart : start.nanos ≤ world.clock.nanos) :
    Steady (world.clock.nanos - start.nanos) (p.callsOf (handle start) world) := by
  induction p generalizing world with
  | done value => exact trivial
  | ask request next ih =>
      cases request with
      | attempt path =>
          have hclock := clock_attempt path world
          have hnext : Steady ((attempt path world).2.clock.nanos - start.nanos)
              ((next (attempt path world).1).callsOf (handle start) (attempt path world).2) :=
            ih _ (hclock ▸ hstart)
          rw [hclock] at hnext
          exact hnext
      | elapsed => exact ⟨Nat.le_refl _, ih _ hstart⟩
      | pause time =>
          have hnext : Steady ((world.wait time).clock.nanos - start.nanos)
              ((next ()).callsOf (handle start) (world.wait time)) :=
            ih () (Nat.le_trans hstart (Nat.le_add_right _ _))
          have hclock : (world.wait time).clock.nanos - start.nanos =
              world.clock.nanos - start.nanos + time.nanos := Nat.sub_add_comm hstart
          rw [hclock] at hnext
          exact hnext
      | report event =>
          have hnext : Steady (world.clock.nanos - start.nanos)
              ((next ()).callsOf (handle start) (world.report event)) :=
            @ih () (world.report event) hstart
          exact hnext

/-- Waiting in the world. -/
theorem settled_acquireIn (path : Path) (mode : LockMode) (timeout : Duration) (world : World) :
    Settled path mode timeout ((acquire path mode timeout).callsOf (handle world.clock) world)
      (acquireIn path mode timeout world).1 := by
  have hsteady := steady_callsOf (acquire path mode timeout) (Nat.le_refl world.clock.nanos)
  rw [Nat.sub_self] at hsteady
  exact settled_of_trace (Procedure.trace_run _ _ world) hsteady

/-! ### Every clock -/

/-- **Waiting ends, and says why.**  Whatever attempts find and however long anything takes, as long
as the clock never goes back and pauses take their time: the loop goes round fewer times than a
wait needs attempts, a wait is this loop, and it ends as it should. -/
theorem acquire_settled (path : Path) (mode : LockMode) (timeout : Duration) :
    (∀ rounds calls, Rounds (round path mode timeout) rounds calls → Steady 0 calls →
      rounds < mostAttempts mode timeout) ∧
    ∀ {σ : Type} (handle : (request : Request) → σ → request.Answer × σ) (state : σ),
      Steady 0 ((acquire path mode timeout).callsOf handle state) →
      Settled path mode timeout ((acquire path mode timeout).callsOf handle state)
        ((acquire path mode timeout).run handle state).1 :=
  ⟨fun _ _ => lt_of_rounds, fun handle state =>
    settled_of_trace (Procedure.trace_run handle (acquire path mode timeout) state)⟩

/-- A world in which somebody has locked a file. -/
def withLocked (name : String) : World :=
  ⟨⟨[(.ofText name, .file 1 ⟨[], 0⟩ false)], 2⟩, [], 0, .empty, [1], .zero, []⟩

/-- A quarter of a second is waited in three pauses with four attempts. -/
theorem acquire_settled_held :
    let timeout := Duration.ofMillis 250
    let world := withLocked "/l"
    let calls := (acquire (.ofText "/l") .block timeout).callsOf (handle .zero) world
    Steady 0 calls ∧
      Settled (.ofText "/l") .block timeout calls (.error (.busy (.ofText "/l") timeout)) ∧
      attempts calls = 4 ∧ pauseTime calls = timeout.nanos := by
  intro timeout world calls
  have hsteady : Steady 0 calls :=
    steady_callsOf (acquire (.ofText "/l") .block timeout) (Nat.le_refl world.clock.nanos)
  have hanswer : ((acquire (.ofText "/l") .block timeout).run (handle .zero) world).1 =
      .error (.busy (.ofText "/l") timeout) := by decide +kernel
  have hsettled := (acquire_settled (.ofText "/l") .block timeout).2 (handle .zero) world hsteady
  rw [hanswer] at hsettled
  exact ⟨hsteady, hsettled, by decide +kernel, by decide +kernel⟩

end BuildLock
end Enclave
