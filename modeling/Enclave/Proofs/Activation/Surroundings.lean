import Enclave.Proofs.Activation.Locations
import Enclave.Proofs.Activation.Ways
import Enclave.Proofs.Lock.Waiting

/-! # What an activation lives in

An activation runs in surroundings that answer its requests.  Hardly anything is known about them:
files, environments and locks may be changed by others at any time.  But a lock is answered for by
waiting for it, whatever is found on the way, and the current directory has an absolute path
(`Surroundings`).  So somebody else has a lock all the time exactly if it is answered to be busy
(`busy_iff_contends`).  The world with a provisioner is one of many surroundings
(`Activator.surroundings`). -/

namespace Enclave

namespace Activation

open BuildLock (Contended)

/-- What answers the requests of an activation from a state. -/
structure Surroundings (σ : Type) where
  handle : (request : Request) → σ → request.Answer × σ
  /-- A lock is acquired by waiting for it. -/
  waits : ∀ path mode timeout state, ∃ waits, (BuildLock.acquire path mode timeout).Trace waits
    (handle (.acquireLock path mode timeout) state).1
  /-- The current directory has an absolute path. -/
  absolute : ∀ state directory, (handle .workingDirectory state).1 = .ok directory →
    directory.isAbsolute

variable {σ α : Type} {path : Path} {mode : LockMode} {timeout : Duration}
  {answer : Except LockError BuildLock}

theorem Surroundings.exists_waits (around : Surroundings σ) {steps : Steps α} {state : σ}
    (hmem : ⟨.acquireLock path mode timeout, answer⟩ ∈ steps.callsOf around.handle state) :
    ∃ waits, (BuildLock.acquire path mode timeout).Trace waits answer := by
  obtain ⟨before, hanswer⟩ := Procedure.exists_of_mem_callsOf hmem
  have hmade : answer = (around.handle (.acquireLock path mode timeout) before).1 := hanswer
  rw [hmade]
  exact around.waits path mode timeout before

theorem Surroundings.isAbsolute_of_mem (around : Surroundings σ) {steps : Steps α} {state : σ}
    {directory : Path}
    (hmem : ⟨.workingDirectory, .ok directory⟩ ∈ steps.callsOf around.handle state) :
    directory.isAbsolute := by
  obtain ⟨before, hbefore⟩ := Procedure.exists_of_mem_callsOf hmem
  exact around.absolute before directory hbefore.symm

/-! ### Contended locks -/

/-- Whether a lock was asked for and somebody else had it whenever it was tried. -/
def Contends : Call → Prop
  | ⟨.acquireLock path mode timeout, answer⟩ =>
      ∃ waits, (BuildLock.acquire path mode timeout).Trace waits answer ∧ Contended waits
  | _ => False

/-- A lock that was waited for is answered to be busy exactly if it was contended. -/
theorem busy_iff_contends {waits : List BuildLock.Call}
    (h : (BuildLock.acquire path mode timeout).Trace waits answer) :
    Busy ⟨.acquireLock path mode timeout, answer⟩ ↔
      Contends ⟨.acquireLock path mode timeout, answer⟩ := by
  constructor
  · intro hbusy
    refine ⟨waits, h, ?_⟩
    cases BuildLock.wait_of_trace h with
    | acquired lock _ => exact hbusy.elim
    | failed cause _ => exact hbusy.elim
    | busy waited hcontended => exact hcontended
  · rintro ⟨waits', h', hcontended⟩
    obtain ⟨waited, rfl⟩ := (BuildLock.wait_of_trace h').busy_iff_contended.mpr hcontended
    trivial

theorem Surroundings.busy_iff (around : Surroundings σ) {steps : Steps α} {state : σ} {call : Call}
    (hmem : call ∈ steps.callsOf around.handle state) : Busy call ↔ Contends call := by
  obtain ⟨request, answer⟩ := call
  cases request with
  | acquireLock path mode timeout =>
      obtain ⟨waits, hwaits⟩ := around.exists_waits hmem
      exact busy_iff_contends hwaits
  | _ => exact Iff.rfl

end Activation

/-! ### The world -/

namespace Activator

variable {Memory : Type}

theorem exists_waits_handle (settings : ActivatorSettings) (provisioner : Provisioner Memory)
    (now : Instant) (path : Path) (mode : LockMode) (timeout : Duration)
    (state : World × Memory) :
    ∃ waits, (BuildLock.acquire path mode timeout).Trace waits
      (handle settings provisioner now (.acquireLock path mode timeout) state).1 := by
  rw [handle, onWorld_fst, BuildLock.acquireIn]
  exact ⟨_, Procedure.trace_run _ _ state.1⟩

/-- What activations of an activator live in: the world, and a provisioner. -/
def surroundings (settings : ActivatorSettings) (provisioner : Provisioner Memory)
    (now : Instant) : Activation.Surroundings (World × Memory) where
  handle := handle settings provisioner now
  waits := exists_waits_handle settings provisioner now
  absolute _ _ hdirectory := World.isAbsolute_currentDirectory hdirectory

end Activator
end Enclave
