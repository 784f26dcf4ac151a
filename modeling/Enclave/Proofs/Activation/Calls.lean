import Enclave.Activation.Activator
import Enclave.Proofs.Trace
import Mathlib.Data.List.TakeWhile

/-! # Calls of an activation

A call is a request of an activation with its answer.  Among the calls of an activation some only
look (`Watching`), some ask the provisioner to change an environment (`operations`), and some read a
record (`readings`).  What was seen is told by the calls too: `Sighted` says that an environment was
found with a record that has a fingerprint, and the calls before the lock is asked for are told from
those since then (`beforeLock`, `sinceLock`). -/

namespace Enclave.Activation

/-! ### Requests and calls -/

/-- A request of an activation with its answer. -/
abbrev Call := Procedure.Call Request.Answer

namespace Request

/-- Whether a request only looks at something or reports. -/
def Looks : Request → Prop
  | .workingDirectory => True
  | .declarations _ => True
  | .isPresent _ => True
  | .readRecord _ => True
  | .report _ => True
  | _ => False

/-- Whether a request asks the provisioner to change an environment. -/
def isOperation : Request → Bool
  | .destroy _ => true
  | .ensure _ _ _ => true
  | _ => false

/-- Whether a request reads a record. -/
def isReading : Request → Bool
  | .readRecord _ => true
  | _ => false

/-- Whether a request asks for a lock. -/
def isLocking : Request → Bool
  | .acquireLock _ _ _ => true
  | _ => false

theorem Looks.not_isOperation {request : Request} (h : request.Looks) :
    request.isOperation = false := by
  cases request <;> first | rfl | exact h.elim

theorem Looks.not_isLocking {request : Request} (h : request.Looks) :
    request.isLocking = false := by
  cases request <;> first | rfl | exact h.elim

end Request

/-- The calls that ask the provisioner to change an environment. -/
def operations (calls : List Call) : List Call :=
  calls.filter (·.request.isOperation)

/-- The calls that read a record. -/
def readings (calls : List Call) : List Call :=
  calls.filter (·.request.isReading)

/-- The calls before the first one that asks for a lock. -/
def beforeLock (calls : List Call) : List Call :=
  calls.takeWhile (!·.request.isLocking)

/-- The calls from the first one on that asks for a lock. -/
def sinceLock (calls : List Call) : List Call :=
  calls.dropWhile (!·.request.isLocking)

/-- Whether calls only look and report. -/
def Watching (calls : List Call) : Prop :=
  ∀ call ∈ calls, call.request.Looks

/-- Whether calls only report. -/
def Reporting (calls : List Call) : Prop :=
  ∀ call ∈ calls, ∃ event, call = ⟨.report event, ()⟩

/-- Whether an environment was found with a record that has a fingerprint. -/
def Sighted (location : Path) (fingerprint : Fingerprint) (calls : List Call) : Prop :=
  ∃ record : BuildRecord, record.fingerprint = fingerprint ∧
    [⟨.isPresent location, true⟩, ⟨.readRecord location, some record⟩] <:+: calls

/-- Whether a record with a fingerprint was read. -/
def Reads (fingerprint : Fingerprint) (calls : List Call) : Prop :=
  ∃ call ∈ readings calls, ∃ location record, call = ⟨.readRecord location, some record⟩ ∧
    record.fingerprint = fingerprint

variable {calls front back : List Call} {location : Path} {fingerprint : Fingerprint}

@[simp] theorem operations_append (front back : List Call) :
    operations (front ++ back) = operations front ++ operations back :=
  List.filter_append ..

@[simp] theorem readings_append (front back : List Call) :
    readings (front ++ back) = readings front ++ readings back :=
  List.filter_append ..

theorem readings_cons (call : Call) (calls : List Call) :
    readings (call :: calls) =
      if call.request.isReading then call :: readings calls else readings calls :=
  List.filter_cons

theorem Watching.append (hfront : Watching front) (hback : Watching back) :
    Watching (front ++ back) := fun call hcall =>
  (List.mem_append.mp hcall).elim (hfront call) (hback call)

theorem Watching.operations (h : Watching calls) : operations calls = [] := by
  rw [Activation.operations, List.filter_eq_nil_iff]
  intro call hcall
  simp [(h call hcall).not_isOperation]

theorem Reporting.watching (h : Reporting calls) : Watching calls := by
  intro call hcall
  obtain ⟨event, rfl⟩ := h call hcall
  trivial

theorem Reporting.operations (h : Reporting calls) : operations calls = [] :=
  h.watching.operations

theorem Reporting.readings (h : Reporting calls) : readings calls = [] := by
  rw [Activation.readings, List.filter_eq_nil_iff]
  intro call hcall
  obtain ⟨event, rfl⟩ := h call hcall
  nofun

theorem Reporting.append (hfront : Reporting front) (hback : Reporting back) :
    Reporting (front ++ back) := fun call hcall =>
  (List.mem_append.mp hcall).elim (hfront call) (hback call)

theorem Sighted.mono (h : Sighted location fingerprint calls) (hwithin : calls <:+: front) :
    Sighted location fingerprint front := by
  obtain ⟨record, hrecord, hseen⟩ := h
  exact ⟨record, hrecord, hseen.trans hwithin⟩

/-- What was found was read. -/
theorem Sighted.reads (h : Sighted location fingerprint calls) : Reads fingerprint calls := by
  obtain ⟨record, hrecord, hseen⟩ := h
  refine ⟨⟨.readRecord location, some record⟩, ?_, location, record, rfl, hrecord⟩
  exact List.mem_filter.mpr ⟨hseen.subset (by simp), rfl⟩

theorem reads_congr (h : readings front = readings back) :
    Reads fingerprint front ↔ Reads fingerprint back := by
  rw [Reads, Reads, h]

theorem not_reads_of_readings (h : readings calls = []) : ¬ Reads fingerprint calls := by
  rintro ⟨call, hcall, _⟩
  rw [h] at hcall
  cases hcall

theorem reads_singleton_iff {recorded : Option BuildRecord} :
    Reads fingerprint [⟨.readRecord location, recorded⟩] ↔
      recorded.map BuildRecord.fingerprint = some fingerprint := by
  rw [Option.map_eq_some_iff]
  constructor
  · rintro ⟨call, hcall, place, record, rfl, hmatch⟩
    have hread : (⟨.readRecord place, some record⟩ : Call) ∈
        [⟨.readRecord location, recorded⟩] := hcall
    cases List.mem_singleton.mp hread
    exact ⟨record, rfl, hmatch⟩
  · rintro ⟨record, rfl, hmatch⟩
    exact ⟨_, List.mem_singleton.mpr rfl, location, record, rfl, hmatch⟩

/-- The calls before a lock and those from it on. -/
theorem splitLock (hfront : Watching front) {request : Request} (hlock : request.isLocking)
    (answer : request.Answer) (back : List Call) :
    beforeLock (front ++ ⟨request, answer⟩ :: back) = front ∧
      sinceLock (front ++ ⟨request, answer⟩ :: back) = ⟨request, answer⟩ :: back := by
  have hfree : ∀ call ∈ front, (!call.request.isLocking) = true := fun call hcall => by
    simp [(hfront call hcall).not_isLocking]
  rw [beforeLock, sinceLock, List.takeWhile_append_of_pos hfree, List.dropWhile_append_of_pos hfree]
  simp [hlock]

theorem beforeLock_of_watching (h : Watching calls) : beforeLock calls = calls := by
  rw [beforeLock, List.takeWhile_eq_self_iff]
  intro call hcall
  simp [(h call hcall).not_isLocking]

theorem mem_operations {plan : ProvisionPlan} {timeout : Duration}
    {answer : Except ProvisionError Unit} :
    (⟨.ensure location plan timeout, answer⟩ : Call) ∈ operations calls ↔
      ⟨.ensure location plan timeout, answer⟩ ∈ calls := by
  simp [operations, Request.isOperation]

end Enclave.Activation
