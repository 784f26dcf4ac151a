import Enclave.Proofs.Activation.Histories
import Enclave.Proofs.Environment.Builds
import Enclave.Proofs.Fingerprint
import Enclave.Proofs.Record

/-! # Sound moments

At a sound moment every record tells of the last operation on its environment, which was a build
(`Sound`).  A build passes through three stages: when the record was removed the environment is
vacant (`Vacant`), then the provisioner has built it (`Built`), and at last its record is there
(`Recorded`).  Operations are begun on vacant environments only (`Admits`), so whatever happens
while they go on, no record tells of something that is not there any more
(`Admits.of_interrupt`). -/

namespace Enclave

open Layout Procedure FileSystem
open Activation (Request Steps BuildTask)

/-! ### Invariants -/

/-- The plan that a record tells of. -/
def BuildRecord.plan (record : BuildRecord) : ProvisionPlan :=
  ⟨record.fingerprint, record.interpreter, record.requirements⟩

/-- Whether the fingerprint of a plan is that of its interpreter and its lines. -/
structure ProvisionPlan.IsComputed (plan : ProvisionPlan) : Prop where
  fingerprint : plan.fingerprint = Fingerprint.compute plan.interpreter ⟨[], plan.requirements⟩
  feedFree : Fingerprint.FeedFree plan.requirements

/-- Whether the plan of an operation, if there is one, is computed. -/
def Operation.IsComputed : Operation → Prop
  | ensure _ plan _ => plan.IsComputed
  | destroy _ _ => True

/-- Whether every record tells of the last operation on its environment. -/
structure Sound (root : Path) (ban : Ban) (fs : FileSystem) (history : List Operation) : Prop where
  orderly : Orderly fs root ban
  built : ∀ location, IsEnvironment root location → ∀ record,
    fs.recordAt location = some record → BuiltFrom history location record.plan
  computed : ∀ operation ∈ history, operation.IsComputed

variable {root location : Path} {ban : Ban} {fs fs' : FileSystem} {history : List Operation}

theorem Sound.of_keeps (h : Sound root ban fs history) (hkeeps : Keeps root ban fs fs') :
    Sound root ban fs' history := by
  obtain ⟨horder, hrecords⟩ := hkeeps h.orderly
  exact ⟨horder, fun location henvironment record hrecord =>
    h.built location henvironment record (hrecords location henvironment record hrecord),
    h.computed⟩

/-- An operation on an environment without a record. -/
theorem Sound.of_operation (h : Sound root ban fs history) {operation : Operation}
    (hvacant : fs.recordAt operation.location = none) (hcomputed : operation.IsComputed) :
    Sound root ban fs (operation :: history) := by
  refine ⟨h.orderly, fun other henvironment record hrecord => ?_, ?_⟩
  · have hne : operation.location ≠ other := by
      rintro rfl
      rw [hvacant] at hrecord
      cases hrecord
    exact (builtFrom_cons hne).mpr (h.built other henvironment record hrecord)
  · intro other hother
    rcases List.mem_cons.mp hother with rfl | hother
    · exact hcomputed
    · exact h.computed other hother

theorem recordAt_of_keeps (hkeeps : Keeps root ban fs fs') (h : Orderly fs root ban)
    (henvironment : IsEnvironment root location) (hvacant : fs.recordAt location = none) :
    fs'.recordAt location = none := by
  rw [Option.eq_none_iff_forall_ne_some] at hvacant ⊢
  exact fun record hrecord => hvacant record ((hkeeps h).2 location henvironment record hrecord)

variable {Memory : Type}

/-- Whether a request may be made at a moment: operations are for environments without a record. -/
def Admits (root : Path) (ban : Ban) (request : Request) (moment : Moment Memory) : Prop :=
  Sound root ban moment.files moment.history ∧
    ∀ operation ∈ Operation.begun request,
      moment.files.recordAt operation.location = none ∧ operation.IsComputed

/-- A moment stays sound when a process is stopped while a request is answered. -/
theorem Admits.of_interrupt {request : Request} {moment : Moment Memory}
    (h : Admits root ban request moment) (hkeeps : Keeps root ban moment.files fs) :
    Sound root ban fs (Operation.begun request ++ moment.history) := by
  obtain ⟨hsound, hbegun⟩ := h
  refine Sound.of_keeps ?_ hkeeps
  generalize hoperations : Operation.begun request = operations at hbegun
  cases request with
  | ensure location plan timeout =>
      obtain rfl := hoperations
      obtain ⟨hvacant, hcomputed⟩ := hbegun _ List.mem_cons_self
      exact hsound.of_operation hvacant hcomputed
  | destroy location =>
      obtain rfl := hoperations
      obtain ⟨hvacant, hcomputed⟩ := hbegun _ List.mem_cons_self
      exact hsound.of_operation hvacant hcomputed
  | _ =>
      obtain rfl := hoperations
      exact hsound

/-- The moment of a request that begins no operation. -/
theorem Sound.admits {request : Request} {moment : Moment Memory}
    (h : Sound root ban moment.files moment.history) (hnone : Operation.begun request = []) :
    Admits root ban request moment :=
  ⟨h, by simp [hnone]⟩

/-! ### Stages of a build -/

/-- Whether an environment has no record. -/
structure Vacant (root : Path) (ban : Ban) (location : Path) (moment : Moment Memory) : Prop where
  sound : Sound root ban moment.files moment.history
  vacant : moment.files.recordAt location = none

/-- Whether an environment has no record, but has been built. -/
structure Built (root : Path) (ban : Ban) (location : Path) (plan : ProvisionPlan)
    (moment : Moment Memory) : Prop extends Vacant root ban location moment where
  built : BuiltFrom moment.history location plan

/-- Whether an environment has a record with a fingerprint. -/
def Recorded (location : Path) (fingerprint : Fingerprint) (fs : FileSystem) : Prop :=
  ∃ record, fs.recordAt location = some record ∧ record.fingerprint = fingerprint

/-! ### New records -/

theorem BuildRecord.read?_text {record : BuildRecord} (h : record.fingerprint.isWellFormed) :
    read? record.text = some record := by
  rw [read?, parse?_text, Option.filter_some, if_pos h]

/-- Moving the draft of a record that tells of the last build keeps a moment sound. -/
theorem Sound.of_moveDraft {world : World} (h : Sound root ban world.files history)
    (habsolute : root.isAbsolute) (henvironment : IsEnvironment root location)
    {record : BuildRecord} (hbuilt : BuiltFrom history location record.plan)
    (hformed : record.fingerprint.isWellFormed)
    (hdrafted : BuildRecord.Drafted world.files location record.text) :
    Sound root ban (BuildRecord.moveDraft location world).2.files history ∧
      ((BuildRecord.moveDraft location world).1 = .ok () → ban.IsStrict →
        (BuildRecord.moveDraft location world).2.files.recordAt location = some record) := by
  obtain ⟨horder, hothers, hown⟩ :=
    BuildRecord.moveDraft_spec habsolute henvironment h.orderly hdrafted
  rw [BuildRecord.read?_text hformed] at hown
  refine ⟨⟨horder, fun other hother found hfound => ?_, h.computed⟩,
    fun hok hstrict => (hown hok).2 hstrict⟩
  by_cases hcase : other ≠ location ∨ (BuildRecord.moveDraft location world).1 ≠ .ok ()
  · exact h.built other hother found (hothers other hother hcase found hfound)
  · rw [not_or, Classical.not_not, Classical.not_not] at hcase
    obtain ⟨rfl, hok⟩ := hcase
    rwa [← Option.some.inj ((hown hok).1 found hfound)]

end Enclave
