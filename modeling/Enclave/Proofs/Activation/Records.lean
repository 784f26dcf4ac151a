import Enclave.Proofs.Activation.Evaluation
import Enclave.Proofs.Activation.Runs

/-! # Records tell of builds

A system begins without records below its root, and links stand neither in the place of an
environment nor in the place of a record or of its draft.  Then at every moment, also after a process
was stopped, a record of an environment tells of the last operation on it: a build with the
interpreter, the requirements and the fingerprint of the record that succeeded, after which nothing
was begun (`load_builtFrom`).  A link from one environment to another shows the record of the one as
that of the other, and a directory that is missing on the way up from it hides a record until it is
created (`load_not_builtFrom`). -/

namespace Enclave.System

open Layout FileSystem

variable {Memory : Type} {root location : Path} {provisioner : Provisioner Memory}
  {start system : System Memory}

/-- **A record tells of the last operation on its environment.** -/
theorem load_builtFrom (habsolute : root.isAbsolute) (hspares : provisioner.Spares root .links)
    (hbegins : start.Begins root .links) (hreachable : start.Reachable provisioner root .links system)
    (henvironment : IsEnvironment root location) {record : BuildRecord}
    (hload : (BuildRecord.load system.moment.1.1 location).1 = some record) :
    BuiltFrom system.moment.history location
      ⟨record.fingerprint, record.interpreter, record.requirements⟩ := by
  have hsound := (hbegins.sound habsolute).of_reachable habsolute hspares hreachable
  rw [← recordAt_eq_load (henvironment.isAbsolute habsolute)] at hload
  exact hsound.built location henvironment record hload

/-! ### A system with two environments -/

theorem exists_ok_of_map_eq_ok {ε α β : Type} {result : Except ε α} {f : α → β} {value : β}
    (h : result.map f = .ok value) : ∃ found, result = .ok found ∧ f found = value := by
  cases result with
  | error e => cases h
  | ok found => exact ⟨found, rfl, Except.ok.inj h⟩

/-- The root of the environments `a` and `b`. -/
def sampleRoot : Path := .ofText "/envs"

def sampleA : Path := sampleRoot.join (.ofText "a")

def sampleB : Path := sampleRoot.join (.ofText "b")

/-- A system with the directory of `a` and an entry in the place of `b`.  Its provisioner only
remembers what it was asked to build. -/
def sample (entry : Entry) : System (List Path) where
  activator := ⟨.standard sampleRoot, .empty⟩
  context := ⟨[], .empty⟩
  moment := ((⟨⟨[(.ofText "/envs", .directory 1), (.ofText "/envs/a", .directory 2),
    (.ofText "/envs/b", entry)], 4⟩, [], 0, .empty, [], .zero, []⟩, []), [])

/-- A request for an environment without requirements. -/
def sampleRequest (name : String) : ActivationRequest :=
  ⟨⟨name, .isolated, some []⟩, .smart, .off⟩

/-- The start of 2026. -/
def sampleTime : Instant := Date.start ⟨2026, 1, 1, by decide⟩

/-- The sample after the activation of `a`. -/
def sampleAfter (entry : Entry) : System (List Path) :=
  ((sample entry).activate .remembering sampleTime (sampleRequest "a")).2

theorem isEnvironment_sampleA : IsEnvironment sampleRoot sampleA :=
  ⟨"a", by decide, rfl⟩

theorem begins_sample (ban : Ban) : (sample (.directory 3)).Begins sampleRoot ban := by
  refine ⟨Orderly.of_entries (by decide +kernel) (by decide +kernel) ?_, ?_, rfl⟩
  · intro e he
    simp only [Moment.files, sample, List.mem_cons, List.not_mem_nil, or_false] at he
    rcases he with rfl | rfl | rfl <;> exact ban.directory _
  · intro location henvironment
    rw [← recordAt_eq_load (henvironment.isAbsolute (by decide +kernel))]
    exact recordAt_of_entries (by decide +kernel) location

theorem worksIn_sample (entry : Entry) : (sample entry).WorksIn sampleRoot :=
  worksIn_of_isAbsolute rfl (by decide +kernel)

theorem reachable_sampleAfter (entry : Entry) (ban : Ban) :
    (sample entry).Reachable .remembering sampleRoot ban (sampleAfter entry) :=
  .single (.activate _ _ _ (worksIn_sample entry))

section

-- Only the kernel runs these activations; unification compares them by name.
attribute [local irreducible] System.activate

/-- Where both are directories, the activation of `a` succeeds in its place. -/
theorem exists_activation_sample : ∃ activation,
    ((sample (.directory 3)).activate .remembering sampleTime (sampleRequest "a")).1.result =
        .ok activation ∧ activation.location = some sampleA :=
  exists_ok_of_map_eq_ok (by decide +kernel)

/-- Where both are directories, `a` has a record after its activation. -/
theorem exists_record_sampleAfter : ∃ record,
    (BuildRecord.load (sampleAfter (.directory 3)).moment.1.1 sampleA).1 = some record := by
  have habsolute : sampleRoot.isAbsolute = true := by decide +kernel
  obtain ⟨activation, hresult, hlocation⟩ := exists_activation_sample
  obtain ⟨_, _, _, hachieves⟩ := ((begins_sample .irregular).sound habsolute).exists_achieves
    habsolute (Provisioner.remembering_spares _ _) (worksIn_sample _) hresult hlocation
  obtain ⟨record, hrecord, _⟩ :=
    hachieves.recorded (by decide) fun _ => Ban.irregular_isStrict
  rw [recordAt_eq_load (isEnvironment_sampleA.isAbsolute habsolute)] at hrecord
  exact ⟨record, hrecord⟩

/-- The record of `a` tells of its activation. -/
theorem load_builtFrom_sample : ∃ record,
    (BuildRecord.load (sampleAfter (.directory 3)).moment.1.1 sampleA).1 = some record ∧
      BuiltFrom (sampleAfter (.directory 3)).moment.history sampleA
        ⟨record.fingerprint, record.interpreter, record.requirements⟩ := by
  obtain ⟨record, hrecord⟩ := exists_record_sampleAfter
  exact ⟨record, hrecord, load_builtFrom (by decide +kernel) (Provisioner.remembering_spares _ _)
    (begins_sample .links) (reachable_sampleAfter _ _) isEnvironment_sampleA hrecord⟩

end

/-! ### Links and missing directories -/

/-- A root that climbs from a missing directory. -/
def hiddenRoot : Path := .ofText "/new/../envs"

def hiddenA : Path := hiddenRoot.join (.ofText "a")

/-- The record of `a` below this root, as an array. -/
def hiddenText : String :=
  "[\"a\", \"0000000000000000000000000000000000000000000000000000000000000000\", \"\", [], " ++
    "\"2026-01-01T00:00:00Z\"]"

/-- A system with this record, which no path from its root leads to. -/
def hidden : System (List Path) where
  activator := ⟨.standard hiddenRoot, .empty⟩
  context := ⟨[], .empty⟩
  moment := ((⟨⟨[(.ofText "/envs", .directory 1), (.ofText "/envs/a", .directory 2),
    (.ofText "/envs/a/.spycery_build.json", .file 3 ⟨Bytes.ofText hiddenText, 0⟩ false)], 4⟩,
    [], 0, .empty, [], .zero, []⟩, []), [])

/-- This system after the activation of `b`, whose lock makes the missing directory. -/
def hiddenAfter : System (List Path) :=
  (hidden.activate .remembering sampleTime (sampleRequest "b")).2

theorem recordAt_hidden (h : IsEnvironment hiddenRoot location) :
    hidden.moment.files.recordAt location = none := by
  rw [Option.eq_none_iff_forall_ne_some]
  intro record hrecord
  obtain ⟨found, entry, hresolve⟩ := exists_resolve_of_recordAt hrecord
  obtain ⟨name, hname, _, rfl⟩ := h.exists_name
  have habsolute : hiddenRoot.isAbsolute = true := by decide +kernel
  have hparts : hiddenRoot.parts = [Bytes.ofText "new", Path.dotDot, Bytes.ofText "envs"] := by
    decide +kernel
  have hmissing : hidden.moment.files.entry? [Bytes.ofText "new"] = none := by decide +kernel
  rw [resolve_eq_walk (fits_of_resolve hresolve) (Path.isAbsolute_join _
      (Path.isAbsolute_join _ habsolute)), recordFile, Path.child, Path.ofText,
    Path.stepsOf_join _ isName_recordName.isPart, Path.parts_join _ hname.isPart, hparts,
    List.cons_append, List.cons_append, walk_cons, if_neg (by decide), if_neg (by decide), if_neg (by decide),
    List.nil_append, hmissing] at hresolve
  simp at hresolve

/-- An environment that was never built can have a record although there were no records: where `b`
is a link to `a`, after the activation of `a`, and where the root climbs from a missing directory,
after that is made. -/
theorem load_not_builtFrom :
    ((∀ location, IsEnvironment sampleRoot location →
        (BuildRecord.load (sample (.link (.ofText "a"))).moment.1.1 location).1 = none) ∧
      (BuildRecord.load (sampleAfter (.link (.ofText "a"))).moment.1.1 sampleB).1.isSome ∧
      ∀ plan, ¬ BuiltFrom (sampleAfter (.link (.ofText "a"))).moment.history sampleB plan) ∧
    (∀ location, IsEnvironment hiddenRoot location →
        (BuildRecord.load hidden.moment.1.1 location).1 = none) ∧
      (BuildRecord.load hiddenAfter.moment.1.1 hiddenA).1.isSome ∧
      ∀ plan, ¬ BuiltFrom hiddenAfter.moment.history hiddenA plan := by
  have hlinked : (BuildRecord.load (sampleAfter (.link (.ofText "a"))).moment.1.1
      sampleB).1.isSome := by
    rw [BuildRecord.load_eq, sampleAfter, activate_eq_activateChars]
    decide +kernel
  have hshown : (BuildRecord.load hiddenAfter.moment.1.1 hiddenA).1.isSome := by
    rw [BuildRecord.load_eq, hiddenAfter, activate_eq_activateChars]
    decide +kernel
  refine ⟨⟨fun location henvironment => ?_, hlinked, not_builtFrom (by decide +kernel)⟩,
    fun location henvironment => ?_, hshown, not_builtFrom (by decide +kernel)⟩
  · rw [← recordAt_eq_load (henvironment.isAbsolute (by decide +kernel))]
    exact recordAt_of_entries (by decide +kernel) location
  · rw [← recordAt_eq_load (henvironment.isAbsolute (by decide +kernel))]
    exact recordAt_hidden henvironment

end Enclave.System
