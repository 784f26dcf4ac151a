import Enclave.Activation.Activator
import Enclave.Proofs.Procedure
import Enclave.Provision.Scripted

/-! # What operations report

Reports are made and never read: an operation on the world does the same whatever was reported
before, and it only adds reports (`OnlyAdds`).  So do the parts of an activation that are not the
machine itself: locks, records and requirement files.  Reports of activations come from the machine
alone. -/

namespace Enclave

variable {α β : Type}

/-- Whether an operation does the same whatever was reported before, and only adds reports, none of
which is one of an activation. -/
def OnlyAdds (operation : World → α × World) : Prop :=
  ∀ world : World, ∃ (answer : α) (after : World) (added : List Event),
    (∀ event ∈ added, event.source ≠ .activation) ∧
      ∀ events, operation { world with events } = (answer, { after with events := events ++ added })

namespace OnlyAdds

variable {operation : World → α × World}

/-- An operation that neither looks at reports nor makes any. -/
theorem of_silent (answer : World → α) (after : World → World)
    (hanswer : ∀ world events, operation { world with events } =
      (answer world, { after world with events })) : OnlyAdds operation := by
  intro world
  refine ⟨answer world, after world, [], by simp, fun events => ?_⟩
  rw [hanswer, List.append_nil]

/-- One operation after another. -/
theorem andThen {next : α → World → β × World} (h : OnlyAdds operation)
    (hnext : ∀ answer, OnlyAdds (next answer)) :
    OnlyAdds fun world => next (operation world).1 (operation world).2 := by
  intro world
  obtain ⟨answer, after, added, hadded, hoperation⟩ := h world
  obtain ⟨result, last, more, hmore, hlast⟩ := hnext answer after
  refine ⟨result, last, added ++ more, fun event hevent => ?_, fun events => ?_⟩
  · exact (List.mem_append.mp hevent).elim (hadded event) (hmore event)
  · simp only [hoperation, hlast, List.append_assoc]

theorem map (h : OnlyAdds operation) (f : α → β) :
    OnlyAdds fun world => (f (operation world).1, (operation world).2) :=
  h.andThen fun answer => of_silent (fun _ => f answer) id fun _ _ => rfl

/-- An operation that makes reports and does nothing else. -/
theorem of_reports (answer : World → α) (reports : World → List Event)
    (hanswer : ∀ world events, answer { world with events } = answer world)
    (hreports : ∀ world events, reports { world with events } = reports world)
    (hsource : ∀ world, ∀ event ∈ reports world, event.source ≠ .activation) :
    OnlyAdds fun world => (answer world, world.reportAll (reports world)) := by
  intro world
  refine ⟨answer world, world, reports world, hsource world, fun events => ?_⟩
  simp only [hanswer, hreports]
  rfl

variable {Request : Type} {Answer : Request → Type}
  {handle : (request : Request) → World → Answer request × World}

theorem run_bind {p : Procedure Answer α} {f : α → Procedure Answer β}
    (h : OnlyAdds (p.run handle)) (hf : ∀ value, OnlyAdds ((f value).run handle)) :
    OnlyAdds ((p >>= f).run handle) := by
  have hrun : (p >>= f).run handle =
      fun world => (f (p.run handle world).1).run handle (p.run handle world).2 :=
    funext fun world => Procedure.run_bind handle p f world
  rw [hrun]
  exact h.andThen hf

theorem run_pure (value : α) : OnlyAdds ((pure value : Procedure Answer α).run handle) :=
  of_silent (fun _ => value) id fun _ _ => rfl

end OnlyAdds

/-- A change of the files reports nothing. -/
theorem onlyAdds_change (operation : FileSystem → Location → Except IoError FileSystem) :
    OnlyAdds (·.change operation) := by
  refine OnlyAdds.of_silent (fun world => (world.change operation).1)
    (fun world => (world.change operation).2) fun world events => ?_
  have hbase : World.base { world with events } = world.base := rfl
  simp only [World.change, hbase]
  cases operation world.files world.base <;> rfl

theorem onlyAdds_removeTree (location : Path) : OnlyAdds (World.removeTree · location) := by
  refine OnlyAdds.of_silent (fun world => (world.removeTree location).1)
    (fun world => (world.removeTree location).2) fun world events => ?_
  have hbase : World.base { world with events } = world.base := rfl
  simp only [World.removeTree, hbase]
  cases world.files.removeTree world.base location <;> rfl

namespace BuildLock

theorem onlyAdds_attempt (path : Path) : OnlyAdds (attempt path) := by
  refine OnlyAdds.of_silent (fun world => (attempt path world).1)
    (fun world => (attempt path world).2) fun world events => ?_
  have hbase : World.base { world with events } = world.base := rfl
  unfold attempt
  cases path.parent? with
  | none =>
      simp only [hbase]
      cases world.files.touch world.base path with
      | error cause => rfl
      | ok touched =>
          dsimp only
          split <;> rfl
  | some parent =>
      simp only [World.createDirectories, hbase]
      cases hparent : world.files.createDirectories world.base parent with
      | mk prepared files =>
          cases prepared with
          | error cause => rfl
          | ok _ =>
              have hmoved : World.base { world with files, events } =
                  World.base { world with files } := rfl
              dsimp only
              rw [hmoved]
              cases files.touch (World.base { world with files }) path with
              | error cause => rfl
              | ok touched =>
                  by_cases hheld : world.locked.contains touched.2 = true
                  · simp only [hheld, if_true]
                  · simp only [hheld, Bool.false_eq_true, if_false]

variable {path : Path} {mode : LockMode} {timeout : Duration}

theorem onlyAdds_tryThen {start : Duration}
    {again : Duration → Procedure Request.Answer (Except LockError BuildLock)}
    (h : ∀ waited, OnlyAdds ((again waited).run (handle start))) :
    OnlyAdds ((tryThen path mode timeout again).run (handle start)) := by
  refine OnlyAdds.run_bind (onlyAdds_attempt path) fun tried => ?_
  cases tried with
  | error cause => exact OnlyAdds.run_pure _
  | ok found =>
      cases found with
      | some lock => exact OnlyAdds.run_pure _
      | none =>
          have helapsed : OnlyAdds ((Procedure.request Request.elapsed).run (handle start)) :=
            OnlyAdds.of_silent (fun world => world.clock.remainder start) id fun _ _ => rfl
          refine OnlyAdds.run_bind helapsed fun waited => ?_
          split
          · exact OnlyAdds.run_pure _
          · exact h waited

theorem onlyAdds_acquireWithin (start : Duration) (pauses : Nat) :
    OnlyAdds ((acquireWithin path mode timeout pauses).run (handle start)) := by
  induction pauses with
  | zero => exact onlyAdds_tryThen fun waited => OnlyAdds.run_pure _
  | succ pauses ih =>
      refine onlyAdds_tryThen fun waited => ?_
      have hreport : OnlyAdds ((Procedure.request (.report (waiting path))).run (handle start)) :=
        OnlyAdds.of_reports (fun _ => ()) (fun _ => [waiting path])
          (fun _ _ => rfl) (fun _ _ => rfl) (by simp [waiting])
      have hpause : OnlyAdds
          ((Procedure.request (.pause (nextPause timeout waited))).run (handle start)) :=
        OnlyAdds.of_silent (fun _ => ()) (·.wait (nextPause timeout waited)) fun _ _ => rfl
      exact OnlyAdds.run_bind hreport fun _ => OnlyAdds.run_bind hpause fun _ => ih

/-- Waiting for a lock. -/
theorem onlyAdds_acquireIn (path : Path) (mode : LockMode) (timeout : Duration) :
    OnlyAdds (acquireIn path mode timeout) := fun world =>
  onlyAdds_acquireWithin world.clock (pausesFor timeout) world

end BuildLock

/-! ### Records and requirements -/

namespace BuildRecord

theorem onlyAdds_writeDraft (record : BuildRecord) (location : Path) :
    OnlyAdds (record.writeDraft location) := by
  have hwrite : record.writeDraft location = fun world =>
      let changed := world.change fun files base =>
        files.writeBytes base (Layout.recordDraft location) (Bytes.ofText record.text)
      (changed.1.mapError (.draft (Layout.recordDraft location)), changed.2) := by
    funext world
    rw [writeDraft]
    split <;> next heq => simp only [heq]; rfl
  rw [hwrite]
  exact (onlyAdds_change _).map _

theorem onlyAdds_moveDraft (location : Path) : OnlyAdds (moveDraft location) := by
  have hmove : moveDraft location = fun world =>
      let changed := world.change fun files base =>
        files.rename base (Layout.recordDraft location) (Layout.recordFile location)
      (changed.1.mapError (.move (Layout.recordFile location)), changed.2) := by
    funext world
    rw [moveDraft]
    split <;> next heq => simp only [heq]; rfl
  rw [hmove]
  exact (onlyAdds_change _).map _

/-- What a removal comes to for a record. -/
private def removed (location : Path) : Except IoError Unit → Except Failure Unit
  | .ok () => .ok ()
  | .error .notFound => .ok ()
  | .error cause => .error (.remove (Layout.recordFile location) cause)

theorem onlyAdds_remove (location : Path) : OnlyAdds (remove location) := by
  have hremove : remove location = fun world =>
      let changed := world.change fun files base =>
        files.removeFile base (Layout.recordFile location)
      (removed location changed.1, changed.2) := by
    funext world
    rw [remove]
    split
    · next heq => simp only [heq, removed]
    · next heq => simp only [heq, removed]
    · next cause after hcause heq =>
        simp only [heq]
        rw [removed]
        exact hcause
  rw [hremove]
  exact (onlyAdds_change _).map _

theorem source_of_mem_load {world : World} {location : Path} {event : Event}
    (h : event ∈ (load world location).2) : event.source = .record := by
  rw [load] at h
  split at h
  · rw [ofContent] at h
    split at h
    · split at h
      · cases h
      · rw [List.mem_singleton.mp h]
        rfl
    · rw [List.mem_singleton.mp h]
      rfl
  · cases h

end BuildRecord

namespace Requirements

theorem source_of_mem_load {world : World} {files : List Path} {event : Event}
    (h : event ∈ (load world files).2) : event.source = .requirements := by
  have hall : ∀ (files : List Path) (state : Requirements × List Event),
      (∀ event ∈ state.2, event.source = .requirements) →
        ∀ event ∈ (files.foldl (loadNext world) state).2, event.source = .requirements := by
    intro files
    induction files with
    | nil => exact fun _ hstate => hstate
    | cons file rest ih =>
        intro state hstate
        refine ih _ fun event hevent => ?_
        rw [loadNext] at hevent
        split at hevent
        · exact hstate event hevent
        · rcases List.mem_append.mp hevent with hold | hnew
          · exact hstate event hold
          · rw [List.mem_singleton.mp hnew]
            rfl
  exact hall files ({}, []) (fun _ hevent => absurd hevent List.not_mem_nil) event h

end Requirements

/-! ### Provisioners -/

/-- Whether a provisioner does the same whatever was reported before, and makes no report of an
activation. -/
structure Provisioner.IgnoresEvents {Memory : Type} (provisioner : Provisioner Memory) : Prop where
  isPresent : ∀ location memory, OnlyAdds fun world =>
    let (answer, after, memory) := provisioner.isPresent location (world, memory)
    ((answer, memory), after)
  ensure : ∀ location plan timeout memory, OnlyAdds fun world =>
    let (answer, after, memory) := provisioner.ensure location plan timeout (world, memory)
    ((answer, memory), after)
  destroy : ∀ location memory, OnlyAdds fun world =>
    let (answer, after, memory) := provisioner.destroy location (world, memory)
    ((answer, memory), after)

namespace Scripted

theorem onlyAdds_build (location : Path) : OnlyAdds (build location) := by
  intro world
  have hmake (events) : World.createDirectories { world with events } (Layout.binDir location) =
      ((world.createDirectories (Layout.binDir location)).1,
        { (world.createDirectories (Layout.binDir location)).2 with events }) := rfl
  cases hmade : (world.createDirectories (Layout.binDir location)).1 with
  | error cause =>
      refine ⟨.error cause, (world.createDirectories (Layout.binDir location)).2, [], by simp,
        fun events => ?_⟩
      rw [build, hmake, hmade, List.append_nil]
  | ok _ =>
      obtain ⟨answer, after, added, hadded, hchange⟩ :=
        onlyAdds_change (fun files base => files.writeBytes base (marker location) [])
          (world.createDirectories (Layout.binDir location)).2
      refine ⟨answer, after, added, hadded, fun events => ?_⟩
      rw [build, hmake, hmade]
      exact hchange events

theorem onlyAdds_remove (location : Path) : OnlyAdds (remove location) := by
  intro world
  by_cases hthere : world.pathExists location = true
  · obtain ⟨answer, after, added, hadded, hremove⟩ := onlyAdds_removeTree location world
    refine ⟨answer, after, added, hadded, fun events => ?_⟩
    have hsame : World.pathExists { world with events } location = true := hthere
    rw [remove, if_pos hsame]
    exact hremove events
  · refine ⟨.ok (), world, [], by simp, fun events => ?_⟩
    have hsame : ¬ World.pathExists { world with events } location = true := hthere
    rw [remove, if_neg hsame, List.append_nil]

/-- A script says nothing about reports. -/
theorem ignoresEvents_provisioner : provisioner.IgnoresEvents where
  isPresent location memory := by
    obtain ⟨script, calls⟩ := memory
    dsimp only [provisioner, isPresent]
    cases script.answers with
    | nil =>
        exact OnlyAdds.of_silent
          (fun world => (world.files.isFile world.base (marker location), ⟨script, calls⟩)) id
          fun _ _ => rfl
    | cons answer answers =>
        exact OnlyAdds.of_silent (fun _ => (answer, ⟨{ script with answers }, calls⟩)) id
          fun _ _ => rfl
  ensure location plan timeout memory := by
    obtain ⟨script, calls⟩ := memory
    dsimp only [provisioner, ensure]
    cases script.ensure with
    | build => exact (onlyAdds_build location).map fun built => (ofIoError built, _)
    | pretend => exact OnlyAdds.of_silent (fun _ => (.ok (), _)) id fun _ _ => rfl
    | fail error => exact OnlyAdds.of_silent (fun _ => (.error error, _)) id fun _ _ => rfl
  destroy location memory := by
    obtain ⟨script, calls⟩ := memory
    dsimp only [provisioner, destroy]
    cases script.destroy with
    | remove => exact (onlyAdds_remove location).map fun removed => (ofIoError removed, _)
    | fail error => exact OnlyAdds.of_silent (fun _ => (.error error, _)) id fun _ _ => rfl

end Scripted
end Enclave
