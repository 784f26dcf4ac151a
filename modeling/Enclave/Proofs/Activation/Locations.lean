import Enclave.Activation.Activator
import Enclave.Proofs.Lock.Paths
import Enclave.Provision.Scripted

/-! # Locations of environments

Every accepted name has a location below the root (`locate_eq_ok_iff`), and no other name has the
same one.  The lock of an environment stands next to it, under a name that may be another
environment's: the names of environments and those of locks are not kept apart.  The only collision
is that of a name with the same name and the ending of locks (`lockFile_isWithin_iff`), and there
the two environments shut each other out (`lockFile_blocks`). -/

namespace Enclave

/-! ### Paths below others -/

namespace Path

variable {path top : Path} {name : Bytes}

/-- Whether a path is another one or leads into what that one denotes. -/
def IsWithin (path top : Path) : Prop :=
  top.components <+: path.components

theorem components_ofName (h : IsName name) : (⟨name⟩ : Path).components = [.name name] := by
  have hsplit := Bytes.splitOn_of_not_mem slash name h.slash_not_mem
  have hrelative : (⟨name⟩ : Path).isAbsolute = false := by
    rw [isAbsolute, beq_eq_false_iff_ne]
    exact fun hhead => h.slash_not_mem (List.mem_of_mem_head? hhead)
  have hcurrent : (⟨name⟩ : Path).startsAtCurrent = false := by
    simp [startsAtCurrent, hsplit, h.ne_dot]
  simp [components, lead, hrelative, hcurrent, hsplit, isTrivial, component, h.ne_nil, h.ne_dot,
    h.ne_dotDot]

/-- Two names in one directory are within each other only if they are the same. -/
theorem isWithin_iff_of_names {a b : Path} (ha : a.isAbsolute) (hb : b.isAbsolute)
    {above : List Bytes} {x y : Bytes} (hx : a.names = above ++ [x]) (hy : b.names = above ++ [y]) :
    (a.IsWithin b ↔ x = y) ∧ (a.same b ↔ x = y) := by
  have hsame : a.same b ↔ x = y := by
    rw [same_iff_names ha hb, hx, hy, List.append_cancel_left_eq, List.cons.injEq]
    exact and_iff_left rfl
  refine ⟨⟨fun hwithin => ?_, fun heq => ?_⟩, hsame⟩
  · have hlength : b.components.length = a.components.length := by
      simp [components_of_isAbsolute, ha, hb, hx, hy]
    exact hsame.mp (same_iff.mpr (List.IsPrefix.eq_of_length hwithin hlength).symm)
  · exact ⟨[], (List.append_nil _).trans (same_iff.mp (hsame.mpr heq)).symm⟩

end Path

/-! ### Locations -/

theorem World.isAbsolute_currentDirectory {world : World} {directory : Path}
    (h : world.currentDirectory = .ok directory) : directory.isAbsolute := by
  rw [currentDirectory] at h
  split at h
  · obtain rfl := Except.ok.inj h
    rw [Location.path]
    cases world.cwd <;> rfl
  · cases h

namespace Activation

variable {root location : Path} {name : String} {working : Except IoError Path}

theorem joinBelow?_eq_some {relative : Path} (h : Path.joinBelow? root relative = some location) :
    location = root.join relative := by
  rw [Path.joinBelow?] at h
  split at h
  · exact (Option.some.inj h).symm
  · cases h

/-- An accepted name leads nowhere but down. -/
theorem joinBelow?_ofText (root : Path) (h : Name.check name = none) :
    Path.joinBelow? root (.ofText name) = some (root.join (.ofText name)) := by
  rw [Path.joinBelow?, if_pos]
  rw [Path.ofText, Path.components_ofName (isName_ofText h)]
  rfl

theorem locate_eq_ok_iff :
    locate root name working = .ok location ↔ Name.check name = none ∧
      ∃ top, absoluteRoot root working = .ok top ∧
        Path.joinBelow? top (.ofText name) = some location := by
  rw [locate]
  cases Name.check name with
  | some refusal => simp
  | none =>
      cases absoluteRoot root working with
      | error reason => simp
      | ok top => cases hjoin : Path.joinBelow? top (.ofText name) <;> simp [hjoin]

/-- A name has no location only if it is refused or it is not known where a relative root is. -/
theorem of_locate_eq_error {e : ActivationError} (h : locate root name working = .error e) :
    (∃ reason, e = .invalidDescriptor name reason) ∧
      (Name.check name ≠ none ∨ root.isAbsolute = false ∧ ∃ cause, working = .error cause) := by
  rw [locate] at h
  cases hcheck : Name.check name with
  | some refusal =>
      rw [hcheck] at h
      exact ⟨⟨_, (Except.error.inj h).symm⟩, .inl nofun⟩
  | none =>
      rw [hcheck] at h
      cases htop : absoluteRoot root working with
      | ok top =>
          simp only [htop, joinBelow?_ofText top hcheck] at h
          cases h
      | error reason =>
          rw [htop] at h
          refine ⟨⟨_, (Except.error.inj h).symm⟩, .inr ?_⟩
          unfold absoluteRoot at htop
          split at htop
          · cases htop
          · next hrelative =>
              refine ⟨Bool.eq_false_iff.mpr hrelative, ?_⟩
              cases working with
              | ok directory => cases htop
              | error cause => exact ⟨cause, rfl⟩

/-- The current directory matters only where it is asked for. -/
theorem locate_congr {working' : Except IoError Path}
    (h : (Name.check name).isSome || root.isAbsolute) :
    locate root name working = locate root name working' := by
  rw [locate, locate]
  cases hcheck : Name.check name with
  | some refusal => rfl
  | none =>
      have habsolute : root.isAbsolute := by simpa [hcheck] using h
      simp only [absoluteRoot, if_pos habsolute]

theorem isAbsolute_absoluteRoot {top : Path} (h : absoluteRoot root working = .ok top)
    (hworking : ∀ directory, working = .ok directory → directory.isAbsolute) :
    top.isAbsolute := by
  unfold absoluteRoot at h
  split at h
  · obtain rfl := Except.ok.inj h
    assumption
  · cases working with
    | ok directory =>
        obtain rfl := Except.ok.inj h
        exact Path.isAbsolute_join root (hworking directory rfl)
    | error cause => cases h

/-- A location is absolute if the current directory is. -/
theorem isAbsolute_locate (h : locate root name working = .ok location)
    (hworking : ∀ directory, working = .ok directory → directory.isAbsolute) :
    location.isAbsolute := by
  obtain ⟨_, top, htop, hlocation⟩ := locate_eq_ok_iff.mp h
  rw [joinBelow?_eq_some hlocation]
  exact Path.isAbsolute_join _ (isAbsolute_absoluteRoot htop hworking)

/-- Every accepted name has a location, where it is known what the root is. -/
theorem locate_of_check {top : Path} (hname : Name.check name = none)
    (htop : absoluteRoot root working = .ok top) :
    locate root name working = .ok (top.join (.ofText name)) :=
  locate_eq_ok_iff.mpr ⟨hname, top, htop, joinBelow?_ofText top hname⟩

/-- Below an absolute root every accepted name has its location, wherever one is. -/
theorem locate_eq_ok_iff_of_isAbsolute (h : root.isAbsolute) :
    locate root name working = .ok location ↔
      Name.check name = none ∧ location = root.child name := by
  rw [locate_eq_ok_iff]
  refine and_congr_right fun hname => ⟨?_, ?_⟩
  · rintro ⟨top, htop, hjoin⟩
    obtain rfl := Except.ok.inj ((if_pos h).symm.trans htop)
    exact joinBelow?_eq_some hjoin
  · rintro rfl
    exact ⟨root, if_pos h, joinBelow?_ofText root hname⟩

/-- Different environments have different directories of executables. -/
theorem same_binDir_iff {first second : String} (h : root.isAbsolute)
    (hfirst : Name.check first = none) (hsecond : Name.check second = none) :
    (Layout.binDir (root.child first)).same (Layout.binDir (root.child second)) ↔
      first = second := by
  have hbin : IsName (Bytes.ofText "bin") := ⟨by decide, by decide, by decide, by decide, by decide⟩
  have hnames : ∀ {name}, Name.check name = none →
      (Layout.binDir (root.child name)).names =
        root.names ++ [Bytes.ofText name] ++ [Bytes.ofText "bin"] := fun hname =>
    (Path.names_join _ hbin).trans (congrArg (· ++ _) (Path.names_join root (isName_ofText hname)))
  have habsolute : ∀ name, (Layout.binDir (root.child name)).isAbsolute := fun _ =>
    Path.isAbsolute_join _ (Path.isAbsolute_join _ h)
  rw [Path.same_iff_names (habsolute first) (habsolute second), hnames hfirst, hnames hsecond,
    List.append_left_inj, List.append_right_inj, List.cons.injEq, and_iff_left rfl]
  exact ⟨Bytes.ofText_injective, congrArg _⟩

end Activation

/-! ### Names and their locks -/

namespace Activator

open Layout

/-- The ending that makes the name of an environment that of its lock. -/
def lockEnding : String := ".lock"

/-- **Locations and locks of accepted names.**  Different names have different locations, none of
them in another, and different locks.  The lock of an environment is the location of another one,
or in it, exactly if that has the same name with the ending of locks. -/
theorem lockFile_isWithin_iff (activator : Activator) (world : World) {root : Path}
    (hroot : Activation.absoluteRoot activator.settings.root world.currentDirectory = .ok root)
    {first second : String} (hfirst : Name.check first = none) (hsecond : Name.check second = none) :
    ∃ a b, activator.locate world first = .ok a ∧ activator.locate world second = .ok b ∧
      (a.IsWithin b ↔ first = second) ∧ (a.same b ↔ first = second) ∧
      ((lockFile a).same (lockFile b) ↔ first = second) ∧
      ((lockFile a).IsWithin b ↔ second = first ++ lockEnding) ∧
      ((lockFile a).same b ↔ second = first ++ lockEnding) := by
  have habsolute : root.isAbsolute :=
    Activation.isAbsolute_absoluteRoot hroot fun _ => World.isAbsolute_currentDirectory
  have hlock : ∀ {name}, Name.check name = none →
      (lockFile (root.join (.ofText name))).isAbsolute ∧
        (lockFile (root.join (.ofText name))).names =
          root.names ++ [Bytes.ofText (name ++ lockEnding)] := by
    intro name hname
    rw [Bytes.ofText_append]
    exact Path.names_lockFile habsolute (isName_ofText hname)
      (isName_ofText_append hname lockSuffix (by decide) (by decide))
  have hplace : ∀ {name}, Name.check name = none →
      (root.join (.ofText name)).isAbsolute ∧
        (root.join (.ofText name)).names = root.names ++ [Bytes.ofText name] := fun hname =>
    ⟨Path.isAbsolute_join _ habsolute, Path.names_join root (isName_ofText hname)⟩
  have htext : ∀ {x y : String}, Bytes.ofText x = Bytes.ofText y ↔ x = y :=
    ⟨Bytes.ofText_injective, congrArg _⟩
  have hplaces := Path.isWithin_iff_of_names (hplace hfirst).1 (hplace hsecond).1 (hplace hfirst).2
    (hplace hsecond).2
  have hlocks := Path.isWithin_iff_of_names (hlock hfirst).1 (hlock hsecond).1 (hlock hfirst).2
    (hlock hsecond).2
  have hmeet := Path.isWithin_iff_of_names (hlock hfirst).1 (hplace hsecond).1 (hlock hfirst).2
    (hplace hsecond).2
  rw [htext] at hplaces hlocks hmeet
  -- a common ending makes no difference
  rw [String.append_left_inj] at hlocks
  rw [eq_comm] at hmeet
  exact ⟨_, _, Activation.locate_of_check hfirst hroot, Activation.locate_of_check hsecond hroot,
    hplaces.1, hplaces.2, hlocks.2, hmeet.1, hmeet.2⟩

/-! ### Two environments that meet -/

/-- An activator with an absolute root. -/
def standardActivator : Activator := ⟨.standard (.ofText "/envs"), .empty⟩

theorem absoluteRoot_standardActivator :
    Activation.absoluteRoot standardActivator.settings.root (default : World).currentDirectory =
      .ok (.ofText "/envs") :=
  if_pos (by decide +kernel)

theorem lockFile_isWithin_iff_tool :
    Activation.absoluteRoot standardActivator.settings.root (default : World).currentDirectory =
        .ok (.ofText "/envs") ∧
      Name.check "tool" = none ∧ Name.check "tool.lock" = none ∧
      ∃ a b, standardActivator.locate default "tool" = .ok a ∧
        standardActivator.locate default "tool.lock" = .ok b ∧ (lockFile a).same b := by
  have hroot := absoluteRoot_standardActivator
  have hfirst : Name.check "tool" = none := by decide +kernel
  have hsecond : Name.check "tool.lock" = none := by decide +kernel
  obtain ⟨a, b, ha, hb, _, _, _, _, hmeet⟩ :=
    lockFile_isWithin_iff standardActivator default hroot hfirst hsecond
  exact ⟨hroot, hfirst, hsecond, a, b, ha, hb, hmeet.mpr (by decide +kernel)⟩

/-- The activation of an environment that is built if it is not there. -/
def build (name : String) (world : World) : Completion × (World × Scripted.Memory) :=
  standardActivator.activate Scripted.provisioner .epoch (.ofSearchPath [])
    ⟨⟨name, .isolated, some []⟩, .smart, .off⟩ (world, {})

/-- The kind of the error of an activation that failed. -/
def Completion.failure? (completion : Completion) : Option String :=
  match completion.result with
  | .ok _ => none
  | .error e => some e.kind

/-- The lock of one environment can be the location of another.  Each of the two can be built, and
the one that is built first keeps the other from being built. -/
theorem lockFile_blocks :
    Name.check "tool" = none ∧ Name.check "tool.lock" = none ∧
    (∃ a b, standardActivator.locate default "tool" = .ok a ∧
      standardActivator.locate default "tool.lock" = .ok b ∧ lockFile a = b) ∧
    (build "tool" default).1.failure? = none ∧
    (build "tool.lock" (build "tool" default).2.1).1.failure? = some "provisioning_failed" ∧
    (build "tool.lock" default).1.failure? = none ∧
    (build "tool" (build "tool.lock" default).2.1).1.failure? = some "provisioning_failed" := by
  have hfirst : Name.check "tool" = none := by decide +kernel
  have hsecond : Name.check "tool.lock" = none := by decide +kernel
  refine ⟨hfirst, hsecond, ⟨_, _, Activation.locate_of_check hfirst absoluteRoot_standardActivator,
    Activation.locate_of_check hsecond absoluteRoot_standardActivator, by decide +kernel⟩, ?_⟩
  decide +kernel

end Activator
end Enclave
