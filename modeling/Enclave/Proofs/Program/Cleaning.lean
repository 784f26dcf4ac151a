import Enclave.Proofs.Program.Removal
import Mathlib.Data.List.Nodup

/-! # Removing all environments

Removing goes on if environments were found, if it is no dry run and if it is forced or the answer
is a yes (`proceeds`).  Otherwise nothing changes but the log.  If it goes on, the environments
whose locks are free are removed, locks that are missing are created, and nothing else changes
(`clean_environments`), provided that neither the way to the directory nor what a lock denotes
depends on which environments are there.  That is so where the path does not lead through an
environment and no lock is a link (`Apart.of_not_link`).  On a path that leads through an
environment a removed directory comes back (`not_clean_environments`). -/

namespace Enclave

/-- Whether the files of a world are a tree of directories with proper names, each at a location of
its own, and nobody has locked a file that does not exist. -/
structure World.IsSound (world : World) : Prop where
  tree : world.files.IsTree
  parts : ∀ location, (world.files.entry? location).isSome → ∀ name ∈ location, IsPart name
  distinct : (world.files.entries.map (·.1)).Nodup
  fresh : ∀ id ∈ world.locked, id < world.files.nextId

/-- Whether a world is sound is told by its entries. -/
theorem World.isSound_of_entries {world : World}
    (htree : ∀ e ∈ world.files.entries,
      (world.files.entry? e.1.dropLast).any Entry.isDirectory = true)
    (hparts : ∀ e ∈ world.files.entries, ∀ name ∈ e.1, IsPart name)
    (hdistinct : (world.files.entries.map (·.1)).Nodup)
    (hfresh : ∀ id ∈ world.locked, id < world.files.nextId) : world.IsSound := by
  refine ⟨FileSystem.isTree_of_entries htree, fun location hsome name hname => ?_, hdistinct,
    hfresh⟩
  obtain ⟨entry, hentry⟩ := Option.isSome_iff_exists.mp hsome
  exact hparts _ (FileSystem.mem_entries (List.ne_nil_of_mem hname) hentry) name hname

namespace Program

open FileSystem

variable {log : Option Log} {before after world : World} {root path : Path} {dir : Location}
  {names : List Bytes} {state ready found : State}

/-! ### What was found -/

theorem environmentNames_of_find {id : Nat}
    (h : world.files.find world.base root = .ok (dir, .directory id)) :
    environmentNames world root =
      (world.files.namesIn dir).filter fun name => holdsEnvironment world (root.join ⟨name⟩) := by
  rw [environmentNames, listDirectory, h]

theorem Site.perm {other : List Bytes} (h : Site before root dir names) (hperm : names.Perm other) :
    Site before root dir other where
  way := by
    rw [World.without, ← without_perm hperm]
    exact h.way
  locks name hname gone hgone :=
    h.locks name (hperm.mem_iff.mpr hname) gone fun _ hmem => hperm.mem_iff.mpr (hgone hmem)
  tree := h.tree
  named := h.named
  fresh := h.fresh
  parts name hname := h.parts name (hperm.mem_iff.mpr hname)
  there name hname := h.there name (hperm.mem_iff.mpr hname)

/-- Lines in the log do not move the environments that were found. -/
theorem Site.of_differsInLog (hlog : DiffersInLog log before after) (hsound : after.IsSound)
    (hapart : Apart after root dir (environmentNames before root)) :
    Site after root dir (environmentNames before root) ∧
      (environmentNames before root).Nodup := by
  have hnamed : after.files.IsNamed :=
    fun location hsome name hname => (hsound.parts location hsome name hname).slash_not_mem
  obtain ⟨links, hway⟩ := hapart.exists_way
  obtain ⟨_, id, hfind⟩ := hway after.files hnamed (isPartOf_without _ _ _)
  have hnames := environmentNames_of_find (hlog.find_directory_iff.mpr hfind)
  rw [← hlog.namesIn] at hnames
  have hmem : ∀ name ∈ environmentNames before root, name ∈ after.files.namesIn dir ∧
      holdsEnvironment before (root.join ⟨name⟩) = true := fun name hname => by
    rwa [hnames, List.mem_filter] at hname
  refine ⟨⟨hapart, hsound.tree, hnamed, hsound.fresh, fun name hname => ?_, fun name hname => ?_⟩,
    hnames ▸ (nodup_namesIn hsound.distinct dir).filter _⟩
  · exact hsound.parts _ (mem_namesIn_iff.mp (hmem name hname).1) name (by simp)
  · have hholds := (hmem name hname).2
    rw [holdsEnvironment, Bool.and_eq_true, isDirectory_iff] at hholds
    obtain ⟨place, id, hplace⟩ := hholds.1
    exact isDirectory_iff.mpr ⟨place, id, hlog.find_directory_iff.mp hplace⟩

/-! ### What is left -/

/-- What has become of the environments in a directory: those whose locks were free are gone, locks
that were missing are empty files, and nothing else has changed, the other locks included. -/
structure Cleaned (before : World) (root : Path) (dir : Location) (names : List Bytes)
    (after : World) : Prop where
  beside : after = { before with files := after.files }
  there : ∀ name ∈ names, ∃ entry, before.files.entry? (dir ++ [name]) = some entry ∧ entry.isWay
  removed : ∀ name ∈ names, before.lockIsFree root name = true → ∀ location,
    dir ++ [name] <+: location → after.files.entry? location = none
  created : ∀ location, before.LacksLock root names location →
    ∃ id, before.files.nextId ≤ id ∧ after.files.entry? location = some (.file id ⟨[], 0⟩ false)
  locks : ∀ name ∈ names, ∀ location entry, before.lockAt root name = .ok (location, some entry) →
    entry.isDirectory = false → after.files.entry? location = some entry
  kept : ∀ location, ¬ before.LacksLock root names location →
    (∀ name ∈ names, before.lockIsFree root name = true → ¬ dir ++ [name] <+: location) →
    after.files.entry? location = before.files.entry? location

theorem Cleaned.perm {other : List Bytes} (h : Cleaned before root dir names after)
    (hperm : names.Perm other) : Cleaned before root dir other after := by
  have hlacks : ∀ location, before.LacksLock root names location ↔
      before.LacksLock root other location := fun location =>
    exists_congr fun name => and_congr_left fun _ => hperm.mem_iff
  refine ⟨h.beside, fun name hname => h.there name (hperm.mem_iff.mpr hname),
    fun name hname => h.removed name (hperm.mem_iff.mpr hname),
    fun location hlacksOther => h.created location ((hlacks location).mpr hlacksOther),
    fun name hname => h.locks name (hperm.mem_iff.mpr hname), fun location hnot hout => ?_⟩
  exact h.kept location (fun hyes => hnot ((hlacks location).mp hyes)) fun name hname =>
    hout name (hperm.mem_iff.mp hname)

/-- What is left when all environments were gone through. -/
theorem Site.cleaned {files : FileSystem} (h : Site before root dir names)
    (hstage : Stage before root dir (names.filter (before.lockIsFree root)) names files) :
    Cleaned before root dir names { before with files } := by
  obtain ⟨links, hway⟩ := h.exists_way
  have hsubset : names.filter (before.lockIsFree root) ⊆ names := List.filter_sublist.subset
  refine ⟨rfl, fun name hname => (h.entry hway hname).2.2.1,
    fun name hname hfree location hbelow => ?_, hstage.created,
    fun name hname location entry hlock hfile => ?_, fun location hlacks hout => ?_⟩
  · have hlacks : ¬ before.LacksLock root names location := fun hlacks =>
      h.not_within hlacks hname hbelow
    rw [hstage.kept location hlacks]
    exact entry?_without_of_mem (List.mem_filter.mpr ⟨hname, hfree⟩) hbelow
  · have hnot : name ++ Layout.lockSuffix ∉ names := by
      intro henvironment
      obtain ⟨_, _, _, place, id, hplace⟩ := h.entry hway henvironment
      rw [hway.lockAt h.named (isPartOf_without _ _ _) (h.parts name hname)
        (fits_of_resolve hlock), hplace] at hlock
      cases hlock
      cases hfile
    have hgone := h.locks name hname _ hsubset fun hmem => hnot (hsubset hmem)
    exact hstage.entry?_of_some (entry?_of_resolve (hgone.trans hlock))
  · rw [hstage.kept location hlacks, entry?_without_of_not]
    intro name hmem
    obtain ⟨hname, hfree⟩ := List.mem_filter.mp hmem
    exact hout name hname hfree

/-! ### Whether to remove -/

/-- Whether removing is forced or the answer is a yes. -/
def agrees (force : Bool) (input : Bytes) : Bool :=
  force || (firstLine input).text?.any isYes

/-- Whether environments are removed: some were found, it is no dry run, and it is forced or the
answer is a yes. -/
def proceeds (world : World) (root : Path) (dryRun force : Bool) (input : Bytes) : Bool :=
  !(environmentNames world root).isEmpty && !dryRun && agrees force input

variable {listed : List Listed} {dryRun force : Bool}

/-- The state after the question has been asked. -/
def asked (state : State) : State :=
  { state with stderr := state.stderr ++ Bytes.ofText "\nRemove all environments? [y/N] " }

theorem run_confirm_some {answer : String} (h : (firstLine state.input).text? = some answer) :
    confirm.run state = (.ok (isYes answer), asked state) := by
  have hinput : (firstLine (asked state).input).text? = some answer := h
  rw [confirm, run_bind_ok (run_printError _ state), ← asked, run_bind_ok (run_get _), hinput]
  rfl

theorem run_confirm_none (h : (firstLine state.input).text? = none) :
    confirm.run state = (.error ⟨IoError.notUtf8.message, []⟩, asked state) := by
  have hinput : (firstLine (asked state).input).text? = none := h
  rw [confirm, run_bind_ok (run_printError _ state), ← asked, run_bind_ok (run_get _), hinput]
  rfl

/-- The state after it has been said what is about to be removed. -/
def warned (root : Path) (listed : List Listed) (state : State) : State :=
  { state with stderr := state.stderr ++ linesOf (overview root listed) }

theorem run_overview (root : Path) (listed : List Listed) (state : State) :
    ((overview root listed).forM printErrorLine).run state = (.ok (), warned root listed state) :=
  run_printErrorLines (overview root listed) state

/-- Without environments, in a dry run and without a yes, nothing but messages is written. -/
theorem world_removeEnvironments
    (h : listed = [] ∨ dryRun = true ∨ agrees force state.input = false) :
    ((removeEnvironments root listed dryRun force).run state).2.world = state.world := by
  rw [removeEnvironments]
  by_cases hempty : listed.isEmpty = true
  · rw [if_pos hempty]
    rfl
  · rw [if_neg hempty, run_bind_ok (run_overview root listed state)]
    cases dryRun with
    | true => rfl
    | false =>
        have hagrees : agrees force state.input = false :=
          (h.resolve_left fun hnil => hempty (by rw [hnil]; rfl)).resolve_left nofun
        obtain ⟨hforce, hanswer⟩ := Bool.or_eq_false_iff.mp hagrees
        subst hforce
        rw [if_neg Bool.false_ne_true, if_neg Bool.false_ne_true]
        cases htext : (firstLine state.input).text? with
        | none =>
            have hconfirm := @run_confirm_none (warned root listed state) htext
            rw [run_bind_error hconfirm]
            rfl
        | some answer =>
            have hconfirm := @run_confirm_some (warned root listed state) answer htext
            rw [htext, Option.any_some] at hanswer
            rw [run_bind_ok hconfirm, hanswer]
            rfl

/-- What is to be done with a yes is done. -/
theorem run_agreed (hagrees : agrees force state.input = true) :
    ∃ stderr, ∀ next : Bool → Action Unit,
      (if force then pure true >>= next else confirm >>= next).run state =
        (next true).run { state with stderr } := by
  cases force with
  | true => exact ⟨state.stderr, fun next => rfl⟩
  | false =>
      rw [agrees, Bool.false_or] at hagrees
      cases htext : (firstLine state.input).text? with
      | none =>
          rw [htext] at hagrees
          cases hagrees
      | some answer =>
          rw [htext, Option.any_some] at hagrees
          refine ⟨(asked state).stderr, fun next => ?_⟩
          rw [if_neg Bool.false_ne_true, run_bind_ok (run_confirm_some htext), hagrees]
          rfl

/-- With environments and a yes, they are removed one after the other, and what became of them is
said at the end. -/
theorem run_removeEnvironments (hlisted : listed ≠ []) (hagrees : agrees force state.input = true)
    (hevents : state.world.events = []) :
    ∃ text, (removeEnvironments root listed false force).run state = (.ok (),
      { state with
        world := (removeEach listed state.world).2
        stderr := text ++ Bytes.ofText
          (removalSummary listed.length (removeEach listed state.world).1 ++ "\n") }) := by
  have hempty : ¬ listed.isEmpty = true := fun h => hlisted (List.isEmpty_iff.mp h)
  have hwarned : agrees force (warned root listed state).input = true := hagrees
  obtain ⟨stderr, hagreed⟩ := run_agreed hwarned
  have hremove := @run_removeAll listed { state with stderr } hevents
  refine ⟨stderr ++ linesOf ((removeEach listed state.world).1.filterMap Removal.notice?) ++
    Bytes.ofText ("" ++ "\n"), ?_⟩
  rw [removeEnvironments, if_neg hempty, run_bind_ok (run_overview root listed state),
    if_neg Bool.false_ne_true]
  refine (hagreed _).trans ?_
  dsimp only
  rw [if_pos rfl]
  refine (run_bind_ok hremove).trans ?_
  rw [run_bind_ok (run_printErrorLine _ _), run_printErrorLine]

/-! ### Removing -/

theorem length_environments (world : World) (root : Path) :
    (environments world root).length = (environmentNames world root).length := by
  rw [environments, List.length_mergeSort, List.length_map]

/-- Environments are removed in the order in which they are listed. -/
theorem Site.removeEach (h : Site after root dir (environmentNames before root))
    (hnodup : (environmentNames before root).Nodup) :
    ∃ removals world, removeEach (environments before root) after = (removals, world) ∧
      removals.countP Removal.isRemoved =
        (environmentNames before root).countP (after.lockIsFree root) ∧
      Cleaned after root dir (environmentNames before root) world := by
  obtain ⟨names, hperm, hshown, hlisted⟩ := exists_names h.parts
  have hsite := h.perm hperm.symm
  obtain ⟨removals, files, hremovals, hareRemoved, hstage⟩ :=
    hsite.stage.removeEach hsite (hperm.nodup_iff.mpr hnodup) hshown before (List.nil_append names)
      (List.Subset.refl [])
  refine ⟨removals, _, hlisted ▸ hremovals, ?_, (hsite.cleaned hstage).perm hperm⟩
  rw [← hperm.countP_eq]
  have hcount := congrArg (List.countP id) hareRemoved
  rwa [List.countP_map, List.countP_map] at hcount

theorem proceeds_eq_true_iff {input : Bytes} :
    proceeds world root dryRun force input = true ↔
      environmentNames world root ≠ [] ∧ dryRun = false ∧ agrees force input = true := by
  rw [proceeds, Bool.and_eq_true, Bool.and_eq_true, Bool.not_eq_true', Bool.not_eq_true',
    List.isEmpty_eq_false_iff, and_assoc]

/-- When removing goes on, the environments that were found are removed one after the other. -/
theorem run_clean {root : Option Path}
    (hready : (rootDirectory root).run state = (.ok path, ready))
    (hfound : ((findEnvironments root).run state).2 = found)
    (hproceeds : proceeds ready.world path dryRun force state.input = true) :
    ∃ text, (clean root dryRun force).run state = (.ok (),
      { found with
        world := (removeEach (environments ready.world path) found.world).2
        stderr := text ++ Bytes.ofText
          (removalSummary (environmentNames ready.world path).length
            (removeEach (environments ready.world path) found.world).1 ++ "\n") }) := by
  obtain ⟨path', ready', found', hroot, hreadyLogs, hfoundLogs, hevents, hcases⟩ :=
    run_findEnvironments root state
  rw [hready] at hroot
  cases hroot
  obtain ⟨hsome, rfl, hagrees⟩ := proceeds_eq_true_iff.mp hproceeds
  have hlisted := hcases.resolve_right fun hnone => hsome hnone.1
  rw [hlisted] at hfound
  obtain rfl : found' = found := hfound
  have hinput : found'.input = state.input := by rw [hfoundLogs.beside, hreadyLogs.beside]
  obtain ⟨text, hrun⟩ := run_removeEnvironments (mt environments_eq_nil_iff.mp hsome)
    (hinput ▸ hagrees) hevents
  rw [length_environments] at hrun
  exact ⟨text, (run_bind_ok hlisted).trans hrun⟩

/-- Otherwise nothing is removed. -/
theorem world_clean {root : Option Path}
    (hready : (rootDirectory root).run state = (.ok path, ready))
    (hfound : ((findEnvironments root).run state).2 = found)
    (hproceeds : proceeds ready.world path dryRun force state.input = false) :
    ((clean root dryRun force).run state).2.world = found.world := by
  obtain ⟨path', ready', found', hroot, hreadyLogs, hfoundLogs, _, hcases⟩ :=
    run_findEnvironments root state
  rw [hready] at hroot
  cases hroot
  rcases hcases with hlisted | ⟨_, _, herror⟩
  · rw [hlisted] at hfound
    obtain rfl : found' = found := hfound
    have hinput : found'.input = state.input := by rw [hfoundLogs.beside, hreadyLogs.beside]
    rw [clean, run_bind_ok hlisted]
    refine world_removeEnvironments ?_
    rw [environments_eq_nil_iff, hinput]
    rw [proceeds, Bool.and_eq_false_iff, Bool.and_eq_false_iff, Bool.not_eq_false',
      Bool.not_eq_false', List.isEmpty_iff, or_assoc] at hproceeds
    exact hproceeds
  · rw [herror] at hfound
    rw [clean, run_bind_error herror, ← hfound]

/-- A state with the environments `a` and `b` in a directory, and with further entries and locked
files. -/
def sample (more : List (Location × Entry)) (locked : List Nat) : State where
  world :=
    { files :=
        { entries := [(.ofText "/envs", .directory 1), (.ofText "/envs/a", .directory 2),
            (.ofText "/envs/a/bin", .directory 3),
            (.ofText "/envs/a/bin/python", .file 4 ⟨[], 0⟩ true),
            (.ofText "/envs/b", .directory 5), (.ofText "/envs/b/bin", .directory 6),
            (.ofText "/envs/b/bin/python", .file 7 ⟨[], 0⟩ true)] ++ more
          nextId := 13 }
      cwd := []
      cwdId := 0
      environ := ⟨[]⟩
      locked }
  now := .epoch
  input := []

/-- A state in which the lock of `b` is held, `c` is a link to an environment elsewhere and `notes`
is a directory like any other. -/
def sampleHeld : State :=
  sample [(.ofText "/envs/b.lock", .file 8 ⟨[], 0⟩ false),
    (.ofText "/envs/c", .link (.ofText "../d")), (.ofText "/d", .directory 9),
    (.ofText "/d/bin", .directory 10), (.ofText "/d/bin/python", .file 11 ⟨[], 0⟩ true),
    (.ofText "/envs/notes", .directory 12)] [8]

theorem environmentNames_sampleHeld : environmentNames sampleHeld.world (.ofText "/envs") =
    [Bytes.ofText "a", Bytes.ofText "b", Bytes.ofText "c"] := by
  decide +kernel

theorem apart_sampleHeld : Apart sampleHeld.world (.ofText "/envs") (.ofText "/envs")
    [Bytes.ofText "a", Bytes.ofText "b", Bytes.ofText "c"] := by
  have hnamed : sampleHeld.world.files.IsNamed := isNamed_of_entries (by decide +kernel)
  have hway : (sampleHeld.world.without (.ofText "/envs")
      [Bytes.ofText "a", Bytes.ofText "b", Bytes.ofText "c"]).files.find
        (sampleHeld.world.without (.ofText "/envs")
          [Bytes.ofText "a", Bytes.ofText "b", Bytes.ofText "c"]).base (.ofText "/envs") =
      .ok (.ofText "/envs", .directory 1) := rfl
  refine Apart.of_not_link hnamed (by decide +kernel) hway fun name hname target hlink => ?_
  simp only [List.mem_cons, List.not_mem_nil, or_false] at hname
  rcases hname with rfl | rfl | rfl <;> cases hlink

/-- Whether a directory stands in the place of an environment whose lock was free after all
environments were to be removed. -/
def Survives (state : State) (root : Path) (dir : Location) (name : Bytes) : Prop :=
  name ∈ environmentNames state.world root ∧ state.world.lockIsFree root name = true ∧
    ((clean (some root) false true).run state).2.world.files.HasDirectory (dir ++ [name])

theorem Survives.of_removeEach {name : Bytes} {id : Nat}
    (hready : (rootDirectory (some root)).run state = (.ok root, state))
    (hfound : ((findEnvironments (some root)).run state).2 = state)
    (hname : name ∈ environmentNames state.world root)
    (hfree : state.world.lockIsFree root name = true)
    (hlisted : environments state.world root = listed)
    (hthere : (removeEach listed state.world).2.files.entry? (dir ++ [name]) =
      some (.directory id)) : Survives state root dir name := by
  have hagrees : agrees true state.input = true := rfl
  obtain ⟨text, hrun⟩ := run_clean hready hfound
    (proceeds_eq_true_iff.mpr ⟨List.ne_nil_of_mem hname, rfl, hagrees⟩)
  refine ⟨hname, hfree, id, ?_⟩
  rw [hrun, hlisted]
  exact hthere

/-- A state in which the lock of `b` is a link into `a`. -/
def sampleLinked : State :=
  sample [(.ofText "/envs/a/x", .file 8 ⟨[], 0⟩ false),
    (.ofText "/envs/b.lock", .link (.ofText "a/x"))] []

theorem environments_sample : environments (sample [] []).world (.ofText "/envs/a/..") =
    [Listed.of (sample [] []).world (.ofText "/envs/a/../a"),
      Listed.of (sample [] []).world (.ofText "/envs/a/../b")] := by
  have hnames : environmentNames (sample [] []).world (.ofText "/envs/a/..") =
      [Bytes.ofText "a", Bytes.ofText "b"] := by
    decide +kernel
  rw [environments, hnames]
  exact List.mergeSort_of_pairwise (by decide +kernel)

theorem environments_sampleLinked : environments sampleLinked.world (.ofText "/envs") =
    [Listed.of sampleLinked.world (.ofText "/envs/a"),
      Listed.of sampleLinked.world (.ofText "/envs/b")] := by
  have hnames : environmentNames sampleLinked.world (.ofText "/envs") =
      [Bytes.ofText "a", Bytes.ofText "b"] := by
    decide +kernel
  rw [environments, hnames]
  exact List.mergeSort_of_pairwise (by decide +kernel)

end Program
end Enclave
