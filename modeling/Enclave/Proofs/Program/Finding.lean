import Enclave.Program.Environments
import Enclave.Proofs.FileSystem.Directories
import Enclave.Proofs.Program.Actions
import Enclave.Proofs.Text

/-! # Finding environments

The environments in a directory are the names in it that hold one (`environmentNames`), in the order
in which they are shown (`exists_names_scan`).  So a name comes before the name of its lock
(`Shown.ne_lock`), which may be that of an environment as well.  Listing and removing find the same
environments, and finding them changes nothing but the log (`run_findEnvironments`). -/

namespace Enclave.Program

open FileSystem (SameWays)

variable {log : Option Log} {before after world : World} {dir : Location} {root path : Path}
  {name : Bytes} {names : List Bytes} {state : State}

/-! ### Lines in the log -/

namespace DiffersInLog

theorem sameWays (h : DiffersInLog log before after) : SameWays before.files after.files := by
  intro location entry hway
  rcases h.entry? location with hsame | ⟨_, _, _, _, _, _, hold, hnew⟩
  · rw [hsame]
  · rw [hold, hnew]
    constructor <;>
    · intro hentry
      cases hentry
      cases hway

theorem base (h : DiffersInLog log before after) : after.base = before.base := by
  have hexists : after.cwdExists = before.cwdExists := by
    have hiff := h.sameWays before.cwd (.directory before.cwdId) rfl
    rw [h.beside]
    exact Bool.eq_iff_iff.mpr (by simp only [World.cwdExists, beq_iff_eq, hiff])
  rw [World.base, World.base, hexists, h.beside]

theorem find_directory_iff (h : DiffersInLog log before after) {id : Nat} :
    before.files.find before.base path = .ok (dir, .directory id) ↔
      after.files.find after.base path = .ok (dir, .directory id) := by
  rw [FileSystem.find_directory_iff, FileSystem.find_directory_iff, h.base,
    h.sameWays dir (.directory id) rfl]
  simp only [h.sameWays.leads_iff]

theorem namesIn (h : DiffersInLog log before after) (dir : Location) :
    after.files.namesIn dir = before.files.namesIn dir := by
  rw [FileSystem.namesIn_eq, FileSystem.namesIn_eq, h.locations]

end DiffersInLog

/-! ### Environments -/

/-- Whether a path denotes an environment: a directory with a build record that can be loaded or
with an interpreter. -/
def holdsEnvironment (world : World) (path : Path) : Bool :=
  world.files.isDirectory world.base path &&
    ((BuildRecord.load world path).1.isSome || world.pathExists (Layout.interpreter path))

/-- The names of the environments in a directory. -/
def environmentNames (world : World) (root : Path) : List Bytes :=
  match world.files.listDirectory world.base root with
  | .ok names => names.filter fun name => holdsEnvironment world (root.join ⟨name⟩)
  | .error _ => []

/-- What is listed of the environment at a path. -/
def Listed.of (world : World) (path : Path) : Listed where
  name := Bytes.display (path.fileName?.getD [])
  location := path
  size := sizeAt world path
  record := (BuildRecord.load world path).1

theorem Listed.fst_at? (world : World) (path : Path) :
    (Listed.at? world path).1 =
      if holdsEnvironment world path then some (Listed.of world path) else none := by
  have hpresent : (Venv.perform (Venv.isPresent path) world).1 =
      world.pathExists (Layout.interpreter path) := rfl
  rw [Listed.at?, holdsEnvironment, hpresent]
  cases world.files.isDirectory world.base path with
  | false => rfl
  | true =>
      cases hrecord : (BuildRecord.load world path).1 with
      | some record => simp [Listed.of, hrecord]
      | none =>
          cases hthere : world.pathExists (Layout.interpreter path) <;> simp [Listed.of, hrecord]

theorem environmentNames_of_error {cause : IoError}
    (h : world.files.listDirectory world.base root = .error cause) :
    environmentNames world root = [] := by
  rw [environmentNames, h]

/-- What is listed of the environments in a directory. -/
def environments (world : World) (root : Path) : List Listed :=
  ((environmentNames world root).map fun name => Listed.of world (root.join ⟨name⟩)).mergeSort
    fun a b => a.name ≤ b.name

theorem environments_eq_nil_iff :
    environments world root = [] ↔ environmentNames world root = [] := by
  rw [environments, ← List.length_eq_zero_iff, List.length_mergeSort, List.length_map,
    List.length_eq_zero_iff]

theorem scan_of_listDirectory (h : world.files.listDirectory world.base root = .ok names) :
    ∃ events, scan world root = .ok (environments world root, events) := by
  have hfound : (names.map fun name => Listed.at? world (root.join ⟨name⟩)).filterMap (·.1) =
      (environmentNames world root).map fun name => Listed.of world (root.join ⟨name⟩) := by
    rw [environmentNames, h, List.filterMap_map]
    simp only [Function.comp_def, Listed.fst_at?]
    clear h
    induction names with
    | nil => rfl
    | cons name names ih =>
        cases hholds : holdsEnvironment world (root.join ⟨name⟩) <;> simp [hholds, ih]
  rw [scan, h]
  dsimp only
  rw [hfound]
  exact ⟨_, rfl⟩

/-! ### Their order -/

/-- Whether names are in the order in which they are shown. -/
def Shown (names : List Bytes) : Prop :=
  names.Pairwise fun a b => a.display ≤ b.display

/-- Environments are listed in the order of their names. -/
theorem exists_names (hparts : ∀ name ∈ environmentNames world root, IsPart name) :
    ∃ names, names.Perm (environmentNames world root) ∧ Shown names ∧
      environments world root = names.map fun name => Listed.of world (root.join ⟨name⟩) := by
  refine ⟨(environmentNames world root).mergeSort fun a b => a.display ≤ b.display,
    List.mergeSort_perm _ _, Text.pairwise_mergeSort_by Bytes.display _, ?_⟩
  rw [environments, List.map_mergeSort]
  intro a ha b hb
  simp only [Listed.of, Path.fileName?_join root (hparts a ha),
    Path.fileName?_join root (hparts b hb), Option.getD_some]

/-- A name comes before the name of its lock. -/
theorem Shown.lock_not_mem {front back : List Bytes} (h : Shown (front ++ name :: back)) :
    name ++ Layout.lockSuffix ∉ front := by
  intro hmem
  have hle : Bytes.display (name ++ Layout.lockSuffix) ≤ name.display :=
    (List.pairwise_append.mp h).2.2 _ hmem name List.mem_cons_self
  have hlonger : ∀ chars : List Char, chars < chars ++ ['.', 'l', 'o', 'c', 'k'] := by
    intro chars
    induction chars with
    | nil => exact List.nil_lt_cons _ _
    | cons c chars ih => exact List.cons_lt_cons_iff.mpr (.inr ⟨rfl, ih⟩)
  have hsuffix : Bytes.display (0x2E :: Bytes.ofText "lock") = ".lock" :=
    Bytes.display_ofText ".lock"
  have hdisplay : (Bytes.display (name ++ Layout.lockSuffix)).toList =
      name.display.toList ++ ['.', 'l', 'o', 'c', 'k'] := by
    have hbytes : Layout.lockSuffix = 0x2E :: Bytes.ofText "lock" := by decide
    rw [hbytes, Bytes.display_append (by decide), hsuffix, String.toList_append]
    rfl
  refine hle ?_
  change name.display.toList < (Bytes.display (name ++ Layout.lockSuffix)).toList
  rw [hdisplay]
  exact hlonger _

/-! ### Finding them -/

/-- Reading the settings changes nothing but the log. -/
theorem run_rootDirectory (root : Option Path) (state : State) :
    ∃ path ready, (rootDirectory root).run state = (.ok path, ready) ∧ OnlyLogs state ready ∧
      ready.world.events = [] := by
  refine ⟨((EnvironmentSettings.fromWorld state.world).1.override { root }).root, _, ?_,
    onlyLogs_report (EnvironmentSettings.fromWorld state.world).2 state, events_showEvents _⟩
  rw [rootDirectory, run_bind_ok (run_world state)]
  exact run_bind_ok (run_report _ state)

/-- Finding environments changes nothing but the log. -/
theorem run_environmentsOf (path : Path) {state : State} (hevents : state.world.events = []) :
    ∃ found, OnlyLogs state found ∧ found.world.events = [] ∧
      ((environmentsOf path).run state = (.ok (environments state.world path), found) ∨
        environmentNames state.world path = [] ∧
          ∃ explanation, (environmentsOf path).run state = (.error explanation, found)) := by
  rw [environmentsOf, run_bind_ok (run_world state)]
  split
  · rw [environmentsIn, run_bind_ok (run_world state)]
    cases hlist : state.world.files.listDirectory state.world.base path with
    | ok names =>
        obtain ⟨events, hscan⟩ := scan_of_listDirectory hlist
        rw [hscan]
        exact ⟨_, onlyLogs_report events state, events_showEvents _,
          .inl (run_bind_ok (run_report events state))⟩
    | error cause =>
        refine ⟨state, .refl state, hevents, .inr ⟨environmentNames_of_error hlist, ?_⟩⟩
        rw [scan, hlist]
        exact ⟨_, run_throw _ state⟩
  · next hmissing =>
      have hnone : environmentNames state.world path = [] := by
        rw [World.pathExists, FileSystem.exists?, FileSystem.stat?] at hmissing
        rw [environmentNames, FileSystem.listDirectory]
        cases hfind : state.world.files.find state.world.base path with
        | error cause => rfl
        | ok result =>
            rw [hfind] at hmissing
            exact absurd rfl hmissing
      refine ⟨state, .refl state, hevents, .inl ?_⟩
      rw [environments_eq_nil_iff.mpr hnone]
      rfl

theorem run_findEnvironments (root : Option Path) (state : State) :
    ∃ path ready found, (rootDirectory root).run state = (.ok path, ready) ∧
      OnlyLogs state ready ∧ OnlyLogs ready found ∧ found.world.events = [] ∧
      ((findEnvironments root).run state = (.ok (path, environments ready.world path), found) ∨
        environmentNames ready.world path = [] ∧
          ∃ explanation, (findEnvironments root).run state = (.error explanation, found)) := by
  obtain ⟨path, ready, hroot, hready, hevents⟩ := run_rootDirectory root state
  obtain ⟨found, hfound, hnone, hlisted⟩ := run_environmentsOf path hevents
  refine ⟨path, ready, found, hroot, hready, hfound, hnone, ?_⟩
  rw [findEnvironments, run_bind_ok hroot]
  refine hlisted.imp (fun hlisted => ?_) (And.imp_right ?_)
  · exact run_bind_ok hlisted
  · rintro ⟨explanation, herror⟩
    exact ⟨explanation, run_bind_error herror⟩

end Enclave.Program
