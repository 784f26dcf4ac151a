import Enclave.Proofs.FileSystem.Ancestors
import Enclave.Proofs.FileSystem.Directories
import Enclave.Requirements

/-! # Which requirement files are found

The directories that are searched are those at and above the project directory, which are all
different, and then the working directory.  So the files that are found are those of the former,
nearest first, and then that of the latter unless it was found before (`discover_eq`).

Whether a directory has the file depends on the directory and not on how its path is written, but
for the length (`isFile_join_congr`): a path that is too long is not looked up.  Where the working
directory is one of the searched directories above, but only one of the two ways in which it is
written is too long, its file is found in the wrong place or not at all.  Otherwise the search is
complete and in order (`discover_complete`). -/

namespace Enclave

namespace FileSystem

variable {fs : FileSystem} {base : Location} {path a b : Path} {name : Bytes}

theorem isFile_iff :
    fs.isFile base path = true ↔
      ∃ found entry, fs.resolve base path true = .ok (found, some entry) ∧ entry.isFile = true := by
  rw [isFile, stat?]
  simp only [← find_eq_ok_iff]
  cases fs.find base path with
  | error e => simp [Except.toOption]
  | ok result =>
      obtain ⟨found, entry⟩ := result
      simp [Except.toOption]

/-- Where the path of a file is not too long, another path of the same file is not so either. -/
private theorem isFile_join_of_same (h : IsName name) (hsame : a.same b)
    (hlength : (b.join ⟨name⟩).bytes.length ≤ maxPathLength)
    (hfile : fs.isFile base (a.join ⟨name⟩) = true) : fs.isFile base (b.join ⟨name⟩) = true := by
  obtain ⟨found, entry, hresolve, hentry⟩ := isFile_iff.mp hfile
  have hfits := fits_of_resolve hresolve
  have hway := hresolve
  rw [resolve_of_fits hfits, start_join base a h.isPart, Path.stepsOf_join a h.isPart] at hway
  obtain ⟨links, there, hway⟩ := leads_of_walk (List.cons_ne_nil name []) _ _ _ hway
  rw [← leads_filter_dot_iff, ← Path.names_eq] at hway
  have hnul : (b.join ⟨name⟩).bytes.contains 0 = false := by
    have hmem := hfits.nul_not_mem
    rw [← Bool.not_eq_true, List.contains_iff_mem] at hmem ⊢
    rw [Path.mem_bytes_join _ h.isPart (by decide), Path.mem_bytes_iff (by decide) (by decide)]
      at hmem ⊢
    rwa [← Path.names_of_same hsame]
  have hfits' : (b.join ⟨name⟩).Fits := ⟨hnul, Path.bytes_join_ne_nil b h.isPart, hlength⟩
  have hstart : start base a = start base b := by
    rw [start, start, Path.isAbsolute_of_same hsame]
  have hway' : Leads fs maxLinks (start base b) b.names links there := by
    rwa [← hstart, ← Path.names_of_same hsame]
  refine isFile_iff.mpr ⟨found, entry, ?_, hentry⟩
  rw [resolve_join h.isPart hfits' hway', ← resolve_join h.isPart hfits hway, hresolve]

/-- Whether a directory has a file does not depend on how the directory is written, unless one of
the paths is too long. -/
theorem isFile_join_congr (h : IsName name) (hsame : a.same b)
    (hlength : (a.join ⟨name⟩).bytes.length ≤ maxPathLength ↔
      (b.join ⟨name⟩).bytes.length ≤ maxPathLength) :
    fs.isFile base (a.join ⟨name⟩) = fs.isFile base (b.join ⟨name⟩) := by
  have hfits : ∀ {path : Path}, fs.isFile base path = true →
      path.bytes.length ≤ maxPathLength := by
    intro path hfile
    obtain ⟨_, _, hresolve, _⟩ := isFile_iff.mp hfile
    exact (fits_of_resolve hresolve).length_le
  refine Bool.eq_iff_iff.mpr ⟨fun hfile => ?_, fun hfile => ?_⟩
  · exact isFile_join_of_same h hsame (hlength.mp (hfits hfile)) hfile
  · exact isFile_join_of_same h (Path.same_symm hsame) (hlength.mpr (hfits hfile)) hfile

end FileSystem

namespace Requirements

variable {world : World} {start here : Path} {paths : List Path}

/-! ### The first of each -/

theorem firstOfEach_concat (paths : List Path) (path : Path) :
    firstOfEach (paths ++ [path]) =
      if (firstOfEach paths).any (·.same path) then firstOfEach paths
      else firstOfEach paths ++ [path] := by
  rw [firstOfEach, List.foldl_append]
  rfl

/-- Where no two paths are the same, all are kept. -/
theorem firstOfEach_of_pairwise (h : paths.Pairwise fun path other => path.same other = false) :
    firstOfEach paths = paths := by
  induction paths using List.reverseRecOn with
  | nil => rfl
  | append_singleton paths path ih =>
      obtain ⟨hpaths, _, hlast⟩ := List.pairwise_append.mp h
      have hnone : paths.any (·.same path) = false := by
        rw [List.any_eq_false]
        intro other hother
        rw [hlast other hother path (List.mem_singleton.mpr rfl)]
        exact Bool.false_ne_true
      rw [firstOfEach_concat, ih hpaths, hnone, if_neg Bool.false_ne_true]

/-! ### Requirement files -/

/-- The requirement file of a directory. -/
def fileOf (directory : Path) : Path :=
  directory.child Layout.requirementsName

theorem isName_requirementsName : IsName (Bytes.ofText Layout.requirementsName) :=
  ⟨by decide, by decide, by decide, by decide, by decide⟩

theorem same_fileOf_iff {a b : Path} : (fileOf a).same (fileOf b) ↔ a.same b :=
  Path.same_join_iff isName_requirementsName

theorem length_components_fileOf (directory : Path) :
    (fileOf directory).components.length = directory.components.length + 1 := by
  rw [fileOf, Path.child, Path.ofText, Path.components_join_name _ isName_requirementsName,
    List.length_append, List.length_singleton]

/-- The requirement files at and above a directory that are there. -/
def filesAbove (world : World) (start : Path) : List Path :=
  (start.ancestors.map fileOf).filter fun file => world.files.isFile world.base file

theorem mem_filesAbove_iff {file : Path} :
    file ∈ filesAbove world start ↔
      ∃ directory ∈ start.ancestors, file = fileOf directory ∧
        world.files.isFile world.base (fileOf directory) = true := by
  rw [filesAbove, List.mem_filter, List.mem_map]
  constructor
  · rintro ⟨⟨directory, hdirectory, rfl⟩, hfile⟩
    exact ⟨directory, hdirectory, rfl, hfile⟩
  · rintro ⟨directory, hdirectory, rfl, hfile⟩
    exact ⟨⟨directory, hdirectory, rfl⟩, hfile⟩

/-- Nearer files come first. -/
theorem pairwise_filesAbove (world : World) (start : Path) :
    (filesAbove world start).Pairwise fun file other =>
      other.components.length < file.components.length := by
  have hall : (start.ancestors.map fileOf).Pairwise fun file other =>
      other.components.length < file.components.length := by
    rw [List.pairwise_map]
    refine start.pairwise_ancestors.imp fun hlonger => ?_
    rw [length_components_fileOf, length_components_fileOf]
    exact Nat.succ_lt_succ hlonger
  exact hall.sublist List.filter_sublist

theorem same_eq_false_of_length_lt {a b : Path} (h : b.components.length < a.components.length) :
    a.same b = false := by
  rw [Bool.eq_false_iff]
  intro hsame
  rw [Path.same_iff.mp hsame] at h
  exact Nat.lt_irrefl _ h

/-- The files at and above a directory, and then the file of another one if it is there and not
among them. -/
def filesFor (world : World) (start here : Path) : List Path :=
  if world.files.isFile world.base (fileOf here) &&
      !(filesAbove world start).any (·.same (fileOf here)) then
    filesAbove world start ++ [fileOf here]
  else filesAbove world start

theorem firstOfEach_candidates (world : World) (start here : Path) :
    firstOfEach (((start.ancestors ++ [here]).map fileOf).filter fun file =>
      world.files.isFile world.base file) = filesFor world start here := by
  have habove : firstOfEach (filesAbove world start) = filesAbove world start :=
    firstOfEach_of_pairwise ((pairwise_filesAbove world start).imp same_eq_false_of_length_lt)
  rw [List.map_append, List.filter_append, ← filesAbove, List.map_singleton,
    List.filter_singleton, filesFor]
  cases hfile : world.files.isFile world.base (fileOf here) with
  | false => rw [cond_false, List.append_nil, habove, Bool.false_and, if_neg Bool.false_ne_true]
  | true =>
      rw [cond_true, firstOfEach_concat, habove, Bool.true_and]
      cases (filesAbove world start).any (·.same (fileOf here)) <;> rfl

theorem discover_eq (world : World) (project working : Path) :
    discover world project working =
      filesFor world (canonicalOrSame world project) (canonicalOrSame world working) :=
  firstOfEach_candidates world _ _

/-- How the files that are found end: with those at and above the project directory, or with the
file of the working directory, which is then no other way to write one of them. -/
theorem filesFor_cases (world : World) (start here : Path) :
    (filesFor world start here = filesAbove world start ∧
        (world.files.isFile world.base (fileOf here) = true →
          ∃ file ∈ filesAbove world start, file.same (fileOf here))) ∨
      (filesFor world start here = filesAbove world start ++ [fileOf here] ∧
        world.files.isFile world.base (fileOf here) = true ∧
          ∀ file ∈ filesAbove world start, file.same (fileOf here) = false) := by
  rw [filesFor]
  split
  · next hadded =>
      obtain ⟨hfile, hnew⟩ := (Bool.and_eq_true _ _).mp hadded
      refine .inr ⟨rfl, hfile, fun file hmem => ?_⟩
      have hnone := List.any_eq_false.mp (by simpa using hnew) file hmem
      simpa using hnone
  · next hkept =>
      refine .inl ⟨rfl, fun hfile => ?_⟩
      rw [hfile, Bool.true_and, Bool.not_eq_true, Bool.not_eq_false'] at hkept
      exact List.any_eq_true.mp hkept

/-! ### The search -/

/-- Whether a directory is searched. -/
def IsSearched (start here directory : Path) : Prop :=
  directory ∈ start.ancestors ∨ directory = here

/-- Whether a file is that of a directory at or above the project directory. -/
def IsAbove (start file : Path) : Prop :=
  ∃ directory ∈ start.ancestors, (fileOf directory).same file

/-- Whether the ways in which the working directory is written, by itself and as a directory at or
above the project directory, make both its files too long to be looked up or neither. -/
def SpelledAlike (start here : Path) : Prop :=
  ∀ directory ∈ start.ancestors, directory.same here →
    ((fileOf directory).bytes.length ≤ FileSystem.maxPathLength ↔
      (fileOf here).bytes.length ≤ FileSystem.maxPathLength)

/-- Paths that leave room for the name of the file are never too long. -/
theorem spelledAlike_of_length_le
    (hstart : start.bytes.length + 17 ≤ FileSystem.maxPathLength)
    (hhere : here.bytes.length + 17 ≤ FileSystem.maxPathLength) : SpelledAlike start here := by
  have hname : (Bytes.ofText Layout.requirementsName).length = 16 := by decide
  have hfile : ∀ directory : Path,
      (fileOf directory).bytes.length ≤ directory.bytes.length + 17 := by
    intro directory
    rw [fileOf, Path.child, Path.ofText]
    rcases directory.bytes_join isName_requirementsName.isPart with
      ⟨hbytes, _⟩ | ⟨front, hfront, hbytes⟩ | hbytes
    · rw [hbytes, hname]
      omega
    · rw [hbytes, hfront, List.length_append, List.length_append, List.length_cons, hname]
      simp
    · rw [hbytes, List.length_append, List.length_cons, hname]
  intro directory hdirectory _
  have hshort : directory.bytes.length ≤ start.bytes.length :=
    Path.ancestorsUpTo_induction (Q := fun path => path.bytes.length ≤ start.bytes.length) le_rfl
      (fun _ _ hparent hlength => Nat.le_trans (Path.length_bytes_parent?_le hparent) hlength)
      directory hdirectory
  have hdirectory := hfile directory
  have hfile := hfile here
  exact ⟨fun _ => by omega, fun _ => by omega⟩

/-- A complete and ordered list of the requirement files for a project directory and a working
directory. -/
structure IsComplete (world : World) (start here : Path) (found : List Path) : Prop where
  /-- The directories at and above the project directory have all fronts of its components. -/
  above : start.ancestors.map Path.components = start.fronts.reverse
  /-- Only files are listed. -/
  files : ∀ file ∈ found, world.files.isFile world.base file = true
  /-- No two of them are the same path. -/
  distinct : found.Pairwise fun file other => file.same other = false
  /-- Only files of searched directories are listed. -/
  searched : ∀ file ∈ found, ∃ directory, IsSearched start here directory ∧ file = fileOf directory
  /-- The file of a searched directory is listed exactly if it is there. -/
  listed : ∀ directory, IsSearched start here directory →
    ((∃ file ∈ found, file.same (fileOf directory)) ↔
      world.files.isFile world.base (fileOf directory) = true)
  /-- Of the files at and above the project directory, nearer ones come first. -/
  nearest : found.Pairwise fun file other => IsAbove start file → IsAbove start other →
    other.components.length < file.components.length
  /-- The file of the working directory comes last if it is not one of these. -/
  last : world.files.isFile world.base (fileOf here) = true → ¬ IsAbove start (fileOf here) →
    found.getLast? = some (fileOf here)

/-- A searched directory above that is the working directory has the file if that has it. -/
theorem SpelledAlike.isFile_eq (h : SpelledAlike start here) {directory : Path}
    (hdirectory : directory ∈ start.ancestors) (hsame : directory.same here) :
    world.files.isFile world.base (fileOf directory) =
      world.files.isFile world.base (fileOf here) :=
  FileSystem.isFile_join_congr isName_requirementsName hsame (h directory hdirectory hsame)

/-- The file of the working directory is found exactly if it is there. -/
theorem mem_filesFor_here (h : SpelledAlike start here) :
    (∃ file ∈ filesFor world start here, file.same (fileOf here)) ↔
      world.files.isFile world.base (fileOf here) = true := by
  have habove : (∃ file ∈ filesAbove world start, file.same (fileOf here)) →
      world.files.isFile world.base (fileOf here) = true := by
    rintro ⟨file, hmem, hsame⟩
    obtain ⟨directory, hdirectory, rfl, hfile⟩ := mem_filesAbove_iff.mp hmem
    rwa [← h.isFile_eq hdirectory (same_fileOf_iff.mp hsame)]
  rcases filesFor_cases world start here with ⟨hfound, hhere⟩ | ⟨hfound, hhere, _⟩
  · rw [hfound]
    exact ⟨habove, hhere⟩
  · rw [hfound]
    exact ⟨fun _ => hhere, fun _ => ⟨fileOf here, by simp, Path.same_refl _⟩⟩

/-- The file of a directory above is found exactly if it is there. -/
theorem mem_filesFor_above (h : SpelledAlike start here) {directory : Path}
    (hdirectory : directory ∈ start.ancestors) :
    (∃ file ∈ filesFor world start here, file.same (fileOf directory)) ↔
      world.files.isFile world.base (fileOf directory) = true := by
  have habove : (∃ file ∈ filesAbove world start, file.same (fileOf directory)) ↔
      world.files.isFile world.base (fileOf directory) = true := by
    constructor
    · rintro ⟨file, hmem, hsame⟩
      obtain ⟨other, hother, rfl, hfile⟩ := mem_filesAbove_iff.mp hmem
      obtain rfl := Path.eq_of_mem_ancestors hother hdirectory (same_fileOf_iff.mp hsame)
      exact hfile
    · exact fun hfile =>
        ⟨_, mem_filesAbove_iff.mpr ⟨directory, hdirectory, rfl, hfile⟩, Path.same_refl _⟩
  rcases filesFor_cases world start here with ⟨hfound, _⟩ | ⟨hfound, hhere, _⟩
  · rw [hfound, habove]
  · rw [hfound, ← habove]
    constructor
    · rintro ⟨file, hmem, hsame⟩
      rcases List.mem_append.mp hmem with hmem | hmem
      · exact ⟨file, hmem, hsame⟩
      · obtain rfl := List.mem_singleton.mp hmem
        rw [habove, h.isFile_eq hdirectory (Path.same_symm (same_fileOf_iff.mp hsame)), hhere]
    · rintro ⟨file, hmem, hsame⟩
      exact ⟨file, List.mem_append_left _ hmem, hsame⟩

/-- **The search for requirement files is complete and in order**, if the working directory is
written like the searched directory above that is the same, as far as the length of paths goes. -/
theorem discover_complete (world : World) (project working : Path)
    (h : SpelledAlike (canonicalOrSame world project) (canonicalOrSame world working)) :
    IsComplete world (canonicalOrSame world project) (canonicalOrSame world working)
      (discover world project working) := by
  rw [discover_eq]
  generalize canonicalOrSame world project = start, canonicalOrSame world working = here at h ⊢
  have hfile : ∀ file ∈ filesAbove world start, world.files.isFile world.base file = true :=
    fun file hmem => (List.mem_filter.mp hmem).2
  have hsearched : ∀ file ∈ filesAbove world start,
      ∃ directory, IsSearched start here directory ∧ file = fileOf directory := by
    intro file hmem
    obtain ⟨directory, hdirectory, rfl, _⟩ := mem_filesAbove_iff.mp hmem
    exact ⟨directory, .inl hdirectory, rfl⟩
  have hlisted : ∀ directory, IsSearched start here directory →
      ((∃ file ∈ filesFor world start here, file.same (fileOf directory)) ↔
        world.files.isFile world.base (fileOf directory) = true) := by
    rintro directory (hdirectory | rfl)
    · exact mem_filesFor_above h hdirectory
    · exact mem_filesFor_here h
  have hnearest := pairwise_filesAbove world start
  rcases filesFor_cases world start here with ⟨hfound, hhere⟩ | ⟨hfound, hhere, hnew⟩
  · rw [hfound] at hlisted ⊢
    refine ⟨start.components_ancestors, hfile, hnearest.imp same_eq_false_of_length_lt, hsearched,
      hlisted, hnearest.imp fun hlonger _ _ => hlonger, fun hthere hnot => ?_⟩
    obtain ⟨file, hmem, hsame⟩ := hhere hthere
    obtain ⟨directory, hdirectory, rfl, _⟩ := mem_filesAbove_iff.mp hmem
    exact absurd ⟨directory, hdirectory, hsame⟩ hnot
  · -- The working directory is none of those above: its file would be among theirs.
    have hnot : ¬ IsAbove start (fileOf here) := by
      rintro ⟨directory, hdirectory, hsame⟩
      have hthere := (h.isFile_eq hdirectory (same_fileOf_iff.mp hsame)).trans hhere
      have hmem := mem_filesAbove_iff.mpr ⟨directory, hdirectory, rfl, hthere⟩
      rw [hnew _ hmem] at hsame
      cases hsame
    rw [hfound] at hlisted ⊢
    refine ⟨start.components_ancestors, ?_, ?_, ?_, hlisted, ?_, fun _ _ => List.getLast?_concat⟩
    · intro file hmem
      rcases List.mem_append.mp hmem with hmem | hmem
      · exact hfile file hmem
      · exact List.mem_singleton.mp hmem ▸ hhere
    · refine List.pairwise_append.mpr ⟨hnearest.imp same_eq_false_of_length_lt,
        List.pairwise_singleton _ _, fun file hmem other hother => ?_⟩
      exact List.mem_singleton.mp hother ▸ hnew file hmem
    · intro file hmem
      rcases List.mem_append.mp hmem with hmem | hmem
      · exact hsearched file hmem
      · exact ⟨here, .inr rfl, List.mem_singleton.mp hmem⟩
    · refine List.pairwise_append.mpr ⟨hnearest.imp fun hlonger _ _ => hlonger,
        List.pairwise_singleton _ _, fun file _ other hother _ hother' => ?_⟩
      rw [List.mem_singleton.mp hother] at hother'
      exact absurd hother' hnot

/-! ### A project directory that is missing -/

/-- A world with requirement files in a directory and in one below it. -/
def requiring : World where
  files := ⟨[(.ofText "/w", .directory 1),
    (.ofText "/w/requirements.txt", .file 2 ⟨[], 0⟩ false), (.ofText "/w/x", .directory 3),
    (.ofText "/w/x/requirements.txt", .file 4 ⟨[], 0⟩ false)], 5⟩
  cwd := []
  cwdId := 0
  environ := .empty

/-- A directory that is not there, written with a number of slashes in one place. -/
def missing (slashes : Nat) : Path :=
  ⟨Bytes.ofText "/w" ++ List.replicate slashes Path.slash ++ Bytes.ofText "x/y"⟩

/-- The working directory is above the project directory, so its file keeps its place. -/
theorem discover_complete_missing :
    let start := canonicalOrSame requiring (missing 1)
    let here := canonicalOrSame requiring (.ofText "/w/x")
    let found := discover requiring (missing 1) (.ofText "/w/x")
    SpelledAlike start here ∧ IsComplete requiring start here found ∧
      found = [.ofText "/w/x/requirements.txt", .ofText "/w/requirements.txt"] := by
  intro start here found
  have halike : SpelledAlike start here :=
    spelledAlike_of_length_le (by decide +kernel) (by decide +kernel)
  exact ⟨halike, discover_complete requiring (missing 1) (.ofText "/w/x") halike, by decide +kernel⟩

/-- With more slashes than a path can have, the file of the working directory does not keep its
place. -/
theorem not_discover_complete :
    let start := canonicalOrSame requiring (missing 4096)
    let here := canonicalOrSame requiring (.ofText "/w/x")
    let found := discover requiring (missing 4096) (.ofText "/w/x")
    found = [.ofText "/w/requirements.txt", .ofText "/w/x/requirements.txt"] ∧
      ¬ IsComplete requiring start here found := by
  intro start here found
  have hfound : found = [.ofText "/w/requirements.txt", .ofText "/w/x/requirements.txt"] := by
    decide +kernel
  have habove : ∀ file ∈ found, IsAbove start file := by
    rw [hfound]
    have hall : [Path.ofText "/w/requirements.txt", .ofText "/w/x/requirements.txt"].all
        (fun file => start.ancestors.any fun directory => (fileOf directory).same file) = true := by
      decide +kernel
    intro file hfile
    exact List.any_eq_true.mp (List.all_eq_true.mp hall file hfile)
  refine ⟨hfound, fun hcomplete => ?_⟩
  have hnearest := hcomplete.nearest
  rw [hfound] at hnearest habove
  have hlonger := List.rel_of_pairwise_cons hnearest (List.mem_singleton.mpr rfl)
    (habove _ (by simp)) (habove _ (by simp))
  exact absurd hlonger (by decide +kernel)

end Requirements
end Enclave
