import Enclave.Proofs.FileSystem.Changes
import Enclave.Proofs.Lock.Paths
import Mathlib.Data.List.Nodup

/-! # Directories that paths denote

A path denotes a directory exactly if its names lead to it (`find_directory_iff`).  Names in it are
looked up from there (`resolve_join`), its plain form denotes it too, and creating it once more
changes nothing (`createDirectories_of_find`).  The names in a directory are those under which
something stands there (`mem_namesIn_iff`). -/

namespace Enclave.FileSystem

variable {fs : FileSystem} {base dir place found : Location} {path : Path} {name : Bytes}
  {links id : Nat} {steps : List Bytes}

/-! ### Ways to directories -/

/-- A walk that ends at a directory leads to it. -/
theorem Walks.leads (h : Walks fs true links dir steps found (some (.directory id))) :
    ∃ links', Leads fs links dir steps links' found := by
  generalize hentry : some (Entry.directory id) = entry at h
  induction h with
  | here => exact ⟨_, .here⟩
  | stay _ ih =>
      obtain ⟨links', hway⟩ := ih hentry
      exact ⟨links', .stay hway⟩
  | up _ ih =>
      obtain ⟨links', hway⟩ := ih hentry
      exact ⟨links', .up hway⟩
  | last hdot hdotDot hlength _ => exact ⟨_, .enter hdot hdotDot hlength hentry.symm .here⟩
  | enter hdot hdotDot hlength _ hdirectory _ ih =>
      obtain ⟨links', hway⟩ := ih hentry
      exact ⟨links', .enter hdot hdotDot hlength hdirectory hway⟩
  | follow hdot hdotDot hlength _ hlink _ ih =>
      obtain ⟨links', hway⟩ := ih hentry
      exact ⟨links', .follow hdot hdotDot hlength hlink hway⟩

/-- A way to a directory is a walk that ends there. -/
theorem Leads.walks {links' : Nat} (h : Leads fs links dir steps links' found)
    (hentry : fs.entry? found = some (.directory id)) :
    Walks fs true links dir steps found (some (.directory id)) := by
  induction h with
  | here => exact hentry ▸ .here
  | stay _ ih => exact .stay (ih hentry)
  | up _ ih => exact .up (ih hentry)
  | @enter links _ _ dir _ part rest hdot hdotDot hlength hdirectory hway ih =>
      by_cases hrest : rest = []
      · subst hrest
        obtain ⟨_, rfl⟩ := hway.unique .here
        exact hentry ▸ .last hdot hdotDot hlength fun target hlink => by
          rw [hdirectory] at hlink
          cases hlink
      · exact .enter hdot hdotDot hlength hrest hdirectory (ih hentry)
  | follow hdot hdotDot hlength hlink _ ih =>
      exact .follow hdot hdotDot hlength (fun hend => nomatch hend.2) hlink (ih hentry)

theorem find_eq_ok_iff {entry : Entry} :
    fs.find base path = .ok (found, entry) ↔
      fs.resolve base path true = .ok (found, some entry) := by
  rw [find]
  split
  · next e h => simp [h]
  · next h => simp [h]
  · next h => simp [h]

/-- A path denotes a directory if its names lead there. -/
theorem find_directory_iff :
    fs.find base path = .ok (place, .directory id) ↔
      path.Fits ∧ (∃ links, Leads fs maxLinks (start base path) path.names links place) ∧
        fs.entry? place = some (.directory id) := by
  rw [find_eq_ok_iff]
  constructor
  · intro hresolve
    have hfits := fits_of_resolve hresolve
    refine ⟨hfits, ?_, entry?_of_resolve hresolve⟩
    rw [resolve_of_fits hfits, walk_eq_ok_iff] at hresolve
    obtain ⟨links, hway⟩ := hresolve.leads
    exact ⟨links, Path.filter_stepsOf path ▸ leads_filter_dot_iff.mpr hway⟩
  · rintro ⟨hfits, ⟨links, hway⟩, hentry⟩
    rw [← Path.filter_stepsOf, leads_filter_dot_iff] at hway
    rw [resolve_of_fits hfits, (hway.walks hentry).walk]

theorem isDirectory_iff :
    fs.isDirectory base path = true ↔
      ∃ place id, fs.find base path = .ok (place, .directory id) := by
  rw [isDirectory, stat?]
  cases hfind : fs.find base path with
  | error e => simp [Except.toOption]
  | ok result =>
      obtain ⟨place, entry⟩ := result
      cases entry <;> simp [Except.toOption, Entry.isDirectory]

/-! ### Names in directories -/

/-- A name in a directory is looked up from there. -/
theorem resolve_join {directory : Path} {links : Nat} (h : IsPart name)
    (hfits : (directory.join ⟨name⟩).Fits)
    (hway : Leads fs maxLinks (start base directory) directory.names links place)
    (follow : Bool) :
    fs.resolve base (directory.join ⟨name⟩) follow = fs.walk follow links place [name] := by
  rw [Path.names_eq, leads_filter_dot_iff] at hway
  rw [resolve_of_fits hfits, start_join base directory h, Path.stepsOf_join directory h,
    hway.walk (List.cons_ne_nil name [])]

theorem mem_namesIn_iff {location : Location} :
    name ∈ fs.namesIn location ↔ (fs.entry? (location ++ [name])).isSome := by
  rw [namesIn, List.mem_filterMap]
  constructor
  · rintro ⟨⟨other, entry⟩, hmem, hname⟩
    split at hname
    · split at hname
      · next hother =>
          obtain rfl := Option.some.inj hname
          rw [entry?_of_ne_nil fs (by simp), Option.isSome_iff_ne_none, Ne,
            List.lookup_eq_none_iff]
          intro hnone
          exact absurd (hnone _ hmem) (by simpa using hother.symm)
      · cases hname
    · cases hname
  · intro hsome
    obtain ⟨entry, hentry⟩ := Option.isSome_iff_exists.mp hsome
    exact ⟨_, mem_entries (by simp) hentry, by simp⟩

/-- The names in a directory are told by the locations. -/
theorem namesIn_eq (fs : FileSystem) (dir : Location) :
    fs.namesIn dir = (fs.entries.map (·.1)).filterMap fun location =>
      match location.getLast? with
      | some name => if location = dir ++ [name] then some name else none
      | none => none := by
  rw [List.filterMap_map]
  rfl

theorem nodup_namesIn (h : (fs.entries.map (·.1)).Nodup) (dir : Location) :
    (fs.namesIn dir).Nodup := by
  have hlocation : ∀ (location : Location) (name : Bytes), name ∈ (match location.getLast? with
      | some name => if location = dir ++ [name] then some name else none
      | none => none) → location = dir ++ [name] := by
    intro location name hname
    split at hname
    · split at hname
      · next hsame => exact Option.some.inj hname ▸ hsame
      · cases hname
    · cases hname
  rw [namesIn_eq]
  refine h.filterMap fun location other name hname hother => ?_
  rw [hlocation location name hname, hlocation other name hother]

/-! ### Creating what is there -/

/-- Creating a directory that is there changes nothing. -/
theorem createDirectories_of_find (hpath : withoutFinalSlashes path = path)
    (h : fs.find base path = .ok (place, .directory id)) :
    fs.createDirectories base path = (.ok (), fs) := by
  have hfits := (find_directory_iff.mp h).1
  have hresolve := find_eq_ok_iff.mp h
  rw [resolve_of_fits hfits, walk_eq_ok_iff] at hresolve
  obtain ⟨found, there, hwalks⟩ := hresolve.exists_nofollow
  have hthere : fs.createDirectory base path = .error .alreadyExists := by
    rw [createDirectory, hpath, resolve_of_fits hfits, hwalks.walk]
  have hdirectory : fs.isDirectory base path = true := isDirectory_iff.mpr ⟨place, id, h⟩
  rw [createDirectories, createDirectoriesUpTo.eq_def]
  simp only [if_neg hfits.ne_nil, hthere, hdirectory, if_true]

/-- The plain form of a path to a directory is empty or denotes the directory. -/
theorem find_plain (h : fs.find base path = .ok (place, .directory id)) :
    path.plain.bytes = [] ∨ fs.find base path.plain = .ok (place, .directory id) := by
  by_cases hnil : path.plain.bytes = []
  · exact .inl hnil
  · right
    obtain ⟨hfits, hway, hentry⟩ := find_directory_iff.mp h
    rw [find_directory_iff, start, Path.isAbsolute_plain, Path.names_plain]
    exact ⟨hfits.of_prefix path.bytes_plain_prefix hnil, hway, hentry⟩

/-- Creating the directory above a lock in a directory changes nothing. -/
theorem createDirectories_plain (h : fs.find base path = .ok (place, .directory id)) :
    fs.createDirectories base path.plain.plain = (.ok (), fs) := by
  have hempty : ∀ other : Path, other.bytes = [] →
      fs.createDirectories base other = (.ok (), fs) := by
    intro other hnil
    rw [createDirectories, createDirectoriesUpTo.eq_def]
    simp only [hnil, if_true]
  rcases find_plain h with hnil | hplain
  · exact hempty _ (List.prefix_nil.mp (hnil ▸ path.plain.bytes_plain_prefix))
  · rcases find_plain hplain with hnil | hplain
    · exact hempty _ hnil
    · exact createDirectories_of_find path.plain.withoutFinalSlashes_plain hplain

end Enclave.FileSystem
