import Enclave.Proofs.FileSystem.Resolution

/-! # Order below a root

A root is orderly when nothing stands in the way of its environments: no link takes the place of an
environment, of its record or of the draft of one, and the part of the root's path that its last
double dot climbs from is there (`Orderly`).  Then every environment has a directory of its own
(`Orderly.leads_environment`).  Putting and removing files keeps the order (`Orderly.of_sameWays`),
and so does creating a directory on the way to the root, below which nothing stands at first
(`Orderly.of_newDirectory`). -/

namespace Enclave

/-! ### Places -/

namespace Layout

/-- Whether a path is the location of an environment below a root. -/
def IsEnvironment (root location : Path) : Prop :=
  ∃ name, Name.check name = none ∧ location = root.join (.ofText name)

/-- The paths of an environment, of its record and of the draft of one. -/
def places (location : Path) : List Path :=
  [location, recordFile location, recordDraft location]

variable {root location path : Path}

theorem IsEnvironment.exists_name (h : IsEnvironment root location) :
    ∃ name, IsName name ∧ IsName (name ++ lockSuffix) ∧ location = root.join ⟨name⟩ := by
  obtain ⟨name, hcheck, rfl⟩ := h
  exact ⟨Bytes.ofText name, isName_ofText hcheck,
    isName_ofText_append hcheck lockSuffix (by decide) (by decide), rfl⟩

theorem IsEnvironment.isAbsolute (h : IsEnvironment root location) (habsolute : root.isAbsolute) :
    location.isAbsolute := by
  obtain ⟨name, _, rfl⟩ := h
  exact Path.isAbsolute_join _ habsolute

theorem IsEnvironment.isAbsolute_recordFile (h : IsEnvironment root location)
    (habsolute : root.isAbsolute) : (recordFile location).isAbsolute :=
  Path.isAbsolute_join _ (h.isAbsolute habsolute)

theorem IsEnvironment.isAbsolute_recordDraft (h : IsEnvironment root location)
    (habsolute : root.isAbsolute) : (recordDraft location).isAbsolute :=
  Path.isAbsolute_join _ (h.isAbsolute habsolute)

/-- Every place is a name in a directory. -/
theorem exists_join_of_mem_places (h : IsEnvironment root location) (habsolute : root.isAbsolute)
    (hpath : path ∈ places location) :
    ∃ (directory : Path) (name : Bytes), directory.isAbsolute ∧ IsName name ∧
      path = directory.join ⟨name⟩ := by
  simp only [places, List.mem_cons, List.not_mem_nil, or_false] at hpath
  rcases hpath with rfl | rfl | rfl
  · obtain ⟨name, hname, _, rfl⟩ := h.exists_name
    exact ⟨root, name, habsolute, hname, rfl⟩
  · exact ⟨location, _, h.isAbsolute habsolute, isName_recordName, rfl⟩
  · exact ⟨location, _, h.isAbsolute habsolute, isName_draftName, rfl⟩

end Layout

/-- A directory of a path that can be looked up can be looked up. -/
theorem Path.fits_of_fits_join {directory : Path} {name : Bytes} (h : IsName name)
    (habsolute : directory.isAbsolute) (hfits : (directory.join ⟨name⟩).Fits) :
    directory.Fits := by
  have hne : directory.bytes ≠ [] := by
    intro hnil
    simp [Path.isAbsolute, hnil] at habsolute
  have hfront : directory.bytes <+: (directory.join ⟨name⟩).bytes := by
    rcases directory.bytes_join h.isPart with ⟨_, hnil⟩ | ⟨front, hfront, hbytes⟩ | hbytes
    · exact absurd hnil hne
    · exact ⟨name, by rw [hbytes, hfront, List.append_assoc]; rfl⟩
    · exact ⟨_, hbytes.symm⟩
  exact hfits.of_prefix hfront hne

/-- Entries that must not take the place of an environment, its record or the draft of one: links
at least, but neither directories nor files. -/
structure Ban where
  bans : Entry → Prop
  link : ∀ target, bans (.link target)
  directory : ∀ id, ¬ bans (.directory id)
  file : ∀ id content executable, ¬ bans (.file id content executable)

namespace Ban

/-- Links only. -/
def links : Ban where
  bans entry := ∃ target, entry = .link target
  link target := ⟨target, rfl⟩
  directory _ := by simp
  file _ _ _ := by simp

/-- Whatever is neither a directory nor a file. -/
def irregular : Ban where
  bans
    | .directory _ => False
    | .file _ _ _ => False
    | _ => True
  link _ := trivial
  directory _ := id
  file _ _ _ := id

/-- Whether directories and files are all that is not banned. -/
def IsStrict (ban : Ban) : Prop :=
  ∀ entry, ¬ ban.bans entry → ¬ entry.isWay → ∃ id content executable,
    entry = .file id content executable

theorem irregular_isStrict : irregular.IsStrict := by
  intro entry hban hway
  cases entry with
  | directory id => exact absurd rfl hway
  | file id content executable => exact ⟨id, content, executable, rfl⟩
  | _ => exact absurd trivial hban

end Ban

namespace FileSystem

open Layout

/-- Whether nothing stands in the way of the environments below a root. -/
structure Orderly (fs : FileSystem) (root : Path) (ban : Ban) : Prop where
  tree : fs.IsTree
  climbs : ∀ front, front ++ [Path.dotDot] <+: root.names →
    ∃ links there, Leads fs maxLinks [] front links there
  free : ∀ location, IsEnvironment root location → ∀ path ∈ places location, ∀ found entry,
    fs.resolve [] path false = .ok (found, some entry) → ¬ ban.bans entry

variable {fs fs' : FileSystem} {root location : Path} {ban : Ban}

/-- What stands in a place of an environment leads nowhere if it is no directory. -/
theorem Orderly.not_isWay (h : Orderly fs root ban) (henvironment : IsEnvironment root location)
    {path : Path} (hpath : path ∈ places location) {found : Location} {entry : Entry}
    (hresolve : fs.resolve [] path false = .ok (found, some entry))
    (hdirectory : ∀ id, entry ≠ .directory id) : ¬ entry.isWay := by
  cases entry with
  | directory id => exact absurd rfl (hdirectory id)
  | link target =>
      exact absurd (ban.link target) (h.free location henvironment path hpath found _ hresolve)
  | _ => simp [Entry.isWay]

/-- Where nothing is banned, every root without double dots is orderly. -/
theorem Orderly.of_entries
    (htree : ∀ e ∈ fs.entries, (fs.entry? e.1.dropLast).any Entry.isDirectory = true)
    (hdotDot : Path.dotDot ∉ root.names) (hban : ∀ e ∈ fs.entries, ¬ ban.bans e.2) :
    Orderly fs root ban := by
  refine ⟨isTree_of_entries htree, fun front hfront => ?_, ?_⟩
  · exact absurd (hfront.subset (by simp)) hdotDot
  · intro location _ path _ found entry hresolve
    have hentry := entry?_of_resolve hresolve
    by_cases hne : found = []
    · rw [hne, entry?_nil, Option.some.injEq] at hentry
      exact hentry ▸ ban.directory 0
    · exact hban _ (mem_entries hne hentry)

theorem leads_names_iff {links links' : Nat} {dir there : Location} (path : Path) :
    Leads fs links dir path.names links' there ↔ Leads fs links dir path.parts links' there := by
  rw [Path.names_eq, leads_filter_dot_iff]

/-- Where no link stands, a name leads to a directory with this name. -/
theorem Leads.exists_of_cons {links links' : Nat} {dir there : Location} {name : Bytes}
    (hdot : name ≠ Path.dot) (hdotDot : name ≠ Path.dotDot)
    (h : Leads fs links dir [name] links' there)
    (hlink : ∀ target, fs.entry? (dir ++ [name]) ≠ some (.link target)) :
    there = dir ++ [name] ∧ fs.HasDirectory (dir ++ [name]) := by
  cases h with
  | stay => exact absurd rfl hdot
  | up => exact absurd rfl hdotDot
  | enter _ _ _ hentry hrest =>
      cases hrest
      exact ⟨rfl, _, hentry⟩
  | follow _ _ _ hentry => exact absurd hentry (hlink _)

/-- The directory of an environment is below the one that the root leads to. -/
theorem Orderly.leads_environment (h : Orderly fs root ban) (habsolute : root.isAbsolute)
    {name : Bytes} (hname : IsName name) (henvironment : IsEnvironment root (root.join ⟨name⟩))
    (hfits : (root.join ⟨name⟩).Fits) {links : Nat} {there : Location}
    (hway : Leads fs maxLinks [] (root.join ⟨name⟩).parts links there) :
    ∃ links' above, Leads fs maxLinks [] root.parts links' above ∧ there = above ++ [name] ∧
      fs.HasDirectory there := by
  rw [Path.parts_join root hname.isPart] at hway
  obtain ⟨links', above, habove, hlast⟩ := hway.split
  have hlink : ∀ target, fs.entry? (above ++ [name]) ≠ some (.link target) := by
    intro target hentry
    have hresolve : fs.resolve [] (root.join ⟨name⟩) false = .ok (_, some (.link target)) :=
      (resolve_join_iff habsolute hname).mpr ⟨hfits, links', above, habove, rfl, hentry.symm⟩
    exact h.free _ henvironment _ List.mem_cons_self _ _ hresolve (ban.link target)
  obtain ⟨rfl, hdirectory⟩ := Leads.exists_of_cons hname.ne_dot hname.ne_dotDot hlast hlink
  exact ⟨links', above, habove, rfl, hdirectory⟩

/-! ### Keeping order -/

/-- Changing files keeps the order. -/
theorem Orderly.of_sameWays (h : Orderly fs root ban) (habsolute : root.isAbsolute)
    (htree : fs'.IsTree) (hways : SameWays fs fs')
    (hentries : ∀ location entry, fs'.entry? location = some entry → ban.bans entry →
      fs.entry? location = some entry) : Orderly fs' root ban := by
  refine ⟨htree, ?_, ?_⟩
  · intro front hfront
    obtain ⟨links, there, hway⟩ := h.climbs front hfront
    exact ⟨links, there, hways.leads_iff.mp hway⟩
  · intro location henvironment path hpath found entry hresolve hbans
    obtain ⟨directory, name, hdirectory, hname, rfl⟩ :=
      exists_join_of_mem_places henvironment habsolute hpath
    obtain ⟨hfits, links, there, hway, rfl, hentry⟩ :=
      (resolve_join_iff hdirectory hname).mp hresolve
    have hold := hentries _ entry hentry.symm hbans
    exact h.free location henvironment _ hpath _ _ ((resolve_join_iff hdirectory hname).mpr
      ⟨hfits, links, there, hways.leads_iff.mpr hway, rfl, hold.symm⟩) hbans

/-- Putting a file into a directory keeps the order. -/
theorem Orderly.of_file (h : Orderly fs root ban) (habsolute : root.isAbsolute)
    {found : Location} (hne : found ≠ []) (hparent : fs.HasDirectory found.dropLast)
    (hold : ∀ entry, fs.entry? found = some entry → ¬ entry.isWay) {entry : Entry}
    (hway : ¬ entry.isWay) (hban : ¬ ban.bans entry)
    (hview : ∀ other, fs'.entry? other = if other = found then some entry else fs.entry? other) :
    Orderly fs' root ban ∧ SameWays fs fs' := by
  have hnot : ¬ fs.HasDirectory found := fun ⟨id, hid⟩ => hold _ hid rfl
  have htree : fs'.IsTree := (h.tree.put hne hparent hnot entry).congr fun other => by
    rw [hview, entry?_put _ hne]
  have hways : SameWays fs fs' := by
    apply sameWays_of_entry? hold
    · intro other hother
      rw [hview, if_pos rfl, Option.some.injEq] at hother
      exact hother ▸ hway
    · intro other hother
      rw [hview, if_neg hother]
  refine ⟨h.of_sameWays habsolute htree hways ?_, hways⟩
  intro other entry' hentry hbans
  rw [hview] at hentry
  split at hentry
  · rw [Option.some.injEq] at hentry
    exact absurd (hentry ▸ hbans) hban
  · exact hentry

/-- Removing what is neither a directory nor a link keeps the order. -/
theorem Orderly.of_prune (h : Orderly fs root ban) (habsolute : root.isAbsolute)
    {found : Location} (hne : found ≠ [])
    (hold : ∀ entry, fs.entry? found = some entry → ¬ entry.isWay) :
    Orderly (fs.prune found) root ban ∧ SameWays fs (fs.prune found) := by
  have hnot : ¬ fs.HasDirectory found := fun ⟨id, hid⟩ => hold _ hid rfl
  have hview := entry?_prune_of_not_directory h.tree hne hnot
  have hways : SameWays fs (fs.prune found) := by
    apply sameWays_of_entry? hold
    · intro entry hentry
      rw [hview, if_pos rfl] at hentry
      simp at hentry
    · intro other hother
      rw [hview, if_neg hother]
  refine ⟨h.of_sameWays habsolute (h.tree.prune found) hways ?_, hways⟩
  intro other entry hentry _
  rw [hview] at hentry
  split at hentry
  · simp at hentry
  · exact hentry

/-- Where nothing stands in the directory that the root leads to, nothing is in the way. -/
theorem Orderly.of_nothing (habsolute : root.isAbsolute) (htree : fs.IsTree)
    (hclimbs : ∀ front, front ++ [Path.dotDot] <+: root.names →
      ∃ links there, Leads fs maxLinks [] front links there)
    (hbelow : ∀ links there, Leads fs maxLinks [] root.parts links there →
      ∀ below, fs.entry? (there ++ [below]) = none) : Orderly fs root ban := by
  refine ⟨htree, hclimbs, ?_⟩
  intro location henvironment path hpath found entry hresolve
  exfalso
  obtain ⟨name, hname, _, rfl⟩ := henvironment.exists_name
  have hlocation := Path.isAbsolute_join ⟨name⟩ habsolute
  have hclosed : ∀ links there, ¬ Leads fs maxLinks [] (root.join ⟨name⟩).parts links there := by
    intro links there hway
    rw [Path.parts_join root hname.isPart] at hway
    obtain ⟨_, above, habove, hlast⟩ := hway.split
    have hnothing := hbelow _ _ habove name
    obtain ⟨_, id, hid⟩ :=
      Leads.exists_of_cons hname.ne_dot hname.ne_dotDot hlast (by simp [hnothing])
    simp [hnothing] at hid
  simp only [places, List.mem_cons, List.not_mem_nil, or_false] at hpath
  rcases hpath with rfl | rfl | rfl
  · obtain ⟨_, _, _, hroot, _, hentry⟩ := (resolve_join_iff habsolute hname).mp hresolve
    rw [hbelow _ _ hroot] at hentry
    cases hentry
  · obtain ⟨_, _, _, hway, _⟩ := (resolve_join_iff hlocation isName_recordName).mp hresolve
    exact hclosed _ _ hway
  · obtain ⟨_, _, _, hway, _⟩ := (resolve_join_iff hlocation isName_draftName).mp hresolve
    exact hclosed _ _ hway

/-! ### New directories -/

section

variable (h : Orderly fs root ban) {front back : List Bytes} {name : Bytes}
  (hnames : root.names = front ++ [name] ++ back) (hdot : name ≠ Path.dot)
  (hdotDot : name ≠ Path.dotDot) {links : Nat} {dir : Location}
  (hway : Leads fs maxLinks [] front links dir) (hnone : fs.entry? (dir ++ [name]) = none)
  (hview : ∀ other, fs'.entry? other =
    if other = dir ++ [name] then some (.directory fs.nextId) else fs.entry? other)

include hnone hview

/-- Everything that was there stays. -/
theorem entry?_of_newDirectory (found : Location) (entry : Entry)
    (hentry : fs.entry? found = some entry) : fs'.entry? found = some entry := by
  rw [hview, if_neg, hentry]
  rintro rfl
  simp [hnone] at hentry

include h

/-- Nothing stands in a new directory. -/
theorem Orderly.entry?_newDirectory (below : Bytes) :
    fs'.entry? (dir ++ [name] ++ [below]) = none := by
  have hnot : ¬ fs.HasDirectory (dir ++ [name]) := by
    rintro ⟨id, hid⟩
    simp [hnone] at hid
  rw [hview, if_neg (by simp), h.tree.entry?_append hnot]

include hnames hdot hdotDot hway

/-- A directory that was missing on the way to the root is the last one on the way. -/
theorem Orderly.leads_newDirectory {links' : Nat} {there : Location}
    (hroot : Leads fs' maxLinks [] root.parts links' there) : there = dir ++ [name] := by
  have hempty := h.entry?_newDirectory hnone hview
  rw [← leads_names_iff, hnames] at hroot
  obtain ⟨_, _, hfirst, hback⟩ := hroot.split
  obtain ⟨_, _, hfront, hname⟩ := hfirst.split
  obtain ⟨rfl, rfl⟩ := hfront.unique
    (hway.mono fun found entry _ => entry?_of_newDirectory hnone hview found entry)
  obtain ⟨rfl, _⟩ := Leads.exists_of_cons hdot hdotDot hname fun target htarget => by
    simp [hview] at htarget
  cases back with
  | nil =>
      cases hback
      rfl
  | cons part back =>
      exfalso
      cases hback with
      | stay =>
          have hmem : Path.dot ∈ root.names := by simp [hnames]
          rw [Path.names_eq] at hmem
          simp at hmem
      | up =>
          -- the way out of the new directory was there before, and then so was the directory
          obtain ⟨_, _, hclimb⟩ := h.climbs (front ++ [name]) ⟨back, by simp [hnames]⟩
          obtain ⟨_, _, hfront', hname'⟩ := hclimb.split
          obtain ⟨rfl, rfl⟩ := hfront'.unique hway
          obtain ⟨_, id, hid⟩ := Leads.exists_of_cons hdot hdotDot hname' (by simp [hnone])
          simp [hnone] at hid
      | enter _ _ _ hentry =>
          rw [hempty] at hentry
          cases hentry
      | follow _ _ _ hentry =>
          rw [hempty] at hentry
          cases hentry

/-- Making a directory that was missing on the way to the root keeps the order, and nothing stands
where the root leads to then. -/
theorem Orderly.of_newDirectory (habsolute : root.isAbsolute) (hdir : fs.HasDirectory dir) :
    Orderly fs' root ban ∧ ∀ links there, Leads fs' maxLinks [] root.parts links there →
      ∀ below, fs'.entry? (there ++ [below]) = none := by
  have hnot : ¬ fs.HasDirectory (dir ++ [name]) := by
    rintro ⟨id, hid⟩
    simp [hnone] at hid
  have hparent : fs.HasDirectory (dir ++ [name]).dropLast := by
    rwa [List.dropLast_concat]
  have htree : fs'.IsTree :=
    (h.tree.put (by simp) hparent hnot (.directory fs.nextId)).congr fun other => by
      rw [hview, entry?_put _ (by simp)]
  have hbelow : ∀ links there, Leads fs' maxLinks [] root.parts links there →
      ∀ below, fs'.entry? (there ++ [below]) = none := by
    intro links' there hroot below
    rw [h.leads_newDirectory hnames hdot hdotDot hway hnone hview hroot,
      h.entry?_newDirectory hnone hview]
  refine ⟨.of_nothing habsolute htree (fun front' hfront => ?_) hbelow, hbelow⟩
  obtain ⟨links', there, hclimb⟩ := h.climbs front' hfront
  exact ⟨links', there, hclimb.mono fun found entry _ =>
    entry?_of_newDirectory hnone hview found entry⟩

end

end FileSystem
end Enclave
