import Enclave.Proofs.FileSystem.Removals
import Enclave.Proofs.Lock.Attempts
import Enclave.Proofs.Program.Finding

/-! # Removing environments

The environments in a directory are removed one after the other, each while its lock is held.  What
is there in between is what was there at first, without the environments that were removed and with
the locks that were created (`Stage`).  If neither the way to the directory nor what a lock denotes
depends on which environments are there (`Site`), each step keeps this (`Stage.open`,
`Stage.remove`), and an environment is removed exactly if its lock was free at first
(`Stage.ofEnvironment`, `Stage.removeEach`). -/

namespace Enclave

/-- The world without some names of a directory. -/
def World.without (world : World) (dir : Location) (gone : List Bytes) : World :=
  { world with files := world.files.without dir gone }

/-- What the lock of an environment denotes. -/
def World.lockAt (world : World) (root : Path) (name : Bytes) :
    Except IoError (Location × Option Entry) :=
  world.files.resolve world.base (Layout.lockFile (root.join ⟨name⟩)) true

/-- Whether the lock of an environment can be opened and is not held. -/
def World.lockIsFree (world : World) (root : Path) (name : Bytes) : Bool :=
  BuildLock.isFree world.locked (world.lockAt root name)

/-- Whether the lock of one of some environments would stand where there is nothing. -/
def World.LacksLock (world : World) (root : Path) (names : List Bytes) (location : Location) :
    Prop :=
  ∃ name ∈ names, world.lockAt root name = .ok (location, none)

theorem World.removeTree_eq_ok {world : World} {path : Path} {files : FileSystem}
    (h : world.files.removeTree world.base path = .ok files) :
    world.removeTree path = (.ok (), { world with files }) := by
  rw [removeTree, h]

theorem World.LacksLock.entry? {world : World} {root : Path} {names : List Bytes}
    {location : Location} (h : world.LacksLock root names location) :
    world.files.entry? location = none := by
  obtain ⟨_, _, hlock⟩ := h
  exact FileSystem.entry?_of_resolve hlock

theorem World.lacksLock_concat {world : World} {root : Path} {names : List Bytes} {name : Bytes}
    {location : Location} :
    world.LacksLock root (names ++ [name]) location ↔
      world.LacksLock root names location ∨ world.lockAt root name = .ok (location, none) := by
  simp [World.LacksLock, or_and_right, exists_or]

namespace Program

open FileSystem

variable {before : World} {root : Path} {dir location found : Location} {name : Bytes}
  {names gone opened : List Bytes} {files : FileSystem}

/-! ### Before the first removal -/

/-- Whether neither the way to a directory nor what the lock of an environment in it denotes depends
on which of the environments are there.  Only the lock itself may be an environment. -/
structure Apart (before : World) (root : Path) (dir : Location) (names : List Bytes) : Prop where
  way : ∃ id, (before.without dir names).files.find (before.without dir names).base root =
    .ok (dir, .directory id)
  locks : ∀ name ∈ names, ∀ gone ⊆ names, name ++ Layout.lockSuffix ∉ gone →
    (before.without dir gone).lockAt root name = before.lockAt root name

/-- What is known about a directory and the environments in it before any of them is removed. -/
structure Site (before : World) (root : Path) (dir : Location) (names : List Bytes) : Prop
    extends Apart before root dir names where
  tree : before.files.IsTree
  named : before.files.IsNamed
  fresh : ∀ id ∈ before.locked, id < before.files.nextId
  parts : ∀ name ∈ names, IsPart name
  there : ∀ name ∈ names, before.files.isDirectory before.base (root.join ⟨name⟩) = true

/-- Whether a path leads to a directory whatever is removed, with some links left to follow. -/
def KeepsWay (before : World) (root : Path) (dir : Location) (names : List Bytes) (links : Nat) :
    Prop :=
  ∀ files : FileSystem, files.IsNamed → (before.files.without dir names).IsPartOf files →
    Leads files maxLinks (FileSystem.start (World.base { before with files }) root) root.names
        links dir ∧
      ∃ id, files.find (World.base { before with files }) root = .ok (dir, .directory id)

theorem exists_keepsWay {id : Nat}
    (h : (before.without dir names).files.find (before.without dir names).base root =
      .ok (dir, .directory id)) : ∃ links, KeepsWay before root dir names links := by
  obtain ⟨hfits, ⟨links, hway⟩, hthere⟩ := find_directory_iff.mp h
  refine ⟨links, fun files hnamed hpart => ?_⟩
  have hlead : Leads files maxLinks (FileSystem.start (World.base { before with files }) root)
      root.names links dir :=
    @World.leads_mono { before with files } _ _ hnamed hpart _ _ _ _
      (Option.isSome_of_mem hthere) hway
  exact ⟨hlead, id, find_directory_iff.mpr ⟨hfits, ⟨links, hlead⟩, hpart _ _ hthere⟩⟩

theorem Apart.exists_way (h : Apart before root dir names) :
    ∃ links, KeepsWay before root dir names links := by
  obtain ⟨id, hfind⟩ := h.way
  exact exists_keepsWay hfind

namespace KeepsWay

variable {links : Nat}

/-- The directory is there whatever is removed. -/
theorem hasDirectory (h : KeepsWay before root dir names links) (hnamed : files.IsNamed)
    (hpart : (before.files.without dir names).IsPartOf files) : files.HasDirectory dir := by
  obtain ⟨id, hfind⟩ := (h files hnamed hpart).2
  exact ⟨id, (find_directory_iff.mp hfind).2.2⟩

/-- An environment is looked up in the directory. -/
theorem resolve (h : KeepsWay before root dir names links) (hnamed : files.IsNamed)
    (hpart : (before.files.without dir names).IsPartOf files) (hname : IsPart name)
    (hfits : (root.join ⟨name⟩).Fits) (follow : Bool) :
    files.resolve (World.base { before with files }) (root.join ⟨name⟩) follow =
      files.walk follow links dir [name] :=
  resolve_join hname hfits (h files hnamed hpart).1 follow

/-- The lock of an environment is looked up in the directory. -/
theorem lockAt (h : KeepsWay before root dir names links) (hnamed : files.IsNamed)
    (hpart : (before.files.without dir names).IsPartOf files) (hname : IsPart name)
    (hfits : (Layout.lockFile (root.join ⟨name⟩)).Fits) :
    World.lockAt { before with files } root name =
      files.walk true links dir [name ++ Layout.lockSuffix] := by
  have hlead := (h files hnamed hpart).1
  rw [FileSystem.start, ← root.isAbsolute_plain, ← root.names_plain] at hlead
  rw [Path.lockFile_join root hname] at hfits
  rw [World.lockAt, Path.lockFile_join root hname]
  exact resolve_join (Path.isPart_lock hname) hfits hlead true

end KeepsWay

/-- Locks that are no links do not depend on which environments are there. -/
theorem Apart.of_not_link {id : Nat} (hnamed : before.files.IsNamed)
    (hparts : ∀ name ∈ names, IsPart name)
    (hway : (before.without dir names).files.find (before.without dir names).base root =
      .ok (dir, .directory id))
    (hlinks : ∀ name ∈ names, ∀ target,
      before.files.entry? (dir ++ [name ++ Layout.lockSuffix]) ≠ some (.link target)) :
    Apart before root dir names := by
  refine ⟨⟨id, hway⟩, fun name hname gone hgone hlock => ?_⟩
  obtain ⟨links, hkeeps⟩ := exists_keepsWay hway
  by_cases hfits : (Layout.lockFile (root.join ⟨name⟩)).Fits
  · have hpart := Path.isPart_lock (hparts name hname)
    have hsame : entry? (before.files.without dir gone) (dir ++ [name ++ Layout.lockSuffix]) =
        before.files.entry? (dir ++ [name ++ Layout.lockSuffix]) := entry?_without_concat hlock
    have hlink := hlinks name hname
    rw [World.without, hkeeps.lockAt (hnamed.of_isPartOf (isPartOf_without _ dir gone))
        (isPartOf_without_of_subset hgone) (hparts name hname) hfits,
      walk_part hpart (by rwa [hsame]), hsame]
    exact ((hkeeps.lockAt hnamed (isPartOf_without _ _ _) (hparts name hname) hfits).trans
      (walk_part hpart hlink)).symm
  · exact resolve_of_not_fits hfits _

namespace Site

variable {links : Nat}

/-- Under the name of an environment, a directory or a link stands in the directory. -/
theorem entry (h : Site before root dir names) (hway : KeepsWay before root dir names links)
    (hname : name ∈ names) :
    (root.join ⟨name⟩).Fits ∧ IsName name ∧
      (∃ entry, before.files.entry? (dir ++ [name]) = some entry ∧ entry.isWay) ∧
      ∃ place id, before.files.walk true links dir [name] = .ok (place, some (.directory id)) := by
  obtain ⟨place, id, hfind⟩ := isDirectory_iff.mp (h.there name hname)
  have hresolve := find_eq_ok_iff.mp hfind
  have hfits := fits_of_resolve hresolve
  rw [hway.resolve h.named (isPartOf_without _ _ _) (h.parts name hname) hfits true] at hresolve
  obtain ⟨hisName, hentry⟩ := exists_entry_of_walk (h.parts name hname) hresolve
  exact ⟨hfits, hisName, hentry, place, id, hresolve⟩

/-- Where a lock is missing, there is nothing, and nothing that may be removed is above. -/
theorem not_within (h : Site before root dir names) (hlacks : before.LacksLock root names location)
    {other : Bytes} (hother : other ∈ names) : ¬ dir ++ [other] <+: location := by
  intro hbelow
  obtain ⟨name, hname, hlock⟩ := hlacks
  obtain ⟨links, hway⟩ := h.exists_way
  obtain ⟨_, _, ⟨entry, hentry, _⟩, place, id, hplace⟩ := h.entry hway hother
  have hfits := fits_of_resolve hlock
  have hpart := isPartOf_without before.files dir
  have hwalk := hway.lockAt h.named (hpart names) (h.parts name hname) hfits
  -- The lock itself is no environment, since then it would not be missing.
  have hne : name ++ Layout.lockSuffix ∉ [other] := by
    rw [List.mem_singleton]
    rintro rfl
    rw [hlock, hplace] at hwalk
    cases hwalk
  have hgone := h.locks name hname [other] (by simpa using hother) hne
  have hsubset : (before.files.without dir names).IsPartOf (before.files.without dir [other]) :=
    isPartOf_without_of_subset (by simpa using hother)
  rw [hlock, World.without, hway.lockAt (h.named.of_isPartOf (hpart _)) hsubset
    (h.parts name hname) hfits, walk_eq_ok_iff] at hgone
  have htop := hgone.not_within (by simp)
    (fun _ => entry?_without_of_mem (List.mem_singleton_self other))
    (fun habove => Nat.not_succ_le_self dir.length (by simpa using habove.length_le)) hbelow
  have hnone : before.files.entry? location = none := entry?_of_resolve hlock
  rw [htop, hentry] at hnone
  cases hnone

end Site

/-! ### In between -/

/-- What is there after some environments were removed and the locks of some were opened: what was
there before, without these environments and with a new file for every lock that was missing. -/
structure Stage (before : World) (root : Path) (dir : Location) (gone opened : List Bytes)
    (files : FileSystem) : Prop where
  tree : files.IsTree
  named : files.IsNamed
  nextId_le : before.files.nextId ≤ files.nextId
  created : ∀ location, before.LacksLock root opened location →
    ∃ id, before.files.nextId ≤ id ∧ files.entry? location = some (.file id ⟨[], 0⟩ false)
  kept : ∀ location, ¬ before.LacksLock root opened location →
    files.entry? location = entry? (before.files.without dir gone) location

theorem Site.stage (h : Site before root dir names) : Stage before root dir [] [] before.files :=
  ⟨h.tree, h.named, Nat.le_refl _, fun _ ⟨_, hname, _⟩ => (nomatch hname), fun _ _ => rfl⟩

namespace Stage

variable {links : Nat}

/-- What was there is there, unless it was removed. -/
theorem entry?_of_some (h : Stage before root dir gone opened files) {entry : Entry}
    (hentry : entry? (before.files.without dir gone) location = some entry) :
    files.entry? location = some entry := by
  rw [h.kept, hentry]
  intro hlacks
  have hnone := hlacks.entry?
  rw [isPartOf_without _ _ _ _ _ hentry] at hnone
  cases hnone

theorem isPartOf (h : Stage before root dir gone opened files) (hgone : gone ⊆ names) :
    (before.files.without dir names).IsPartOf files :=
  fun _ _ hentry => h.entry?_of_some (isPartOf_without_of_subset hgone _ _ hentry)

/-- No directory and no link is new. -/
theorem sameWays (h : Stage before root dir gone opened files) :
    SameWays (before.files.without dir gone) files := by
  intro location entry hway
  refine ⟨h.entry?_of_some, fun hentry => ?_⟩
  rw [h.kept] at hentry
  · exact hentry
  · intro hlacks
    obtain ⟨id, _, hnew⟩ := h.created location hlacks
    rw [hnew] at hentry
    cases hentry
    cases hway

/-- What a lock denotes is told by what it denoted at first and by what stands there now. -/
theorem lockAt_eq_ok_iff (h : Stage before root dir gone opened files)
    (hsite : Site before root dir names) (hgone : gone ⊆ names) (hname : name ∈ names)
    (hlock : name ++ Layout.lockSuffix ∉ gone) {entry : Option Entry} :
    World.lockAt { before with files } root name = .ok (location, entry) ↔
      before.lockAt root name = .ok (location, entry? (before.files.without dir gone) location) ∧
        files.entry? location = entry := by
  have hfirst := isPartOf_without before.files dir gone
  have hrest : (before.files.without dir names).IsPartOf (before.files.without dir gone) :=
    isPartOf_without_of_subset hgone
  obtain ⟨links, hway⟩ := hsite.exists_way
  rw [← hsite.locks name hname gone hgone hlock]
  constructor
  · intro hresolve
    have hfits := fits_of_resolve hresolve
    refine ⟨?_, entry?_of_resolve hresolve⟩
    rw [hway.lockAt h.named (h.isPartOf hgone) (hsite.parts name hname) hfits,
      walk_eq_ok_iff] at hresolve
    have hsame : SameWays files (before.files.without dir gone) := fun other entry hway =>
      (h.sameWays other entry hway).symm
    rw [World.without, hway.lockAt (hsite.named.of_isPartOf hfirst) hrest (hsite.parts name hname)
      hfits, walk_eq_ok_iff]
    exact hresolve.of_sameWays hsame
  · rintro ⟨hresolve, rfl⟩
    have hfits := fits_of_resolve hresolve
    rw [World.without, hway.lockAt (hsite.named.of_isPartOf hfirst) hrest (hsite.parts name hname)
      hfits, walk_eq_ok_iff] at hresolve
    rw [hway.lockAt h.named (h.isPartOf hgone) (hsite.parts name hname) hfits, walk_eq_ok_iff]
    exact hresolve.of_sameWays h.sameWays

/-- A lock is free if it was free at first. -/
theorem lockIsFree (h : Stage before root dir gone opened files)
    (hsite : Site before root dir names) (hgone : gone ⊆ names) (hname : name ∈ names)
    (hlock : name ++ Layout.lockSuffix ∉ gone) :
    World.lockIsFree { before with files } root name = before.lockIsFree root name := by
  have hiff := fun location entry =>
    @lockAt_eq_ok_iff _ _ _ location _ _ _ _ _ h hsite hgone hname hlock entry
  rw [World.lockIsFree, World.lockIsFree]
  cases hbefore : before.lockAt root name with
  | error cause =>
      cases hafter : World.lockAt { before with files } root name with
      | error cause => rfl
      | ok result =>
          rw [((hiff _ _).mp hafter).1] at hbefore
          cases hbefore
  | ok result =>
      obtain ⟨location, entry⟩ := result
      have hkept : entry? (before.files.without dir gone) location = entry :=
        entry?_of_resolve ((hsite.locks name hname gone hgone hlock).trans hbefore)
      have hafter := (hiff location _).mpr ⟨by rw [hbefore, hkept], rfl⟩
      rw [hafter]
      cases entry with
      | some entry => rw [h.entry?_of_some hkept]
      | none =>
          by_cases hlacks : before.LacksLock root opened location
          · obtain ⟨id, hid, hnew⟩ := h.created location hlacks
            -- A file that was created later than all others is not locked.
            have hfree : id ∉ before.locked := fun hmem =>
              Nat.not_lt.mpr hid (hsite.fresh id hmem)
            rw [hnew]
            simpa [BuildLock.isFree, Entry.isDirectory, Entry.lockNumber] using hfree
          · rw [h.kept location hlacks, hkept]

/-- A lock can be opened without creating a directory for it. -/
theorem isPlaced (h : Stage before root dir gone opened files)
    (hsite : Site before root dir names) (hgone : gone ⊆ names) (hname : name ∈ names) :
    BuildLock.IsPlaced (Layout.lockFile (root.join ⟨name⟩)) { before with files } := by
  obtain ⟨links, hway⟩ := hsite.exists_way
  obtain ⟨_, id, hfind⟩ := hway files h.named (h.isPartOf hgone)
  refine ⟨fun parent hparent => ?_, fun found hmissing => ?_, fun id hid => ?_⟩
  · rw [Path.parent?_lockFile root (hsite.parts name hname)] at hparent
    obtain rfl := Option.some.inj hparent
    rw [World.createDirectories]
    simp only [createDirectories_plain hfind]
  · have hlockAt := hway.lockAt h.named (h.isPartOf hgone) (hsite.parts name hname)
      (fits_of_resolve hmissing)
    have hwalk := walk_eq_ok_iff.mp (hlockAt.symm.trans hmissing)
    refine hwalk.checkParent h.tree (hway.hasDirectory h.named (h.isPartOf hgone)) ?_ rfl
    intro part hpart
    rw [List.mem_singleton.mp hpart]
    exact (Path.isPart_lock (hsite.parts name hname)).slash_not_mem
  · exact Nat.lt_of_lt_of_le (hsite.fresh id hid) h.nextId_le

/-- A lock that was missing is missing until it is created. -/
theorem entry?_eq_none (h : Stage before root dir gone opened files)
    (hlock : before.lockAt root name = .ok (location, none))
    (hlacks : ¬ before.LacksLock root opened location) : files.entry? location = none := by
  rw [h.kept location hlacks]
  exact entry?_without_of_none (entry?_of_resolve hlock) dir gone

/-- Putting a new file where a lock is missing. -/
theorem createLock (h : Stage before root dir gone opened files)
    (hlock : before.lockAt root name = .ok (location, none))
    (hnone : files.entry? location = none) (hcheck : files.checkParent location = .ok ()) :
    Stage before root dir gone (opened ++ [name])
      (files.putNew location fun id => .file id ⟨[], 0⟩ false) := by
  have hne := ne_nil_of_entry?_none hnone
  have hview := files.entry?_putNew hne fun id => .file id ⟨[], 0⟩ false
  refine ⟨?_, ?_, Nat.le_succ_of_le h.nextId_le, fun other hlacks => ?_, fun other hlacks => ?_⟩
  · refine (h.tree.put hne (hasDirectory_of_checkParent hcheck) ?_
      (.file files.nextId ⟨[], 0⟩ false)).congr fun _ => rfl
    rintro ⟨id, hid⟩
    rw [hnone] at hid
    cases hid
  · have hput := h.named.put hne hcheck (.file files.nextId ⟨[], 0⟩ false)
    exact fun other hsome => hput other hsome
  · rw [hview]
    split
    · exact ⟨_, h.nextId_le, rfl⟩
    · next hother =>
        rcases World.lacksLock_concat.mp hlacks with hlacks | hsame
        · exact h.created other hlacks
        · rw [hlock] at hsame
          cases hsame
          exact absurd rfl hother
  · rw [World.lacksLock_concat, not_or] at hlacks
    rw [hview, if_neg, h.kept other hlacks.1]
    rintro rfl
    exact hlacks.2 hlock

/-- Opening a lock creates it if it is missing, and changes nothing else. -/
theorem openLock (h : Stage before root dir gone opened files)
    (hsite : Site before root dir names) (hgone : gone ⊆ names) (hname : name ∈ names)
    (hlock : name ++ Layout.lockSuffix ∉ gone) {files' : FileSystem}
    (hopened : BuildLock.Opened { before with files } (Layout.lockFile (root.join ⟨name⟩)) files') :
    Stage before root dir gone (opened ++ [name]) files' := by
  have hiff := fun location entry =>
    @lockAt_eq_ok_iff _ _ _ location _ _ _ _ _ h hsite hgone hname hlock entry
  unfold BuildLock.Opened at hopened
  split at hopened
  · next found hmissing =>
      obtain ⟨hbefore, hnone⟩ := (hiff found none).mp hmissing
      have hnotLacks : ¬ before.LacksLock root opened found := by
        intro hlacks
        obtain ⟨id, _, hnew⟩ := h.created found hlacks
        rw [hnew] at hnone
        cases hnone
      rw [← h.kept found hnotLacks, hnone] at hbefore
      subst hopened
      exact h.createLock hbefore hnone ((h.isPlaced hsite hgone hname).parent found hmissing)
  · next hthere =>
      obtain ⟨hsame, hnextId⟩ := hopened
      dsimp only at hsame hnextId
      refine ⟨h.tree.congr hsame, ?_, hnextId ▸ h.nextId_le, fun other hlacks => ?_,
        fun other hlacks => ?_⟩
      · exact h.named.of_isPartOf fun other entry hentry => by rw [← hsame, hentry]
      · rw [hsame]
        rcases World.lacksLock_concat.mp hlacks with hlacks | hbefore
        · exact h.created other hlacks
        · by_cases hlacks : before.LacksLock root opened other
          · exact h.created other hlacks
          · have hnone := h.entry?_eq_none hbefore hlacks
            have hmissing := (hiff other none).mpr
              ⟨by rw [hbefore, ← h.kept other hlacks, hnone], hnone⟩
            exact absurd hmissing (hthere other)
      · rw [World.lacksLock_concat, not_or] at hlacks
        rw [hsame, h.kept other hlacks.1]

/-- Removing an environment. -/
theorem removeTree (h : Stage before root dir gone opened files)
    (hsite : Site before root dir names) (hgone : gone ⊆ names) (hopened : opened ⊆ names)
    (hname : name ∈ names) (hthere : name ∉ gone) :
    files.removeTree (World.base { before with files }) (root.join ⟨name⟩) =
        .ok (files.prune (dir ++ [name])) ∧
      Stage before root dir (gone ++ [name]) opened (files.prune (dir ++ [name])) := by
  obtain ⟨links, hway⟩ := hsite.exists_way
  obtain ⟨hfits, hisName, ⟨entry, hentry, hisWay⟩, _⟩ := hsite.entry hway hname
  have hnow : files.entry? (dir ++ [name]) = some entry := by
    refine h.entry?_of_some ?_
    rw [entry?_without_concat hthere, hentry]
  have hresolve := hway.resolve h.named (h.isPartOf hgone) hisName.isPart hfits false
  rw [walk_name hisName, hnow] at hresolve
  refine ⟨removeTree_join hisName.isPart (by simp) hisWay hresolve, h.tree.prune _,
    h.named.of_isPartOf (isPartOf_prune _ _), h.nextId_le, fun location hlacks => ?_,
    fun location hlacks => ?_⟩
  · obtain ⟨id, hid, hnew⟩ := h.created location hlacks
    refine ⟨id, hid, ?_⟩
    rw [entry?_prune, if_neg, hnew]
    obtain ⟨other, hother, hlock⟩ := hlacks
    exact fun hbelow => hsite.not_within ⟨other, hopened hother, hlock⟩ hname hbelow.2
  · rw [without_concat, entry?_prune, entry?_prune, h.kept location hlacks]

/-- An environment is removed if its lock was free at first, and otherwise left as it is. -/
theorem ofEnvironment (h : Stage before root dir gone opened files)
    (hsite : Site before root dir names) (hgone : gone ⊆ names) (hopened : opened ⊆ names)
    (hname : name ∈ names) (hthere : name ∉ gone) (hlock : name ++ Layout.lockSuffix ∉ gone)
    {listed : Listed} (hlocation : listed.location = root.join ⟨name⟩) :
    ∃ removal files', Removal.ofEnvironment listed { before with files } =
        (removal, { before with files := files' }) ∧
      removal.isRemoved = before.lockIsFree root name ∧
      Stage before root dir (gone ++ [name].filter (before.lockIsFree root)) (opened ++ [name])
        files' := by
  have hfree := h.lockIsFree hsite hgone hname hlock
  rw [World.lockIsFree] at hfree
  obtain ⟨files', hopen, hcases⟩ := BuildLock.attempt_cases (h.isPlaced hsite hgone hname)
  have hnext := h.openLock hsite hgone hname hlock hopen
  rw [Removal.ofEnvironment, hlocation]
  rcases hcases with ⟨hisFree, id, hattempt⟩ | ⟨hisFree, hnot, hworld⟩
  · have hthis : before.lockIsFree root name = true := hfree.symm.trans hisFree
    obtain ⟨hremove, hstage⟩ := hnext.removeTree hsite hgone
      (List.append_subset.mpr ⟨hopened, by simpa using hname⟩) hname hthere
    have hremoved : World.removeTree { before with files := files', locked := id :: before.locked }
        (root.join ⟨name⟩) = (.ok (), { before with
          files := files'.prune (dir ++ [name]), locked := id :: before.locked }) :=
      World.removeTree_eq_ok hremove
    refine ⟨.removed listed.size, files'.prune (dir ++ [name]), ?_, hthis.symm, ?_⟩
    · simp only [hattempt, hremoved, BuildLock.release, List.erase_cons_head]
    · rwa [List.filter_cons_of_pos hthis, List.filter_nil]
  · have hthis : before.lockIsFree root name = false := hfree.symm.trans hisFree
    have hkeep : gone ++ [name].filter (before.lockIsFree root) = gone := by
      rw [List.filter_cons_of_neg (by rw [hthis]; decide), List.filter_nil, List.append_nil]
    rw [hkeep, hthis]
    cases hattempt : BuildLock.attempt (Layout.lockFile (root.join ⟨name⟩))
        { before with files } with
    | mk result world =>
        rw [hattempt] at hnot hworld
        subst hworld
        cases result with
        | error cause => exact ⟨_, files', rfl, rfl, hnext⟩
        | ok lock =>
            cases lock with
            | none => exact ⟨_, files', rfl, rfl, hnext⟩
            | some lock => exact absurd ⟨lock, rfl⟩ hnot

/-! ### One after the other -/

end Stage

/-- Removes environments one after the other, without saying anything. -/
def removeEach : List Listed → World → List Removal × World
  | [], world => ([], world)
  | listed :: rest, world =>
      let (removal, world) := Removal.ofEnvironment listed world
      let (removals, world) := removeEach rest world
      (removal :: removals, world)

theorem Removal.events_ofEnvironment (listed : Listed) (world : World) :
    (ofEnvironment listed world).2.events = world.events := by
  have hattempt := BuildLock.events_attempt (Layout.lockFile listed.location) world
  rw [ofEnvironment]
  split
  · next hresult => rwa [hresult] at hattempt
  · next hresult => rwa [hresult] at hattempt
  · next hresult =>
      rw [hresult] at hattempt
      have hremove : ∀ world : World,
          (world.removeTree listed.location).2.events = world.events := by
        intro world
        rw [World.removeTree]
        split <;> rfl
      dsimp only
      split <;> exact (hremove _).trans hattempt

/-- What is said about the removals does not change how they go. -/
theorem run_removeAll (listed : List Listed) {state : State} (hevents : state.world.events = []) :
    (removeAll listed).run state = (.ok (removeEach listed state.world).1,
      { state with
        world := (removeEach listed state.world).2
        stderr := state.stderr ++
          linesOf ((removeEach listed state.world).1.filterMap Removal.notice?) }) := by
  induction listed generalizing state with
  | nil => simp [removeAll, removeEach, linesOf, run_pure]
  | cons first rest ih =>
      have hnone := (Removal.events_ofEnvironment first state.world).trans hevents
      rw [removeAll, removeEach, run_bind_ok (run_onWorld _ state)]
      cases hremoval : Removal.ofEnvironment first state.world with
      | mk removal next =>
          rw [hremoval] at hnone
          have hshow : showEvents { state with world := next } = { state with world := next } :=
            showEvents_of_nil hnone
          have hrest := fun stderr => @ih { state with world := next, stderr } hnone
          dsimp only
          rw [hshow]
          cases hnotice : removal.notice? with
          | none =>
              dsimp only
              rw [run_bind_ok (hrest _), run_pure]
              simp [hnotice]
          | some notice =>
              dsimp only
              rw [run_bind_ok (run_printErrorLine _ _), run_bind_ok (hrest _), run_pure]
              simp [hnotice, linesOf]

/-- Every removal is counted once. -/
theorem countP_removals (removals : List Removal) :
    removals.countP Removal.isRemoved + removals.countP Removal.isSkipped +
      removals.countP Removal.isFailed = removals.length := by
  induction removals with
  | nil => rfl
  | cons removal removals ih =>
      simp only [List.countP_cons, List.length_cons, ← ih]
      cases removal <;> simp [Removal.isRemoved, Removal.isSkipped, Removal.isFailed] <;> omega

theorem length_removeEach (listed : List Listed) (world : World) :
    (removeEach listed world).1.length = listed.length := by
  induction listed generalizing world with
  | nil => rfl
  | cons first rest ih => simp [removeEach, ih]

/-- What is left when some environments were removed one after the other. -/
theorem Stage.removeEach (hsite : Site before root dir names) (hnodup : names.Nodup)
    (hshown : Shown names) (world : World) {rest : List Bytes}
    (h : Stage before root dir gone opened files) (hnames : opened ++ rest = names)
    (hgone : gone ⊆ opened) :
    ∃ removals files',
      removeEach (rest.map fun name => Listed.of world (root.join ⟨name⟩)) { before with files } =
        (removals, { before with files := files' }) ∧
      removals.map Removal.isRemoved = rest.map (before.lockIsFree root) ∧
      Stage before root dir (gone ++ rest.filter (before.lockIsFree root)) (opened ++ rest)
        files' := by
  induction rest generalizing gone opened files with
  | nil => exact ⟨[], files, rfl, rfl, by simpa using h⟩
  | cons name rest ih =>
      have hopened : opened ⊆ names := hnames ▸ List.subset_append_left _ _
      have hname : name ∈ names := hnames ▸ List.mem_append_right _ List.mem_cons_self
      have hthere : name ∉ opened := by
        rw [← hnames] at hnodup
        intro hmem
        exact (List.nodup_append.mp hnodup).2.2 name hmem name List.mem_cons_self rfl
      have hlock : name ++ Layout.lockSuffix ∉ opened := (hnames ▸ hshown).lock_not_mem
      have hlocation : (Listed.of world (root.join ⟨name⟩)).location = root.join ⟨name⟩ := rfl
      obtain ⟨removal, files', hremoval, hisRemoved, hnext⟩ := h.ofEnvironment hsite
        (List.Subset.trans hgone hopened) hopened hname (fun hmem => hthere (hgone hmem))
        (fun hmem => hlock (hgone hmem)) hlocation
      have hsubset : gone ++ [name].filter (before.lockIsFree root) ⊆ opened ++ [name] :=
        List.append_subset.mpr ⟨List.Subset.trans hgone (List.subset_append_left _ _),
          List.Subset.trans List.filter_sublist.subset (List.subset_append_right _ _)⟩
      obtain ⟨removals, files'', hremovals, hareRemoved, hlast⟩ := ih hnext
        (by rw [List.append_assoc]; exact hnames) hsubset
      refine ⟨removal :: removals, files'', ?_, ?_, ?_⟩
      · rw [List.map_cons, Program.removeEach, hremoval]
        dsimp only
        rw [hremovals]
      · rw [List.map_cons, List.map_cons, hisRemoved, hareRemoved]
      · rw [List.append_assoc, List.append_assoc] at hlast
        rwa [← List.singleton_append, List.filter_append]

end Program
end Enclave
