import Enclave.Lock.Build
import Enclave.Proofs.FileSystem.Directories

/-! # Trying to lock a file

Whether a try to lock a file succeeds is told by what the path of the file denotes and by the files
that are locked already (`acquires_attempt_iff`).  A try changes nothing but that a missing file is
created and that the file is locked (`attempt_cases`). -/

namespace Enclave

/-- The number by which an entry is locked.  Only files have one of their own. -/
def Entry.lockNumber : Entry → Nat
  | file id _ _ => id
  | _ => 0

namespace FileSystem

variable {fs : FileSystem} {base found : Location} {path : Path} {entry : Entry}

/-! ### Opening a file -/

/-- A file that is opened for writing and not changed. -/
theorem touch_of_there (h : fs.resolve base path true = .ok (found, some entry))
    (hdirectory : entry.isDirectory = false) :
    ∃ files : FileSystem, fs.touch base path = .ok (files, entry.lockNumber) ∧
      (∀ location, files.entry? location = fs.entry? location) ∧ files.nextId = fs.nextId := by
  cases entry with
  | directory number => cases hdirectory
  | file number content executable =>
      have hthere : fs.entry? found = some (.file number content executable) := entry?_of_resolve h
      have hne : found ≠ [] := by
        rintro rfl
        cases hthere
      have hview : ∀ location, entry? (fs.put found (.file number content executable)) location =
          fs.entry? location := by
        intro location
        rw [entry?_put _ hne]
        split
        · next hsame => rw [hsame, hthere]
        · rfl
      have hpart : fs.IsPartOf (fs.put found (.file number content executable)) :=
        fun location other hother => (hview location).trans hother
      have hsame := resolve_mono hpart h
      refine ⟨_, ?_, hview, fs.nextId_put _ _⟩
      rw [touch, modify, h]
      simp only [id_eq, stat?, find, hsame, Except.toOption, Option.map_some]
      rfl
  | _ =>
      refine ⟨fs, ?_, fun _ => rfl, rfl⟩
      rw [touch, modify, h]
      simp only [stat?, find, h, Except.toOption, Option.map_some]
      rfl

/-- A missing file that is opened for writing. -/
theorem touch_of_missing (h : fs.resolve base path true = .ok (found, none))
    (hcheck : fs.checkParent found = .ok ()) :
    fs.touch base path = .ok (fs.putNew found fun id => .file id ⟨[], 0⟩ false, fs.nextId) := by
  have hnone := entry?_of_resolve h
  have hne := ne_nil_of_entry?_none hnone
  have hview := fs.entry?_putNew hne fun id => .file id ⟨[], 0⟩ false
  have hpart : fs.IsPartOf (fs.putNew found fun id => .file id ⟨[], 0⟩ false) := by
    intro location other hother
    rw [hview, if_neg, hother]
    rintro rfl
    rw [hnone] at hother
    cases hother
  have hthere : (fs.putNew found fun id => .file id ⟨[], 0⟩ false).resolve base path true =
      .ok (found, some (.file fs.nextId ⟨[], 0⟩ false)) := by
    have hfits := fits_of_resolve h
    rw [resolve_of_fits hfits, walk_eq_ok_iff] at h ⊢
    have hentry := (hview found).trans (if_pos rfl)
    refine hentry ▸ h.mono hpart fun target htarget => ?_
    rw [hentry] at htarget
    cases htarget
  rw [touch, modify, h]
  simp only [hcheck, id_eq, stat?, find, hthere, Except.toOption, Option.map_some]

theorem touch_of_error {cause : IoError} (h : fs.resolve base path true = .error cause) :
    fs.touch base path = .error cause := by
  rw [touch, modify, h]

theorem touch_of_directory {id : Nat}
    (h : fs.resolve base path true = .ok (found, some (.directory id))) :
    fs.touch base path = .error .isDirectory := by
  rw [touch, modify, h]

end FileSystem

namespace BuildLock

variable {world : World} {path : Path}

/-! ### Trying -/

/-- A try to lock changes files and locks only. -/
theorem exists_attempt_eq (path : Path) (world : World) :
    ∃ files locked, (attempt path world).2 = { world with files, locked } := by
  rw [attempt]
  split
  next prepared after hprepared =>
  have hafter : ∃ files, after = { world with files } := by
    split at hprepared
    · exact ⟨_, (congrArg Prod.snd hprepared).symm⟩
    · exact ⟨world.files, (congrArg Prod.snd hprepared).symm⟩
  obtain ⟨files, rfl⟩ := hafter
  split
  · exact ⟨files, world.locked, rfl⟩
  · split
    · exact ⟨files, world.locked, rfl⟩
    · dsimp only
      split
      · exact ⟨_, world.locked, rfl⟩
      · exact ⟨_, _, rfl⟩

/-- A try to lock reports nothing. -/
theorem events_attempt (path : Path) (world : World) :
    (attempt path world).2.events = world.events := by
  obtain ⟨files, locked, heq⟩ := exists_attempt_eq path world
  rw [heq]

theorem clock_attempt (path : Path) (world : World) :
    (attempt path world).2.clock = world.clock := by
  obtain ⟨files, locked, heq⟩ := exists_attempt_eq path world
  rw [heq]

/-- Whether a try to lock has acquired the lock. -/
def Acquires (result : Except IoError (Option BuildLock)) : Prop :=
  ∃ lock, result = .ok (some lock)

/-- Whether what a path denotes can be locked: it is a file that nobody has locked, or nothing. -/
def isFree (locked : List Nat) : Except IoError (Location × Option Entry) → Bool
  | .error _ => false
  | .ok (_, none) => true
  | .ok (_, some entry) => !entry.isDirectory && !locked.contains entry.lockNumber

/-- Whether a file can be locked without creating a directory for it. -/
structure IsPlaced (path : Path) (world : World) : Prop where
  prepared : ∀ parent, path.parent? = some parent →
    world.createDirectories parent = (.ok (), world)
  parent : ∀ found, world.files.resolve world.base path true = .ok (found, none) →
    world.files.checkParent found = .ok ()
  fresh : ∀ id ∈ world.locked, id < world.files.nextId

theorem attempt_of_touch (h : IsPlaced path world) {files : FileSystem} {id : Nat}
    (htouch : world.files.touch world.base path = .ok (files, id)) :
    attempt path world =
      if world.locked.contains id then (.ok none, { world with files })
      else (.ok (some ⟨path, id⟩), { world with files, locked := id :: world.locked }) := by
  rw [attempt]
  cases hparent : path.parent? with
  | none => simp only [htouch]
  | some parent => simp only [h.prepared parent hparent, htouch]

theorem attempt_of_touch_error (h : IsPlaced path world) {cause : IoError}
    (htouch : world.files.touch world.base path = .error cause) :
    attempt path world = (.error cause, world) := by
  rw [attempt]
  cases hparent : path.parent? with
  | none => simp only [htouch]
  | some parent => simp only [h.prepared parent hparent, htouch]

/-- What is there after a path was opened for writing: what was there, and a file if there was
nothing. -/
def Opened (world : World) (path : Path) (files : FileSystem) : Prop :=
  match world.files.resolve world.base path true with
  | .ok (found, none) => files = world.files.putNew found fun id => .file id ⟨[], 0⟩ false
  | _ => (∀ location, files.entry? location = world.files.entry? location) ∧
      files.nextId = world.files.nextId

/-- How a try to lock goes. -/
theorem attempt_cases (h : IsPlaced path world) :
    ∃ files, Opened world path files ∧
      (isFree world.locked (world.files.resolve world.base path true) = true ∧
          (∃ id, attempt path world =
            (.ok (some ⟨path, id⟩), { world with files, locked := id :: world.locked })) ∨
        isFree world.locked (world.files.resolve world.base path true) = false ∧
          ¬ Acquires (attempt path world).1 ∧ (attempt path world).2 = { world with files }) := by
  unfold Opened
  cases hresolve : world.files.resolve world.base path true with
  | error cause =>
      rw [attempt_of_touch_error h (FileSystem.touch_of_error hresolve)]
      exact ⟨_, ⟨fun _ => rfl, rfl⟩, .inr ⟨rfl, nofun, rfl⟩⟩
  | ok result =>
      obtain ⟨found, entry⟩ := result
      cases entry with
      | none =>
          have hfree : ¬ world.locked.contains world.files.nextId = true := by
            rw [List.contains_iff_mem]
            exact fun hmem => Nat.lt_irrefl _ (h.fresh _ hmem)
          rw [attempt_of_touch h (FileSystem.touch_of_missing hresolve (h.parent found hresolve)),
            if_neg hfree]
          exact ⟨_, rfl, .inl ⟨rfl, _, rfl⟩⟩
      | some entry =>
          cases hdirectory : entry.isDirectory with
          | true =>
              cases entry with
              | directory id =>
                  rw [attempt_of_touch_error h (FileSystem.touch_of_directory hresolve)]
                  exact ⟨_, ⟨fun _ => rfl, rfl⟩, .inr ⟨rfl, nofun, rfl⟩⟩
              | _ => cases hdirectory
          | false =>
              obtain ⟨files, htouch, hview⟩ := FileSystem.touch_of_there hresolve hdirectory
              rw [attempt_of_touch h htouch]
              refine ⟨files, hview, ?_⟩
              by_cases hlocked : world.locked.contains entry.lockNumber = true
              · rw [if_pos hlocked]
                exact .inr
                  ⟨by simp only [isFree, hlocked, Bool.not_true, Bool.and_false], nofun, rfl⟩
              · rw [if_neg hlocked]
                have hfree := Bool.not_eq_true _ |>.mp hlocked
                exact .inl ⟨by simp only [isFree, hdirectory, hfree]; rfl, _, rfl⟩

/-- A lock is acquired if its path denotes something that can be locked. -/
theorem acquires_attempt_iff (h : IsPlaced path world) :
    Acquires (attempt path world).1 ↔
      isFree world.locked (world.files.resolve world.base path true) = true := by
  obtain ⟨files, _, ⟨hfree, id, hattempt⟩ | ⟨hfree, hnot, _⟩⟩ := attempt_cases h
  · rw [hattempt, hfree]
    exact ⟨fun _ => rfl, fun _ => ⟨_, rfl⟩⟩
  · rw [hfree]
    exact ⟨fun hacquires => absurd hacquires hnot, nofun⟩

end BuildLock
end Enclave
