import Enclave.Proofs.FileSystem.Changes
import Enclave.World

/-! # What paths denote in the world

Relative paths are seen from the current directory, which may be removed like any other.  From a
removed directory a walk finds only what it would find had it begun there (`Walks.of_removed`), so
whatever is removed, a path denotes nothing that it did not denote before (`World.resolve_mono`,
`World.leads_mono`). -/

namespace Enclave

namespace FileSystem

variable {fs : FileSystem}

/-- Where there is a slash in a name, there is nothing. -/
theorem IsNamed.entry?_eq_none (h : fs.IsNamed) {location : Location}
    (hmem : [Path.slash] ∈ location) : fs.entry? location = none := by
  rw [← Option.not_isSome_iff_eq_none]
  exact fun hsome => h location hsome _ hmem List.mem_cons_self

/-- From a directory that was removed, a walk finds only what it would find had it begun there. -/
theorem Walks.of_removed (hnamed : fs.IsNamed) {follow : Bool} {links : Nat} {dir found : Location}
    {steps : List Bytes} {there : Entry}
    (h : Walks fs follow links (dir.dropLast ++ [[Path.slash]]) steps found (some there)) :
    Walks fs follow links dir steps found (some there) := by
  have hnone : ∀ rest, fs.entry? (dir.dropLast ++ [[Path.slash]] ++ rest) = none := fun rest =>
    hnamed.entry?_eq_none (by simp)
  induction steps with
  | nil =>
      have hend : fs.walk follow links _ [] = .ok (found, some there) := h.walk
      have hmissing := hnone []
      rw [List.append_nil] at hmissing
      rw [walk_nil, hmissing] at hend
      cases hend
  | cons part steps ih =>
      have hfar : ∀ entry, fs.entry? (dir.dropLast ++ [[Path.slash]] ++ [part]) ≠ some entry := by
        intro entry hentry
        rw [hnone] at hentry
        cases hentry
      generalize hentry : some there = entry at h
      cases h with
      | stay h => exact .stay (hentry ▸ ih (hentry ▸ h))
      | up h =>
          rw [List.dropLast_concat] at h
          exact .up h
      | last => exact absurd hentry.symm (hfar there)
      | enter _ _ _ _ hdirectory => exact absurd hdirectory (hfar _)
      | follow _ _ _ _ hlink => exact absurd hlink (hfar _)

/-- From a directory that was removed, a way to something that is there is one from where it was. -/
theorem Leads.of_removed (hnamed : fs.IsNamed) {links links' : Nat} {dir there : Location}
    {parts : List Bytes} (hthere : (fs.entry? there).isSome)
    (h : Leads fs links (dir.dropLast ++ [[Path.slash]]) parts links' there) :
    Leads fs links dir parts links' there := by
  have hnone : ∀ rest entry, fs.entry? (dir.dropLast ++ [[Path.slash]] ++ rest) ≠ some entry := by
    intro rest entry hentry
    rw [hnamed.entry?_eq_none (by simp)] at hentry
    cases hentry
  induction parts with
  | nil =>
      obtain ⟨_, rfl⟩ := h.unique .here
      obtain ⟨entry, hentry⟩ := Option.isSome_iff_exists.mp hthere
      exact absurd hentry (by simpa using hnone [] entry)
  | cons part parts ih =>
      cases h with
      | stay h => exact .stay (ih h)
      | up h =>
          rw [List.dropLast_concat] at h
          exact .up h
      | enter _ _ _ hdirectory => exact absurd hdirectory (hnone _ _)
      | follow _ _ _ hlink => exact absurd hlink (hnone _ _)

end FileSystem

namespace World

variable {world : World} {files : FileSystem} {path : Path}

/-- Where relative paths are seen from after entries were removed. -/
theorem base_of_isPartOf (hpart : files.IsPartOf world.files) :
    World.base { world with files } = world.base ∨
      world.base = world.cwd ∧
        World.base { world with files } = world.cwd.dropLast ++ [[Path.slash]] := by
  have hexists : World.cwdExists { world with files } = true → world.cwdExists = true := by
    simp only [cwdExists, beq_iff_eq]
    exact hpart _ _
  by_cases hafter : World.cwdExists { world with files } = true
  · left
    rw [base, base, if_pos hafter, if_pos (hexists hafter)]
  · by_cases hbefore : world.cwdExists = true
    · right
      rw [base, base, if_neg hafter, if_pos hbefore]
      exact ⟨rfl, rfl⟩
    · left
      rw [base, base, if_neg hafter, if_neg hbefore]

/-- What a path denotes after a removal, it denoted before. -/
theorem resolve_mono (hnamed : world.files.IsNamed) (hpart : files.IsPartOf world.files)
    {follow : Bool} {found : Location} {there : Entry}
    (h : files.resolve (World.base { world with files }) path follow = .ok (found, some there)) :
    world.files.resolve world.base path follow = .ok (found, some there) := by
  have hwhole := FileSystem.resolve_mono hpart h
  rcases base_of_isPartOf hpart with hbase | ⟨hcwd, hbase⟩
  · rwa [← hbase]
  · have hfits := FileSystem.fits_of_resolve h
    rw [hbase, FileSystem.resolve_of_fits hfits, FileSystem.walk_eq_ok_iff] at hwhole
    rw [hcwd, FileSystem.resolve_of_fits hfits, FileSystem.walk_eq_ok_iff]
    rw [FileSystem.start] at hwhole ⊢
    split
    · next habsolute => rwa [if_pos habsolute] at hwhole
    · next hrelative =>
        rw [if_neg hrelative] at hwhole
        exact hwhole.of_removed hnamed

/-- Where a path leads after a removal, it led before. -/
theorem leads_mono (hnamed : world.files.IsNamed) (hpart : files.IsPartOf world.files)
    {links links' : Nat} {parts : List Bytes} {there : Location}
    (hthere : (files.entry? there).isSome)
    (h : files.Leads links (FileSystem.start (World.base { world with files }) path) parts links'
      there) :
    world.files.Leads links (FileSystem.start world.base path) parts links' there := by
  have hwhole := h.mono fun location entry _ hentry => hpart location entry hentry
  rw [FileSystem.start] at hwhole ⊢
  rcases base_of_isPartOf hpart with hbase | ⟨hcwd, hbase⟩
  · rwa [hbase] at hwhole
  · split
    · next habsolute => rwa [if_pos habsolute] at hwhole
    · next hrelative =>
        obtain ⟨entry, hentry⟩ := Option.isSome_iff_exists.mp hthere
        rw [if_neg hrelative, hbase] at hwhole
        rw [hcwd]
        exact hwhole.of_removed hnamed (by rw [hpart _ _ hentry]; rfl)

end World
end Enclave
