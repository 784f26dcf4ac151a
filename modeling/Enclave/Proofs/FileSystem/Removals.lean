import Enclave.Proofs.FileSystem.Directories
import Enclave.Proofs.World

/-! # Removing what is in a directory

Some entries of a directory are removed with everything below them (`without`).  Where the same
directories and links are left, walks end in the same places (`Walks.of_sameWays`), and a walk that
begins outside of what is gone does not end in it (`Walks.not_within`).  A directory, or a link, is
removed under its name in the directory (`removeTree_join`). -/

namespace Enclave

namespace FileSystem

variable {fs fs' : FileSystem} {follow : Bool} {links : Nat} {base dir found gap : Location}
  {steps : List Bytes} {entry : Option Entry} {path root : Path} {name : Bytes} {gone : List Bytes}

/-! ### Walks -/

/-- Where the same directories and links are, walks end in the same places. -/
theorem Walks.of_sameWays (hways : SameWays fs fs')
    (h : Walks fs follow links dir steps found entry) :
    Walks fs' follow links dir steps found (fs'.entry? found) := by
  induction h with
  | here => exact .here
  | stay _ ih => exact .stay ih
  | up _ ih => exact .up ih
  | last hdot hdotDot hlength hlink =>
      exact .last hdot hdotDot hlength fun target htarget =>
        hlink target ((hways _ _ rfl).mpr htarget)
  | enter hdot hdotDot hlength hrest hdirectory _ ih =>
      exact .enter hdot hdotDot hlength hrest ((hways _ _ rfl).mp hdirectory) ih
  | follow hdot hdotDot hlength hend hlink _ ih =>
      exact .follow hdot hdotDot hlength hend ((hways _ _ rfl).mp hlink) ih

/-- A walk that begins outside of what is gone ends outside of it or at its top. -/
theorem Walks.not_within (hgap : gap ≠ [])
    (hgone : ∀ location, gap <+: location → fs.entry? location = none)
    (h : Walks fs follow links dir steps found entry) (hdir : ¬ gap <+: dir) :
    gap <+: found → found = gap := by
  induction h with
  | here => exact fun hfound => absurd hfound hdir
  | stay _ ih => exact ih hdir
  | up _ ih => exact ih fun hup => hdir (hup.trans (List.dropLast_prefix _))
  | last =>
      intro hfound
      rcases List.prefix_concat_iff.mp hfound with hsame | hbefore
      · exact hsame.symm
      · exact absurd hbefore hdir
  | enter _ _ _ _ hdirectory _ ih =>
      refine ih fun hnext => ?_
      rw [hgone _ hnext] at hdirectory
      cases hdirectory
  | follow _ _ _ _ _ _ ih =>
      refine ih ?_
      split
      · exact fun hnil => hgap (List.prefix_nil.mp hnil)
      · exact hdir

/-- What a walk does not find can be put where it ends. -/
theorem Walks.checkParent (htree : fs.IsTree) (h : Walks fs follow links dir steps found entry)
    (hdir : fs.HasDirectory dir) (hsteps : ∀ part ∈ steps, Path.slash ∉ part)
    (hnone : entry = none) : fs.checkParent found = .ok () := by
  induction h with
  | here =>
      obtain ⟨id, hid⟩ := hdir
      rw [hid] at hnone
      cases hnone
  | stay _ ih => exact ih hdir (fun part hpart => hsteps part (.tail _ hpart)) hnone
  | @up links dir _ _ _ _ ih =>
      have hup : Leads fs links dir [Path.dotDot] links dir.dropLast := .up .here
      exact ih (hup.hasDirectory htree hdir) (fun part hpart => hsteps part (.tail _ hpart)) hnone
  | @last _ dir part =>
      obtain ⟨id, hid⟩ := hdir
      have hslash := hsteps part List.mem_cons_self
      rw [FileSystem.checkParent, List.getLast?_concat, List.dropLast_concat, hid]
      simpa using hslash
  | enter _ _ _ _ hdirectory _ ih =>
      exact ih ⟨_, hdirectory⟩ (fun part hpart => hsteps part (.tail _ hpart)) hnone
  | @follow _ _ _ _ _ target _ _ _ _ _ _ _ ih =>
      refine ih ?_ (fun part hpart => ?_) hnone
      · split
        · exact hasDirectory_nil
        · exact hdir
      · rcases List.mem_append.mp hpart with hpart | hpart
        · rw [stepsOf] at hpart
          rcases List.mem_append.mp hpart with hpart | hpart
          · exact Bytes.not_mem_of_mem_splitOn (List.mem_filter.mp hpart).1
          · split at hpart
            · obtain rfl := List.mem_singleton.mp hpart
              decide
            · cases hpart
        · exact hsteps part (.tail _ hpart)

/-- Under the name of a directory stands the directory or a link. -/
theorem exists_entry_of_walk {place : Location} {id : Nat} (hname : IsPart name)
    (h : fs.walk true links dir [name] = .ok (place, some (.directory id))) :
    IsName name ∧ ∃ entry, fs.entry? (dir ++ [name]) = some entry ∧ entry.isWay := by
  rw [walk_cons, if_neg hname.ne_dot, if_neg hname.ne_dotDot] at h
  split at h
  · cases h
  · next hlength =>
      refine ⟨⟨hname.ne_nil, hname.ne_dot, hname.ne_dotDot, hname.slash_not_mem,
        Nat.not_lt.mp hlength⟩, ?_⟩
      cases hentry : fs.entry? (dir ++ [name]) with
      | none =>
          rw [hentry] at h
          cases h
      | some entry =>
          refine ⟨entry, rfl, ?_⟩
          rw [hentry] at h
          cases entry with
          | directory id => rfl
          | link target => rfl
          | _ => cases h

/-- A path that cannot be looked up is refused by every file system for the same reason. -/
theorem resolve_of_not_fits (h : ¬ path.Fits) (other : Location) :
    fs.resolve base path follow = fs'.resolve other path follow := by
  rw [resolve, resolve]
  split
  · rfl
  · next hnul =>
      split
      · rfl
      · next hnil =>
          rw [if_pos, if_pos]
          all_goals exact Nat.not_le.mp fun hlength => h ⟨by simpa using hnul, hnil, hlength⟩

/-- Where no link stands under it, a walk along a name is told by the name and by what is there. -/
theorem walk_part (hname : IsPart name)
    (h : ∀ target, fs.entry? (dir ++ [name]) ≠ some (.link target)) :
    fs.walk true links dir [name] =
      if maxNameLength < name.length then .error .nameTooLong
      else .ok (dir ++ [name], fs.entry? (dir ++ [name])) := by
  split
  · next hlength => rw [walk_cons, if_neg hname.ne_dot, if_neg hname.ne_dotDot, if_pos hlength]
  · next hlength =>
      exact walk_name_of_not_link ⟨hname.ne_nil, hname.ne_dot, hname.ne_dotDot,
        hname.slash_not_mem, Nat.not_lt.mp hlength⟩ links h true

/-! ### Removing names -/

/-- The file system without some names of a directory and what is below them. -/
def without (fs : FileSystem) (dir : Location) (gone : List Bytes) : FileSystem :=
  gone.foldl (fun fs name => fs.prune (dir ++ [name])) fs

theorem without_concat (fs : FileSystem) (dir : Location) (gone : List Bytes) (name : Bytes) :
    fs.without dir (gone ++ [name]) = (fs.without dir gone).prune (dir ++ [name]) := by
  rw [without, List.foldl_append]
  rfl

/-- The order in which names are removed does not matter. -/
theorem without_perm {other : List Bytes} (h : gone.Perm other) (fs : FileSystem) (dir : Location) :
    fs.without dir gone = fs.without dir other := by
  refine h.foldl_eq' (fun first _ second _ fs => ?_) fs
  simp only [prune, List.filter_filter, Bool.and_comm]

/-- What is not below a name that is gone is there as before. -/
theorem entry?_without_of_not {location : Location}
    (h : ∀ name ∈ gone, ¬ dir ++ [name] <+: location) :
    entry? (fs.without dir gone) location = fs.entry? location := by
  induction gone generalizing fs with
  | nil => rfl
  | cons name gone ih =>
      rw [List.forall_mem_cons] at h
      exact (ih h.2).trans ((fs.entry?_prune _ _).trans (if_neg fun hgone => h.1 hgone.2))

/-- A name that is not gone is there as before. -/
theorem entry?_without_concat (h : name ∉ gone) :
    entry? (fs.without dir gone) (dir ++ [name]) = fs.entry? (dir ++ [name]) := by
  refine entry?_without_of_not fun other hother hbelow => ?_
  have hsame := hbelow.eq_of_length (by simp)
  rw [List.append_cancel_left_eq, List.singleton_inj] at hsame
  exact h (hsame ▸ hother)

theorem isPartOf_without (fs : FileSystem) (dir : Location) (gone : List Bytes) :
    (fs.without dir gone).IsPartOf fs := by
  induction gone generalizing fs with
  | nil => exact .refl fs
  | cons name gone ih => exact (ih _).trans (fs.isPartOf_prune _)

theorem entry?_without_of_none {location : Location} (h : fs.entry? location = none)
    (dir : Location) (gone : List Bytes) : entry? (fs.without dir gone) location = none := by
  cases hentry : entry? (fs.without dir gone) location with
  | none => rfl
  | some entry =>
      rw [isPartOf_without fs dir gone _ _ hentry] at h
      cases h

/-- Nothing is left below a name that is gone. -/
theorem entry?_without_of_mem {location : Location} (h : name ∈ gone)
    (hbelow : dir ++ [name] <+: location) : entry? (fs.without dir gone) location = none := by
  induction gone generalizing fs with
  | nil => cases h
  | cons first gone ih =>
      rcases List.mem_cons.mp h with rfl | hmem
      · have hpruned : entry? (fs.prune (dir ++ [name])) location = none := by
          refine (fs.entry?_prune _ _).trans (if_pos ⟨?_, hbelow⟩)
          rintro rfl
          simp at hbelow
        exact entry?_without_of_none hpruned dir gone
      · exact ih hmem

theorem isPartOf_without_of_subset {more : List Bytes} (h : gone ⊆ more) :
    (fs.without dir more).IsPartOf (fs.without dir gone) := by
  intro location entry hentry
  rw [entry?_without_of_not, isPartOf_without fs dir more _ _ hentry]
  intro name hmem hbelow
  rw [entry?_without_of_mem (h hmem) hbelow] at hentry
  cases hentry

/-! ### Removing a directory or a link -/

/-- A path that ends in a name has no obstacle, unless a link is there. -/
theorem obstacle?_join (hname : IsPart name)
    (h : ∀ found target,
      fs.resolve base (root.join ⟨name⟩) false ≠ .ok (found, some (.link target))) :
    fs.obstacle? base (root.join ⟨name⟩) = none := by
  have hlast : (Bytes.splitOn Path.slash (root.join ⟨name⟩).bytes).reverse.find? (· != []) =
      some name := by
    rw [← List.head?_filter, List.filter_reverse, List.head?_reverse]
    exact (congrArg List.getLast? (root.parts_join hname)).trans List.getLast?_concat
  rw [obstacle?, hlast]
  dsimp only
  rw [if_neg hname.ne_dot, if_neg hname.ne_dotDot,
    Path.withoutFinalSlashes_of_getLast? (root.getLast?_join hname)]
  split
  · next hlink => exact absurd hlink (h _ _)
  · rfl

/-- A directory or a link is removed under its name. -/
theorem removeTree_join {found : Location} {entry : Entry} (hname : IsPart name)
    (hfound : found ≠ []) (hway : entry.isWay)
    (h : fs.resolve base (root.join ⟨name⟩) false = .ok (found, some entry)) :
    fs.removeTree base (root.join ⟨name⟩) = .ok (fs.prune found) := by
  obtain ⟨first, rest, rfl⟩ := List.exists_cons_of_ne_nil hfound
  rw [removeTree, h]
  cases entry with
  | directory id =>
      have hobstacle : fs.obstacle? base (root.join ⟨name⟩) = none := by
        refine obstacle?_join hname fun _ _ hlink => ?_
        rw [h] at hlink
        cases hlink
      simp only [hobstacle]
  | link target => rfl
  | _ => cases hway

end FileSystem
end Enclave
