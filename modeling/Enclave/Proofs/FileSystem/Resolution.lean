import Enclave.Proofs.FileSystem.Paths

/-! # What a path denotes

A path that is not too long denotes what stands under its last name in the directory that the names
before lead to (`resolve_name_iff`, for an absolute path `resolve_join_iff`).  Two file systems with
the same directories and links (`SameWays`) lead to the same places, so they can differ only in what
stands there. -/

namespace Enclave

/-- Whether a path is one that can be looked up. -/
structure Path.Fits (path : Path) : Prop where
  nul_not_mem : path.bytes.contains 0 = false
  ne_nil : path.bytes ≠ []
  length_le : path.bytes.length ≤ FileSystem.maxPathLength

/-- The front of a path that can be looked up can be looked up. -/
theorem Path.Fits.of_prefix {path front : Path} (h : path.Fits)
    (hfront : front.bytes <+: path.bytes) (hne : front.bytes ≠ []) : front.Fits := by
  refine ⟨?_, hne, Nat.le_trans hfront.length_le h.length_le⟩
  have hnul := h.nul_not_mem
  rw [← Bool.not_eq_true, List.contains_iff_mem] at hnul ⊢
  exact fun hmem => hnul (hfront.subset hmem)

namespace FileSystem

variable {fs fs' : FileSystem} {path directory : Path} {name : Bytes} {base : Location}
  {follow : Bool}

/-! ### Looking up -/

/-- Where the walk along a path starts. -/
def start (base : Location) (path : Path) : Location :=
  if path.isAbsolute then [] else base

theorem resolve_of_fits (hfits : path.Fits) :
    fs.resolve base path follow = fs.walk follow maxLinks (start base path) (stepsOf path) := by
  rw [resolve, hfits.nul_not_mem, if_neg Bool.false_ne_true, if_neg hfits.ne_nil,
    if_neg (Nat.not_lt.mpr hfits.length_le), start]

theorem resolve_eq_walk (hfits : path.Fits) (habsolute : path.isAbsolute) :
    fs.resolve base path follow = fs.walk follow maxLinks [] (stepsOf path) := by
  rw [resolve_of_fits hfits, start, if_pos habsolute]

theorem fits_of_resolve {result : Location × Option Entry}
    (h : fs.resolve base path follow = .ok result) : path.Fits := by
  rw [resolve] at h
  split at h
  · simp at h
  · next hnul =>
      split at h
      · simp at h
      · next hnil =>
          split at h
          · simp at h
          · next hlength =>
              exact ⟨by simpa using hnul, hnil, Nat.not_lt.mp hlength⟩

theorem entry?_of_resolve {found : Location} {entry : Option Entry}
    (h : fs.resolve base path follow = .ok (found, entry)) : fs.entry? found = entry := by
  have hfits := fits_of_resolve h
  rw [resolve, hfits.nul_not_mem, if_neg Bool.false_ne_true, if_neg hfits.ne_nil,
    if_neg (Nat.not_lt.mpr hfits.length_le)] at h
  exact entry?_of_walk h

theorem start_join (base : Location) (directory : Path) (h : IsPart name) :
    start base (directory.join ⟨name⟩) = start base directory := by
  rw [start, start, Path.isAbsolute_join_name directory h]

/-- What stands under the last name of a path. -/
theorem resolve_name_iff (h : IsName name) {found : Location} {entry : Option Entry} :
    fs.resolve base (directory.join ⟨name⟩) false = .ok (found, entry) ↔
      (directory.join ⟨name⟩).Fits ∧
        ∃ links there, Leads fs maxLinks (start base directory) directory.parts links there ∧
          found = there ++ [name] ∧ entry = fs.entry? (there ++ [name]) := by
  constructor
  · intro hresolve
    have hfits := fits_of_resolve hresolve
    rw [resolve_of_fits hfits, start_join base directory h.isPart,
      Path.stepsOf_join directory h.isPart] at hresolve
    obtain ⟨links, there, hway⟩ := leads_of_walk (List.cons_ne_nil name []) _ _ _ hresolve
    rw [hway.walk (List.cons_ne_nil name []), walk_name h, Except.ok.injEq,
      Prod.mk.injEq] at hresolve
    exact ⟨hfits, links, there, hway, hresolve.1.symm, hresolve.2.symm⟩
  · rintro ⟨hfits, links, there, hway, rfl, rfl⟩
    rw [resolve_of_fits hfits, start_join base directory h.isPart,
      Path.stepsOf_join directory h.isPart, hway.walk (List.cons_ne_nil name []), walk_name h]

/-- Where no link stands under the last name, it does not matter whether links are followed. -/
theorem resolve_name_follow (h : IsName name)
    (hlink : ∀ found target,
      fs.resolve base (directory.join ⟨name⟩) false ≠ .ok (found, some (.link target)))
    {result : Location × Option Entry} :
    fs.resolve base (directory.join ⟨name⟩) true = .ok result ↔
      fs.resolve base (directory.join ⟨name⟩) false = .ok result := by
  have hsame : ∀ {links : Nat} {there : Location}, (directory.join ⟨name⟩).Fits →
      Leads fs maxLinks (start base directory) directory.parts links there →
      fs.walk true links there [name] = fs.walk false links there [name] := by
    intro links there hfits hway
    rw [walk_name h]
    apply walk_name_of_not_link h
    intro target hentry
    exact hlink _ target ((resolve_name_iff h).mpr ⟨hfits, links, there, hway, rfl, hentry.symm⟩)
  constructor
  all_goals
    intro hresolve
    have hfits := fits_of_resolve hresolve
    rw [resolve_of_fits hfits, start_join base directory h.isPart,
      Path.stepsOf_join directory h.isPart] at hresolve ⊢
    obtain ⟨links, there, hway⟩ := leads_of_walk (List.cons_ne_nil name []) _ _ _ hresolve
    rw [hway.walk (List.cons_ne_nil name [])] at hresolve ⊢
    have hsame := hsame hfits hway
    simp_all

/-! ### Absolute paths -/

theorem resolve_base (habsolute : path.isAbsolute) (base : Location) (follow : Bool) :
    fs.resolve base path follow = fs.resolve [] path follow := by
  simp only [resolve, if_pos habsolute]

theorem resolve_join_iff (habsolute : directory.isAbsolute) (h : IsName name)
    {found : Location} {entry : Option Entry} :
    fs.resolve base (directory.join ⟨name⟩) false = .ok (found, entry) ↔
      (directory.join ⟨name⟩).Fits ∧
        ∃ links there, Leads fs maxLinks [] directory.parts links there ∧
          found = there ++ [name] ∧ entry = fs.entry? (there ++ [name]) := by
  rw [resolve_name_iff h, start, if_pos habsolute]

theorem resolve_join_follow (habsolute : directory.isAbsolute) (h : IsName name)
    (hlink : ∀ found target,
      fs.resolve [] (directory.join ⟨name⟩) false ≠ .ok (found, some (.link target)))
    {result : Location × Option Entry} :
    fs.resolve base (directory.join ⟨name⟩) true = .ok result ↔
      fs.resolve [] (directory.join ⟨name⟩) false = .ok result := by
  rw [resolve_base (Path.isAbsolute_join ⟨name⟩ habsolute) base, resolve_name_follow h hlink]

/-! ### What is missing -/

/-- In a tree, only a name can be missing at the end of a walk. -/
theorem leads_of_walk_none (htree : fs.IsTree) {links : Nat} {dir found : Location}
    {steps : List Bytes} (hdir : fs.HasDirectory dir)
    (h : fs.walk false links dir steps = .ok (found, none)) :
    ∃ front name links' there, steps.filter (· != Path.dot) = front ++ [name] ∧
      Leads fs links dir front links' there ∧ found = there ++ [name] ∧
      fs.entry? found = none ∧ name ≠ Path.dot ∧ name ≠ Path.dotDot ∧
      name.length ≤ maxNameLength := by
  rcases List.eq_nil_or_concat steps with rfl | ⟨init, last, rfl⟩
  · rw [walk_nil] at h
    obtain ⟨id, hid⟩ := hdir
    simp [hid] at h
  · rw [List.concat_eq_append] at h ⊢
    obtain ⟨links', there, hway⟩ := leads_of_walk (List.cons_ne_nil last []) _ _ _ h
    obtain ⟨id, hid⟩ := hway.hasDirectory htree hdir
    rw [hway.walk (List.cons_ne_nil last []), walk_cons] at h
    split at h
    · rw [walk_nil] at h
      simp [hid] at h
    · next hdot =>
        split at h
        · rw [walk_nil] at h
          obtain ⟨id', hid'⟩ := (hway.append (.up .here)).hasDirectory htree hdir
          simp [hid'] at h
        · next hdotDot =>
            split at h
            · simp at h
            · next hlength =>
                have hmissing : fs.entry? (there ++ [last]) = none := by
                  cases hentry : fs.entry? (there ++ [last]) with
                  | none => rfl
                  | some entry => cases entry <;> simp [hentry] at h
                simp only [hmissing, if_true, Except.ok.injEq, Prod.mk.injEq, and_true] at h
                refine ⟨_, last, links', there, ?_, leads_filter_dot_iff.mpr hway, h.symm,
                  h ▸ hmissing, hdot, hdotDot, Nat.not_lt.mp hlength⟩
                rw [List.filter_append]
                congr 1
                exact List.filter_cons_of_pos (bne_iff_ne.mpr hdot)

/-! ### The same ways -/

/-- Whether the same directories and links stand in two file systems. -/
def SameWays (fs fs' : FileSystem) : Prop :=
  ∀ location entry, entry.isWay →
    (fs.entry? location = some entry ↔ fs'.entry? location = some entry)

theorem SameWays.leads_iff (h : SameWays fs fs') {links links' : Nat} {dir there : Location}
    {parts : List Bytes} :
    Leads fs links dir parts links' there ↔ Leads fs' links dir parts links' there :=
  ⟨Leads.mono fun location entry hway => (h location entry hway).mp,
    Leads.mono fun location entry hway => (h location entry hway).mpr⟩

theorem SameWays.trans {fs'' : FileSystem} (h : SameWays fs fs') (h' : SameWays fs' fs'') :
    SameWays fs fs'' :=
  fun location entry hway => (h location entry hway).trans (h' location entry hway)

/-- Putting what is no way in the place of what is no way changes no way. -/
theorem sameWays_of_entry? {location : Location}
    (hold : ∀ entry, fs.entry? location = some entry → ¬ entry.isWay)
    (hnew : ∀ entry, fs'.entry? location = some entry → ¬ entry.isWay)
    (hother : ∀ other, other ≠ location → fs'.entry? other = fs.entry? other) :
    SameWays fs fs' := by
  intro other entry hway
  by_cases ho : other = location
  · subst ho
    exact ⟨fun h => absurd hway (hold entry h), fun h => absurd hway (hnew entry h)⟩
  · rw [hother other ho]

theorem SameWays.hasDirectory_iff (h : SameWays fs fs') (location : Location) :
    fs.HasDirectory location ↔ fs'.HasDirectory location :=
  exists_congr fun id => h location (.directory id) rfl

/-! ### Removing what holds nothing -/

/-- In a tree everything above an entry is a directory. -/
theorem IsTree.hasDirectory_of_prefix (htree : fs.IsTree) {above : Location} :
    ∀ location : Location, above <+: location → above ≠ location →
      (fs.entry? location).isSome → fs.HasDirectory above
  | location, habove, hne, hsome => by
      have hlonger : above.length < location.length :=
        Nat.lt_of_le_of_ne habove.length_le fun h => hne (habove.eq_of_length h)
      have hlocation : location ≠ [] := List.length_pos_iff.mp (by omega)
      have hlength : location.dropLast.length = location.length - 1 := List.length_dropLast
      have hparent := htree location hlocation hsome
      by_cases hnext : above = location.dropLast
      · exact hnext ▸ hparent
      · obtain ⟨id, hid⟩ := hparent
        exact hasDirectory_of_prefix htree location.dropLast
          (List.prefix_of_prefix_length_le habove location.dropLast_prefix (by omega)) hnext
          (by rw [hid]; rfl)
termination_by location => location.length

/-- Removing what is no directory changes what stands at its location only. -/
theorem entry?_prune_of_not_directory (htree : fs.IsTree) {location : Location}
    (hne : location ≠ []) (h : ¬ fs.HasDirectory location) (other : Location) :
    entry? (fs.prune location) other = if other = location then none else fs.entry? other := by
  rw [entry?_prune]
  by_cases ho : other = location
  · subst ho
    rw [if_pos ⟨hne, List.prefix_rfl⟩, if_pos rfl]
  · rw [if_neg ho]
    split
    · next hbelow =>
        cases hentry : fs.entry? other with
        | none => rfl
        | some entry =>
            exact absurd (htree.hasDirectory_of_prefix other hbelow.2 (Ne.symm ho)
              (by rw [hentry]; rfl)) h
    · rfl

end FileSystem
end Enclave
