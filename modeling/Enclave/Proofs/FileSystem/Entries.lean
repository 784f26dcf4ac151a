import Enclave.FileSystem.Operations

/-! # What stands where

`entry?` is the view of a file system.  Putting an entry changes the view at one location
(`entry?_put`), pruning removes a location and everything below it (`entry?_prune`).  A file system is
a tree when every entry stands in a directory; putting an entry into a directory and pruning keep
that (`IsTree.put`, `IsTree.prune`). -/

namespace Enclave

namespace Entry

/-- Whether a walk can go on from an entry. -/
def isWay : Entry → Bool
  | directory _ => true
  | link _ => true
  | _ => false

end Entry

namespace FileSystem

variable (fs : FileSystem)

/-! ### The view -/

theorem entry?_nil : fs.entry? [] = some (.directory 0) := rfl

theorem entry?_of_ne_nil {location : Location} (h : location ≠ []) :
    fs.entry? location = fs.entries.lookup location := by
  rw [FileSystem.entry?, if_neg h]

/-- What stands below the top is one of the entries. -/
theorem mem_entries {fs : FileSystem} {found : Location} {entry : Entry} (hne : found ≠ [])
    (h : fs.entry? found = some entry) : (found, entry) ∈ fs.entries := by
  rw [FileSystem.entry?, if_neg hne] at h
  obtain ⟨front, back, hentries, _⟩ := List.lookup_eq_some_iff.mp h
  simp [hentries]

private theorem lookup_append_new {entries : List (Location × Entry)} {location : Location}
    (h : entries.lookup location = none) (entry : Entry) (other : Location) :
    (entries ++ [(location, entry)]).lookup other =
      if other = location then some entry else entries.lookup other := by
  rw [List.lookup_append]
  by_cases ho : other = location
  · subst ho
    simp [h]
  · have hb : (other == location) = false := by simpa using ho
    simp [List.lookup_cons, hb, ho]

private theorem lookup_map_put (entries : List (Location × Entry)) {location : Location}
    (entry : Entry) (other : Location) (h : (entries.lookup location).isSome) :
    (entries.map fun e => if e.1 = location then (location, entry) else e).lookup other =
      if other = location then some entry else entries.lookup other := by
  induction entries with
  | nil => simp at h
  | cons e entries ih =>
      obtain ⟨first, value⟩ := e
      rw [List.map_cons, List.lookup_cons]
      by_cases hf : first = location
      · subst hf
        by_cases ho : other = first
        · subst ho
          simp
        · have hb : (other == first) = false := by simpa using ho
          simp only [if_true, hb, List.lookup_cons, if_neg ho]
          -- Nothing is left to replace unless the location occurs again, which no look-up sees.
          clear ih h
          induction entries with
          | nil => rfl
          | cons e entries ih =>
              obtain ⟨second, value⟩ := e
              rw [List.map_cons, List.lookup_cons, List.lookup_cons]
              by_cases hs : second = first
              · subst hs
                simp only [if_true, hb]
                exact ih
              · simp only [if_neg hs]
                split
                · rfl
                · exact ih
      · have hb : (location == first) = false := by
          simpa using fun he : location = first => hf he.symm
        rw [List.lookup_cons, hb] at h
        rw [List.lookup_cons, ih h]
        by_cases ho : other = location
        · subst ho
          simp [hf, hb]
        · simp [hf, ho]

/-- Putting an entry changes what stands at its location only. -/
theorem entry?_put {location : Location} (hne : location ≠ []) (entry : Entry) (other : Location) :
    entry? (fs.put location entry) other =
      if other = location then some entry else fs.entry? other := by
  by_cases ho : other = []
  · subst ho
    rw [if_neg fun h => hne h.symm]
    rfl
  · rw [entry?_of_ne_nil _ ho, entry?_of_ne_nil _ ho, put]
    split
    · next h => exact lookup_append_new h entry other
    · next h => exact lookup_map_put fs.entries entry other (by rw [h]; rfl)

theorem nextId_put (location : Location) (entry : Entry) :
    (fs.put location entry).nextId = fs.nextId := by
  rw [put]
  split <;> rfl

/-- Putting an entry in the place of another one adds no location. -/
theorem locations_put {location : Location} (hne : location ≠ [])
    (h : (fs.entry? location).isSome) (entry : Entry) :
    (fs.put location entry).entries.map (·.1) = fs.entries.map (·.1) := by
  rw [entry?_of_ne_nil fs hne] at h
  rw [put]
  split
  · next hnone =>
      rw [hnone] at h
      cases h
  · rw [List.map_map]
    refine List.map_congr_left fun e _ => ?_
    simp only [Function.comp_apply]
    split
    · next hsame => exact hsame.symm
    · rfl

theorem entry?_putNew {location : Location} (hne : location ≠ []) (entry : Nat → Entry)
    (other : Location) :
    entry? (fs.putNew location entry) other =
      if other = location then some (entry fs.nextId) else fs.entry? other :=
  fs.entry?_put hne (entry fs.nextId) other

private theorem lookup_filter (keep : Location → Bool) (entries : List (Location × Entry))
    (location : Location) :
    (entries.filter fun e => keep e.1).lookup location =
      if keep location then entries.lookup location else none := by
  induction entries with
  | nil => simp
  | cons e entries ih =>
      obtain ⟨first, value⟩ := e
      rw [List.filter_cons, List.lookup_cons]
      by_cases hf : location = first
      · subst hf
        split
        · rw [List.lookup_cons, beq_self_eq_true]
        · next hkeep => rw [ih, if_neg hkeep]
      · have hb : (location == first) = false := by simpa using hf
        split
        · rw [List.lookup_cons, hb, ih]
        · rw [ih, hb]

/-- Pruning removes what stands at a location or below it. -/
theorem entry?_prune (location other : Location) :
    entry? (fs.prune location) other =
      if other ≠ [] ∧ location <+: other then none else fs.entry? other := by
  by_cases ho : other = []
  · subst ho
    simp [FileSystem.entry?]
  · rw [entry?_of_ne_nil _ ho, entry?_of_ne_nil _ ho]
    refine (lookup_filter (!location.isWithin ·) fs.entries other).trans ?_
    by_cases hbelow : location <+: other
    · simp [ho, hbelow, Location.isWithin, List.isPrefixOf_iff_prefix.mpr hbelow]
    · simp [hbelow, Location.isWithin, mt List.isPrefixOf_iff_prefix.mp hbelow]

/-- Emptying a directory removes what stands below it. -/
theorem entry?_empty (location other : Location) :
    entry? (fs.empty location) other =
      if other ≠ [] ∧ other ≠ location ∧ location <+: other then none else fs.entry? other := by
  by_cases ho : other = []
  · subst ho
    simp [FileSystem.entry?]
  · rw [entry?_of_ne_nil _ ho, entry?_of_ne_nil _ ho]
    refine (lookup_filter (fun l => l == location || !location.isWithin l) fs.entries other).trans ?_
    by_cases hsame : other = location
    · simp [hsame]
    · by_cases hbelow : location <+: other
      · simp [ho, hsame, hbelow, Location.isWithin, List.isPrefixOf_iff_prefix.mpr hbelow]
      · simp [hsame, hbelow, Location.isWithin, mt List.isPrefixOf_iff_prefix.mp hbelow]

/-! ### Trees -/

/-- Whether a directory stands at a location. -/
def HasDirectory (location : Location) : Prop :=
  ∃ id, fs.entry? location = some (.directory id)

/-- Whether every entry stands in a directory. -/
def IsTree : Prop :=
  ∀ location, location ≠ [] → (fs.entry? location).isSome → fs.HasDirectory location.dropLast

variable {fs}

theorem hasDirectory_nil : fs.HasDirectory [] := ⟨0, rfl⟩

theorem isTree_of_entries
    (h : ∀ e ∈ fs.entries, (fs.entry? e.1.dropLast).any Entry.isDirectory = true) :
    fs.IsTree := by
  intro found hne hsome
  obtain ⟨entry, hentry⟩ := Option.isSome_iff_exists.mp hsome
  obtain ⟨above, habove, hdirectory⟩ :=
    (Option.any_eq_true _ _).mp (h _ (mem_entries hne hentry))
  cases above with
  | directory id => exact ⟨id, habove⟩
  | _ => cases hdirectory

theorem IsTree.congr {fs' : FileSystem} (h : fs.IsTree)
    (hview : ∀ location, fs'.entry? location = fs.entry? location) : fs'.IsTree := by
  intro location hne hsome
  rw [hview] at hsome
  obtain ⟨id, hid⟩ := h location hne hsome
  exact ⟨id, by rw [hview, hid]⟩

/-- Nothing stands below a location that is not a directory. -/
theorem IsTree.entry?_append {location : Location} (h : fs.IsTree)
    (hdirectory : ¬ fs.HasDirectory location) (name : Bytes) :
    fs.entry? (location ++ [name]) = none := by
  rw [← Option.not_isSome_iff_eq_none]
  intro hsome
  have hparent := h _ (by simp) hsome
  rw [List.dropLast_concat] at hparent
  exact hdirectory hparent

/-- An entry that is put into a directory, in the place of nothing or of something that held
nothing, leaves a tree. -/
theorem IsTree.put {location : Location} (h : fs.IsTree) (hne : location ≠ [])
    (hparent : fs.HasDirectory location.dropLast) (hold : ¬ fs.HasDirectory location)
    (entry : Entry) : (fs.put location entry).IsTree := by
  intro other hother hsome
  have hshorter : ∀ l : Location, l ≠ [] → l.dropLast ≠ location → fs.HasDirectory l.dropLast →
      (fs.put location entry).HasDirectory l.dropLast := by
    rintro l _ hl ⟨id, hid⟩
    exact ⟨id, by rw [entry?_put _ hne, if_neg hl, hid]⟩
  have hself : location.dropLast ≠ location := by
    intro he
    have hlength := congrArg List.length he
    have hpos := List.length_pos_iff.mpr hne
    rw [List.length_dropLast] at hlength
    omega
  by_cases ho : other = location
  · subst ho
    exact hshorter other hne hself hparent
  · rw [entry?_put _ hne, if_neg ho] at hsome
    have hdirectory := h other hother hsome
    exact hshorter other hother (fun he => hold (he ▸ hdirectory)) hdirectory

theorem IsTree.prune (h : fs.IsTree) (location : Location) : (fs.prune location).IsTree := by
  intro other hother hsome
  rw [entry?_prune] at hsome
  split at hsome
  · simp at hsome
  · next hout =>
      obtain ⟨id, hid⟩ := h other hother hsome
      refine ⟨id, ?_⟩
      rw [entry?_prune, if_neg, hid]
      rintro ⟨_, hprefix⟩
      exact hout ⟨hother, hprefix.trans other.dropLast_prefix⟩

/-- What stands at a location can be put into if the check says so. -/
theorem hasDirectory_of_checkParent {location : Location} (h : fs.checkParent location = .ok ()) :
    fs.HasDirectory location.dropLast := by
  unfold checkParent at h
  split at h
  · cases h
  · split at h
    · next id hid => exact ⟨id, hid⟩
    · cases h
    · cases h

end FileSystem
end Enclave
