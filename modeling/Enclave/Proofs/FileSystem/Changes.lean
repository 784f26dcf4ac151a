import Enclave.Proofs.FileSystem.Resolution

/-! # What operations change

A file system is part of another one when the latter has all its entries.  What is found in the part
is found in the whole (`resolve_mono`), and what is created stays where it is found.  Creating the
directories of a path adds only directories that the path or one above it denotes
(`addsAt_createDirectories`).  Names have no slashes, and operations keep that (`IsNamed`).

A walk that ends somewhere is a derivation of `Walks`, on which these facts go by induction. -/

namespace Enclave.FileSystem

variable {fs fs' fs'' : FileSystem} {base dir found : Location} {path : Path} {follow : Bool}
  {links : Nat} {steps : List Bytes} {entry : Option Entry} {there : Entry}

/-! ### Walks that end somewhere -/

/-- How a walk comes to its end. -/
inductive Walks (fs : FileSystem) (follow : Bool) :
    Nat → Location → List Bytes → Location → Option Entry → Prop
  | here {links : Nat} {dir : Location} : Walks fs follow links dir [] dir (fs.entry? dir)
  | stay {links : Nat} {dir found : Location} {rest : List Bytes} {entry : Option Entry} :
      Walks fs follow links dir rest found entry →
      Walks fs follow links dir (Path.dot :: rest) found entry
  | up {links : Nat} {dir found : Location} {rest : List Bytes} {entry : Option Entry} :
      Walks fs follow links dir.dropLast rest found entry →
      Walks fs follow links dir (Path.dotDot :: rest) found entry
  | last {links : Nat} {dir : Location} {part : Bytes} :
      part ≠ Path.dot → part ≠ Path.dotDot → part.length ≤ maxNameLength →
      (∀ target, fs.entry? (dir ++ [part]) = some (.link target) → follow = false) →
      Walks fs follow links dir [part] (dir ++ [part]) (fs.entry? (dir ++ [part]))
  | enter {links id : Nat} {dir found : Location} {part : Bytes} {rest : List Bytes}
      {entry : Option Entry} :
      part ≠ Path.dot → part ≠ Path.dotDot → part.length ≤ maxNameLength → rest ≠ [] →
      fs.entry? (dir ++ [part]) = some (.directory id) →
      Walks fs follow links (dir ++ [part]) rest found entry →
      Walks fs follow links dir (part :: rest) found entry
  | follow {links : Nat} {dir found : Location} {part : Bytes} {rest : List Bytes} {target : Path}
      {entry : Option Entry} :
      part ≠ Path.dot → part ≠ Path.dotDot → part.length ≤ maxNameLength →
      ¬ (rest = [] ∧ follow = false) → fs.entry? (dir ++ [part]) = some (.link target) →
      Walks fs follow links (if target.isAbsolute then [] else dir) (stepsOf target ++ rest) found
        entry →
      Walks fs follow (links + 1) dir (part :: rest) found entry

theorem walks_of_walk :
    ∀ (links : Nat) (dir : Location) (steps : List Bytes),
      fs.walk follow links dir steps = .ok (found, entry) → Walks fs follow links dir steps found entry
  | links, dir, [], h => by
      rw [walk_nil] at h
      obtain ⟨rfl, rfl⟩ := Prod.mk.inj (Except.ok.inj h)
      exact .here
  | links, dir, part :: rest, h => by
      rw [walk_cons] at h
      split at h
      · next hdot => exact hdot ▸ .stay (walks_of_walk links dir rest h)
      · split at h
        · next hdotDot => exact hdotDot ▸ .up (walks_of_walk links dir.dropLast rest h)
        · split at h
          · cases h
          · next hdot hdotDot hlength =>
              have hlength := Nat.not_lt.mp hlength
              -- the last part, whatever stands there
              have hlast : rest = [] → Except.ok (dir ++ [part], fs.entry? (dir ++ [part])) =
                  (Except.ok (found, entry) : Except IoError _) →
                  (∀ target, fs.entry? (dir ++ [part]) = some (.link target) → follow = false) →
                  Walks fs follow links dir (part :: rest) found entry := by
                rintro rfl hresult hlink
                obtain ⟨rfl, rfl⟩ := Prod.mk.inj (Except.ok.inj hresult)
                exact .last hdot hdotDot hlength hlink
              cases hentry : fs.entry? (dir ++ [part]) with
              | none =>
                  simp only [hentry] at h hlast
                  split at h
                  · next hrest => exact hlast hrest h fun _ hlink => by cases hlink
                  · cases h
              | some there =>
                  simp only [hentry] at h hlast
                  cases there with
                  | link target =>
                      dsimp only at h
                      split at h
                      · next hend => exact hlast hend.1 h fun _ _ => hend.2
                      · next hend =>
                          cases links with
                          | zero => cases h
                          | succ links =>
                              exact .follow hdot hdotDot hlength hend hentry
                                (walks_of_walk links _ _ h)
                  | directory id =>
                      dsimp only at h
                      split at h
                      · next hrest => exact hlast hrest h fun _ hlink => by cases hlink
                      · next hrest =>
                          rw [Entry.isDirectory, if_pos rfl] at h
                          exact .enter hdot hdotDot hlength hrest hentry
                            (walks_of_walk links _ rest h)
                  | _ =>
                      dsimp only at h
                      split at h
                      · next hrest => exact hlast hrest h fun _ hlink => by cases hlink
                      · cases h
termination_by links _ steps => (links, steps.length)

theorem Walks.walk (h : Walks fs follow links dir steps found entry) :
    fs.walk follow links dir steps = .ok (found, entry) := by
  induction h with
  | here => exact walk_nil _ _ _ _
  | stay _ ih =>
      rw [walk_cons, if_pos rfl]
      exact ih
  | up _ ih =>
      rw [walk_cons, if_neg (by decide), if_pos rfl]
      exact ih
  | @last _ dir part hdot hdotDot hlength hlink =>
      rw [walk_cons, if_neg hdot, if_neg hdotDot, if_neg (Nat.not_lt.mpr hlength)]
      cases hentry : fs.entry? (dir ++ [part]) with
      | none => rfl
      | some there =>
          cases there with
          | link target => exact if_pos ⟨rfl, hlink target hentry⟩
          | _ => rfl
  | enter hdot hdotDot hlength hrest hentry _ ih =>
      rw [walk_cons, if_neg hdot, if_neg hdotDot, if_neg (Nat.not_lt.mpr hlength), hentry]
      exact (if_neg hrest).trans ih
  | follow hdot hdotDot hlength hend hentry _ ih =>
      rw [walk_cons, if_neg hdot, if_neg hdotDot, if_neg (Nat.not_lt.mpr hlength), hentry]
      exact (if_neg hend).trans ih

theorem walk_eq_ok_iff :
    fs.walk follow links dir steps = .ok (found, entry) ↔
      Walks fs follow links dir steps found entry :=
  ⟨walks_of_walk links dir steps, Walks.walk⟩

/-- Something that is found with links followed is there, or a link to it is. -/
theorem Walks.exists_nofollow (h : Walks fs true links dir steps found (some there)) :
    ∃ found' there', Walks fs false links dir steps found' (some there') := by
  generalize hentry : some there = entry at h
  induction h with
  | @here links dir =>
      refine ⟨dir, there, ?_⟩
      rw [hentry]
      exact .here
  | stay _ ih =>
      obtain ⟨_, _, hwalks⟩ := ih hentry
      exact ⟨_, _, .stay hwalks⟩
  | up _ ih =>
      obtain ⟨_, _, hwalks⟩ := ih hentry
      exact ⟨_, _, .up hwalks⟩
  | @last links dir part hdot hdotDot hlength =>
      refine ⟨dir ++ [part], there, ?_⟩
      rw [hentry]
      exact .last hdot hdotDot hlength fun _ _ => rfl
  | enter hdot hdotDot hlength hrest hdirectory _ ih =>
      obtain ⟨_, _, hwalks⟩ := ih hentry
      exact ⟨_, _, .enter hdot hdotDot hlength hrest hdirectory hwalks⟩
  | @follow links dir _ part rest target _ hdot hdotDot hlength _ hlink _ ih =>
      by_cases hrest : rest = []
      · refine ⟨dir ++ [part], .link target, ?_⟩
        rw [hrest, ← hlink]
        exact .last hdot hdotDot hlength fun _ _ => rfl
      · obtain ⟨_, _, hwalks⟩ := ih hentry
        exact ⟨_, _, .follow hdot hdotDot hlength (fun hend => hrest hend.1) hlink hwalks⟩

/-- Where nothing is at the end, it does not matter whether links are followed there. -/
theorem Walks.follow_of_none (h : Walks fs false links dir steps found none) :
    Walks fs true links dir steps found none := by
  generalize hnone : none = entry at h
  induction h with
  | here => exact .here
  | stay _ ih => exact .stay (ih hnone)
  | up _ ih => exact .up (ih hnone)
  | last hdot hdotDot hlength _ =>
      refine .last hdot hdotDot hlength fun target htarget => ?_
      rw [← hnone] at htarget
      cases htarget
  | enter hdot hdotDot hlength hrest hdirectory _ ih =>
      exact .enter hdot hdotDot hlength hrest hdirectory (ih hnone)
  | follow hdot hdotDot hlength _ hlink _ ih =>
      exact .follow hdot hdotDot hlength (fun hend => nomatch hend.2) hlink (ih hnone)

/-- Where nothing is found without following a link at the end, nothing is found with it. -/
theorem resolve_ne_of_nofollow
    (h : ∀ found there, fs.resolve base path false ≠ .ok (found, some there)) (follow : Bool)
    (found : Location) (there : Entry) : fs.resolve base path follow ≠ .ok (found, some there) := by
  cases follow with
  | false => exact h found there
  | true =>
      intro hfound
      have hfits := fits_of_resolve hfound
      rw [resolve_of_fits hfits, walk_eq_ok_iff] at hfound
      obtain ⟨found', there', hwalks⟩ := hfound.exists_nofollow
      exact h found' there' (by rw [resolve_of_fits hfits, hwalks.walk])

/-! ### Parts -/

/-- Whether another file system has all entries of this one. -/
def IsPartOf (fs fs' : FileSystem) : Prop :=
  ∀ location entry, fs.entry? location = some entry → fs'.entry? location = some entry

theorem IsPartOf.refl (fs : FileSystem) : fs.IsPartOf fs := fun _ _ h => h

theorem IsPartOf.trans (h : fs.IsPartOf fs') (h' : fs'.IsPartOf fs'') : fs.IsPartOf fs'' :=
  fun location entry hentry => h' location entry (h location entry hentry)

/-- A walk through the part is one through the whole, unless the whole has a link at its end where
the part has nothing. -/
theorem Walks.mono (hpart : fs.IsPartOf fs')
    (hlink : ∀ target, fs'.entry? found = some (.link target) → entry = some (.link target))
    (h : Walks fs follow links dir steps found entry) :
    Walks fs' follow links dir steps found (fs'.entry? found) := by
  induction h with
  | here => exact .here
  | stay _ ih => exact .stay (ih hlink)
  | up _ ih => exact .up (ih hlink)
  | last hdot hdotDot hlength hend =>
      exact .last hdot hdotDot hlength fun target htarget => hend target (hlink target htarget)
  | enter hdot hdotDot hlength hrest hentry _ ih =>
      exact .enter hdot hdotDot hlength hrest (hpart _ _ hentry) (ih hlink)
  | follow hdot hdotDot hlength hend hentry _ ih =>
      exact .follow hdot hdotDot hlength hend (hpart _ _ hentry) (ih hlink)

theorem Walks.entry? (h : Walks fs follow links dir steps found entry) :
    fs.entry? found = entry :=
  entry?_of_walk h.walk

/-- What a walk finds in the part, it finds in the whole. -/
theorem Walks.mono_some (hpart : fs.IsPartOf fs')
    (h : Walks fs follow links dir steps found (some there)) :
    Walks fs' follow links dir steps found (some there) := by
  have hthere := hpart _ _ h.entry?
  exact hthere ▸ h.mono hpart fun target htarget => by rw [← htarget, hthere]

/-- What a path denotes in the part, it denotes in the whole. -/
theorem resolve_mono (hpart : fs.IsPartOf fs')
    (h : fs.resolve base path follow = .ok (found, some there)) :
    fs'.resolve base path follow = .ok (found, some there) := by
  have hfits := fits_of_resolve h
  rw [resolve_of_fits hfits, walk_eq_ok_iff] at h ⊢
  exact h.mono_some hpart

/-- Where a path denotes nothing yet, it denotes what is put there. -/
theorem resolve_of_missing (hpart : fs.IsPartOf fs') {id : Nat}
    (hthere : fs'.entry? found = some (.directory id))
    (h : fs.resolve base path false = .ok (found, none)) :
    fs'.resolve base path true = .ok (found, some (.directory id)) := by
  have hfits := fits_of_resolve h
  rw [resolve_of_fits hfits, walk_eq_ok_iff] at h ⊢
  refine hthere ▸ h.follow_of_none.mono hpart fun target htarget => ?_
  rw [hthere] at htarget
  cases htarget

/-! ### Removing -/

theorem isPartOf_prune (fs : FileSystem) (location : Location) :
    (fs.prune location).IsPartOf fs := by
  intro other entry h
  rw [entry?_prune] at h
  split at h
  · cases h
  · exact h

theorem isPartOf_empty (fs : FileSystem) (location : Location) :
    (fs.empty location).IsPartOf fs := by
  intro other entry h
  rw [entry?_empty] at h
  split at h
  · cases h
  · exact h

/-- What a removal that succeeds has removed. -/
theorem exists_of_removeTree (h : fs.removeTree base path = .ok fs') :
    ∃ gone there, gone ≠ [] ∧ fs.resolve base path false = .ok (gone, some there) ∧
      fs' = fs.prune gone := by
  rw [removeTree] at h
  cases hresolve : fs.resolve base path false with
  | error e => simp [hresolve] at h
  | ok result =>
      obtain ⟨gone, entry⟩ := result
      cases gone with
      | nil => cases entry <;> simp [hresolve] at h
      | cons first rest =>
          cases entry with
          | none => simp [hresolve] at h
          | some there =>
              refine ⟨first :: rest, there, List.cons_ne_nil first rest, rfl, ?_⟩
              cases there with
              | directory id =>
                  simp only [hresolve] at h
                  split at h
                  · cases h
                  · exact (Except.ok.inj h).symm
              | link target =>
                  simp only [hresolve] at h
                  exact (Except.ok.inj h).symm
              | _ => simp [hresolve] at h

/-- No obstacle looks as if there were nothing. -/
theorem obstacle?_ne_notFound : fs.obstacle? base path ≠ some .notFound := by
  intro h
  rw [obstacle?] at h
  split at h
  · cases h
  · split at h
    · cases h
    · split at h
      · cases h
      · split at h <;> cases h

/-- A removal that finds nothing. -/
theorem ne_of_removeTree (h : fs.removeTree base path = .error .notFound) (found : Location)
    (there : Entry) : fs.resolve base path false ≠ .ok (found, some there) := by
  intro hresolve
  rw [removeTree] at h
  cases found with
  | nil => simp [hresolve] at h
  | cons first rest =>
      cases there with
      | directory id =>
          simp only [hresolve] at h
          split at h
          · next hobstacle =>
              exact obstacle?_ne_notFound (Except.error.inj h ▸ hobstacle)
          · cases h
      | _ => simp [hresolve] at h

/-- What a removal that fails leaves: nothing but the directory has been emptied. -/
theorem emptied_eq (fs : FileSystem) (base : Location) (path : Path) :
    fs.emptied base path = fs ∨
      ∃ there id, fs.resolve base path false = .ok (there, some (.directory id)) ∧
        fs.emptied base path = fs.empty there := by
  rw [emptied]
  split
  · next first rest id hresolve => exact .inr ⟨_, id, hresolve, rfl⟩
  · exact .inl rfl

/-! ### Names -/

/-- Whether no name has a slash. -/
def IsNamed (fs : FileSystem) : Prop :=
  ∀ location, (fs.entry? location).isSome → ∀ name ∈ location, Path.slash ∉ name

theorem isNamed_of_entries (h : ∀ e ∈ fs.entries, ∀ name ∈ e.1, Path.slash ∉ name) :
    fs.IsNamed := by
  intro location hsome name hname
  obtain ⟨entry, hentry⟩ := Option.isSome_iff_exists.mp hsome
  have hne : location ≠ [] := List.ne_nil_of_mem hname
  exact h _ (mem_entries hne hentry) name hname

theorem IsNamed.of_isPartOf (h : fs'.IsNamed) (hpart : fs.IsPartOf fs') : fs.IsNamed := by
  intro location hsome
  obtain ⟨entry, hentry⟩ := Option.isSome_iff_exists.mp hsome
  exact h location (by rw [hpart _ _ hentry]; rfl)

/-- What the check lets through is a name in a directory. -/
theorem IsNamed.put (h : fs.IsNamed) {location : Location} (hne : location ≠ [])
    (hcheck : fs.checkParent location = .ok ()) (entry : Entry) : (fs.put location entry).IsNamed := by
  intro other hsome name hname
  rw [entry?_put _ hne] at hsome
  split at hsome
  · next hsame =>
      subst hsame
      obtain ⟨id, hid⟩ := hasDirectory_of_checkParent hcheck
      have hparts : name ∈ other.dropLast ++ [other.getLast hne] := by
        rwa [List.dropLast_concat_getLast]
      rcases List.mem_append.mp hparts with hname | hname
      · exact h _ (by rw [hid]; rfl) name hname
      · obtain rfl := List.mem_singleton.mp hname
        intro hslash
        rw [checkParent, List.getLast?_eq_some_getLast hne, if_pos] at hcheck
        · cases hcheck
        · simpa using hslash
  · exact h other hsome name hname

/-! ### Creating directories -/

/-- Creating the directories of a path keeps what creating one of them keeps. -/
theorem createDirectoriesUpTo_induction {P : FileSystem → Prop} (fuel : Nat) (path : Path)
    (hstep : ∀ above ∈ path.ancestorsUpTo fuel, ∀ fs fs',
      fs.createDirectory base above = .ok fs' → P fs → P fs') {fs : FileSystem} (h : P fs) :
    P (createDirectoriesUpTo fuel fs base path).2 := by
  have hself : ∀ {fuel : Nat} {path : Path}, path ∈ path.ancestorsUpTo fuel := by
    intro fuel path
    cases fuel <;> exact List.mem_cons_self
  have habove : ∀ {fuel : Nat} {path parent : Path}, path.parent? = some parent →
      ∀ above ∈ parent.ancestorsUpTo fuel, above ∈ path.ancestorsUpTo (fuel + 1) := by
    intro fuel path parent hparent above hmem
    simp [Path.ancestorsUpTo, hparent, hmem]
  fun_induction createDirectoriesUpTo fuel fs base path with
  | case2 _ _ _ _ _ _ hcreate => exact hstep _ hself _ _ hcreate h
  | case5 _ _ _ _ _ _ _ hparent _ _ hfirst ih =>
      have hkept := ih (fun above hmem => hstep above (habove hparent above hmem)) h
      rwa [hfirst] at hkept
  | case6 _ _ _ _ _ _ _ hparent _ hfirst _ hcreate ih =>
      have hkept := ih (fun above hmem => hstep above (habove hparent above hmem)) h
      rw [hfirst] at hkept
      exact hstep _ hself _ _ hcreate hkept
  | case7 _ _ _ _ _ _ _ hparent _ hfirst _ _ _ ih =>
      have hkept := ih (fun above hmem => hstep above (habove hparent above hmem)) h
      rwa [hfirst] at hkept
  | case8 _ _ _ _ _ _ _ hparent _ hfirst _ _ _ ih =>
      have hkept := ih (fun above hmem => hstep above (habove hparent above hmem)) h
      rwa [hfirst] at hkept
  | _ => exact h

/-- Whether a file system has all of another one and besides only new directories that some paths
denote. -/
def AddsAt (base : Location) (paths : List Path) (fs fs' : FileSystem) : Prop :=
  ∀ location, fs'.entry? location = fs.entry? location ∨
    fs.entry? location = none ∧
      ∃ path ∈ paths, ∃ id, fs'.resolve base path true = .ok (location, some (.directory id))

variable {paths : List Path}

theorem AddsAt.refl (base : Location) (paths : List Path) (fs : FileSystem) :
    AddsAt base paths fs fs := fun _ => .inl rfl

theorem AddsAt.isPartOf (h : AddsAt base paths fs fs') : fs.IsPartOf fs' := by
  intro location entry hentry
  rcases h location with hsame | ⟨hnone, _⟩
  · rw [hsame, hentry]
  · rw [hnone] at hentry
    cases hentry

theorem AddsAt.trans (h : AddsAt base paths fs fs') (h' : AddsAt base paths fs' fs'') :
    AddsAt base paths fs fs'' := by
  intro location
  rcases h' location with hsame | ⟨hnone, hnew⟩
  · rcases h location with hsame' | ⟨hnone, path, hpath, id, hresolve⟩
    · exact .inl (hsame.trans hsame')
    · exact .inr ⟨hnone, path, hpath, id, resolve_mono h'.isPartOf hresolve⟩
  · refine .inr ⟨?_, hnew⟩
    cases hentry : fs.entry? location with
    | none => rfl
    | some entry =>
        rw [h.isPartOf _ _ hentry] at hnone
        cases hnone

theorem AddsAt.mono {more : List Path} (h : AddsAt base paths fs fs') (hmore : paths ⊆ more) :
    AddsAt base more fs fs' := by
  intro location
  refine (h location).imp_right ?_
  rintro ⟨hnone, path, hpath, id, hresolve⟩
  exact ⟨hnone, path, hmore hpath, id, hresolve⟩

theorem ne_nil_of_entry?_none {location : Location} (h : fs.entry? location = none) :
    location ≠ [] := by
  rintro rfl
  cases h

/-- A directory that is created is a name in a directory, where there was nothing. -/
theorem exists_of_createDirectory (h : fs.createDirectory base path = .ok fs') :
    ∃ location, fs.resolve base (withoutFinalSlashes path) false = .ok (location, none) ∧
      fs.entry? location = none ∧ fs.checkParent location = .ok () ∧
      fs' = fs.putNew location .directory := by
  rw [createDirectory] at h
  split at h
  · cases h
  · cases h
  · next location hresolve =>
      split at h
      · cases h
      · next hcheck =>
          exact ⟨location, hresolve, entry?_of_resolve hresolve, hcheck, (Except.ok.inj h).symm⟩

theorem addsAt_createDirectory (hpath : withoutFinalSlashes path = path)
    (h : fs.createDirectory base path = .ok fs') : AddsAt base [path] fs fs' := by
  obtain ⟨location, hresolve, hnone, _, rfl⟩ := exists_of_createDirectory h
  have hne := ne_nil_of_entry?_none hnone
  have hthere := fs.entry?_putNew hne .directory
  intro other
  by_cases ho : other = location
  · subst ho
    have hpart : fs.IsPartOf (fs.putNew other .directory) := by
      intro place entry hentry
      rw [hthere, if_neg, hentry]
      rintro rfl
      rw [hnone] at hentry
      cases hentry
    rw [hpath] at hresolve
    exact .inr ⟨hnone, path, List.mem_singleton.mpr rfl, fs.nextId,
      resolve_of_missing hpart (by rw [hthere, if_pos rfl]) hresolve⟩
  · exact .inl (by rw [hthere, if_neg ho])

/-- Creating the directories of a path adds only directories that the path or one above it
denotes. -/
theorem addsAt_createDirectories (hpath : withoutFinalSlashes path = path) :
    AddsAt base path.ancestors fs (fs.createDirectories base path).2 := by
  refine createDirectoriesUpTo_induction (P := AddsAt base path.ancestors fs) _ _ ?_
    (AddsAt.refl base path.ancestors fs)
  intro above habove fs' fs'' hcreate hadds
  have hkept := Path.ancestorsUpTo_induction (Q := fun path => withoutFinalSlashes path = path)
    hpath (fun _ _ hparent _ => Path.withoutFinalSlashes_parent? hparent) above habove
  refine hadds.trans ((addsAt_createDirectory hkept hcreate).mono fun other hother => ?_)
  exact List.mem_singleton.mp hother ▸ habove

theorem IsNamed.createDirectory (h : fs.IsNamed) (hcreate : fs.createDirectory base path = .ok fs') :
    fs'.IsNamed := by
  obtain ⟨location, _, hnone, hcheck, rfl⟩ := exists_of_createDirectory hcreate
  have hput := h.put (ne_nil_of_entry?_none hnone) hcheck (.directory fs.nextId)
  exact fun other hsome => hput other hsome

theorem IsNamed.createDirectories (h : fs.IsNamed) (base : Location) (path : Path) :
    (fs.createDirectories base path).2.IsNamed :=
  createDirectoriesUpTo_induction _ _ (fun _ _ _ _ hcreate h => h.createDirectory hcreate) h

end Enclave.FileSystem
