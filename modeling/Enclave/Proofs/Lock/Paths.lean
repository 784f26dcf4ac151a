import Enclave.Proofs.FileSystem.Resolution

/-! # The path of a lock

The path of a lock is made of the path of an environment: its last name gets an ending, and what is
above it is written without parts that mean nothing (`plain`).  So the lock of an environment that
is named below a root is the name with the ending below the plain form of the root
(`lockFile_join`), which needs neither an absolute root nor a name that is short enough for an
entry, and it stands next to the environment (`names_lockFile`, `names_parent?_lockFile`). -/

namespace Enclave

namespace Bytes

/-- Parts at the front stand at the front of what is joined. -/
theorem joinWith_prefix (separator : UInt8) (front back : List Bytes) :
    joinWith separator front <+: joinWith separator (front ++ back) := by
  induction front with
  | nil => exact List.nil_prefix
  | cons part front ih =>
      cases front with
      | nil =>
          cases back with
          | nil => exact List.prefix_rfl
          | cons next back => exact List.prefix_append part _
      | cons next front =>
          exact (List.prefix_append_right_inj part).mpr
            ((List.prefix_cons_inj separator).mpr ih)

end Bytes

namespace Path

variable {path parent root : Path} {name : Bytes}

/-! ### The front of a path -/

/-- How a path starts: at the root, at the current directory with a dot, or with a name. -/
theorem leadBytes_cases (path : Path) :
    (path.leadBytes = [slash] ∧ ∃ rest, path.bytes = slash :: rest) ∨
      (path.leadBytes = dot ∧ (path.bytes = dot ∨ ∃ rest, path.bytes = dot ++ slash :: rest)) ∨
      (path.leadBytes = [] ∧ path.bytes.head? ≠ some slash ∧
        (Bytes.splitOn slash path.bytes).head? ≠ some dot) := by
  rw [leadBytes]
  split
  · next habsolute =>
      obtain ⟨rest, hrest⟩ := List.head?_eq_some_iff.mp (beq_iff_eq.mp habsolute)
      exact .inl ⟨rfl, rest, hrest⟩
  · next habsolute =>
      split
      · next hcurrent =>
          obtain ⟨more, hsplit⟩ := List.head?_eq_some_iff.mp (beq_iff_eq.mp hcurrent)
          have hbytes := Bytes.joinWith_splitOn slash path.bytes
          rw [hsplit] at hbytes
          cases more with
          | nil => exact .inr (.inl ⟨rfl, .inl hbytes.symm⟩)
          | cons part more => exact .inr (.inl ⟨rfl, .inr ⟨_, hbytes.symm⟩⟩)
      · next hcurrent =>
          exact .inr (.inr ⟨rfl, fun h => habsolute (beq_iff_eq.mpr h),
            fun h => hcurrent (beq_iff_eq.mpr h)⟩)

/-- A path is its first component, when that is not a name, and the rest. -/
theorem leadBytes_append (path : Path) :
    path.leadBytes ++ path.bytes.drop path.leadBytes.length = path.bytes := by
  rcases path.leadBytes_cases with ⟨hlead, rest, hbytes⟩ | ⟨hlead, hbytes | ⟨rest, hbytes⟩⟩ |
    ⟨hlead, _⟩
  all_goals
    rw [hlead]
    first | rw [hbytes]; rfl | rfl

/-- The first component is told by the start and by the first part. -/
theorem leadBytes_congr {other : Path} (habsolute : path.isAbsolute = other.isAbsolute)
    (hfirst : (Bytes.splitOn slash path.bytes).head? = some dot ↔
      (Bytes.splitOn slash other.bytes).head? = some dot) : path.leadBytes = other.leadBytes := by
  have hcurrent : path.startsAtCurrent = other.startsAtCurrent :=
    Bool.eq_iff_iff.mpr (by simpa [startsAtCurrent] using hfirst)
  rw [leadBytes, leadBytes, habsolute, hcurrent]

theorem isAbsolute_iff_leadBytes : path.isAbsolute ↔ path.leadBytes = [slash] := by
  rw [leadBytes]
  split
  · next h => simp [h]
  · next h => split <;> simp [h, dot, slash]

/-! ### The plain form -/

/-- A path without the parts at its end that mean nothing. -/
def plain (path : Path) : Path :=
  ⟨path.leadBytes ++ Bytes.joinWith slash path.partsBack.reverse⟩

/-- The parts after the first component, up to the last one that means something, stand at the
front. -/
theorem exists_splitOn_drop (path : Path) :
    ∃ back, Bytes.splitOn slash (path.bytes.drop path.leadBytes.length) =
      path.partsBack.reverse ++ back ∧ ∀ part ∈ back, isTrivial part := by
  refine ⟨((Bytes.splitOn slash (path.bytes.drop path.leadBytes.length)).reverse.takeWhile
    isTrivial).reverse, ?_, ?_⟩
  · rw [partsBack, ← List.reverse_append, List.takeWhile_append_dropWhile, List.reverse_reverse]
  · intro part hpart
    exact List.all_eq_true.mp List.all_takeWhile part (List.mem_reverse.mp hpart)

/-- Where there are parts, the last of them means something. -/
theorem isTrivial_of_partsBack {last : Bytes} {before : List Bytes}
    (h : path.partsBack = last :: before) : isTrivial last = false := by
  have hhead := List.head?_dropWhile_not isTrivial
    (Bytes.splitOn slash (path.bytes.drop path.leadBytes.length)).reverse
  rw [partsBack] at h
  rwa [h] at hhead

theorem dropWhile_partsBack (path : Path) :
    path.partsBack.dropWhile isTrivial = path.partsBack := by
  cases hback : path.partsBack with
  | nil => rfl
  | cons last before =>
      exact List.dropWhile_cons_of_neg (by rw [isTrivial_of_partsBack hback]; decide)

/-- No name is in the first component. -/
theorem names_eq_drop (path : Path) :
    path.names = (Bytes.splitOn slash (path.bytes.drop path.leadBytes.length)).filter
      (!isTrivial ·) := by
  rw [names]
  rcases path.leadBytes_cases with ⟨hlead, rest, hbytes⟩ | ⟨hlead, hbytes | ⟨rest, hbytes⟩⟩ |
    ⟨hlead, _⟩
  · rw [hlead, hbytes, Bytes.splitOn, if_pos (beq_self_eq_true slash),
      List.filter_cons_of_neg (by decide)]
    rfl
  · rw [hlead, hbytes]
    decide
  · rw [hlead, hbytes, Bytes.splitOn_append, List.filter_append]
    have hdot : (Bytes.splitOn slash dot).filter (!isTrivial ·) = [] := by decide
    rw [hdot, List.nil_append]
    have hrest : (dot ++ slash :: rest).drop dot.length = slash :: rest := rfl
    rw [hrest, Bytes.splitOn, if_pos (beq_self_eq_true slash),
      List.filter_cons_of_neg (by decide)]
  · rw [hlead]
    rfl

/-- The names in a path are the parts after the first component that mean something. -/
theorem names_eq_partsBack (path : Path) :
    path.names = path.partsBack.reverse.filter (!isTrivial ·) := by
  obtain ⟨back, hsplit, hback⟩ := path.exists_splitOn_drop
  have hnone : back.filter (!isTrivial ·) = [] := by
    rw [List.filter_eq_nil_iff]
    intro part hpart
    simp [hback part hpart]
  rw [names_eq_drop, hsplit, List.filter_append, hnone, List.append_nil]

/-- A path starts with a name if its first part is neither empty nor the dot. -/
theorem leadBytes_eq_nil {path : Path} {part : Bytes} {parts : List Bytes}
    (hsplit : Bytes.splitOn slash path.bytes = part :: parts) (hne : part ≠ []) (hdot : part ≠ dot) :
    path.leadBytes = [] := by
  rcases path.leadBytes_cases with ⟨_, rest, hbytes⟩ | ⟨_, hbytes | ⟨rest, hbytes⟩⟩ | ⟨hlead, _⟩
  · rw [hbytes, Bytes.splitOn, if_pos (beq_self_eq_true slash)] at hsplit
    exact absurd (List.cons.inj hsplit).1.symm hne
  · rw [hbytes] at hsplit
    exact absurd (List.cons.inj hsplit).1.symm hdot
  · rw [hbytes] at hsplit
    exact absurd (List.cons.inj hsplit).1.symm hdot
  · exact hlead

theorem bytes_plain_prefix (path : Path) : path.plain.bytes <+: path.bytes := by
  obtain ⟨back, hsplit, _⟩ := path.exists_splitOn_drop
  have hjoin := Bytes.joinWith_prefix slash path.partsBack.reverse back
  rw [← hsplit, Bytes.joinWith_splitOn] at hjoin
  have happend := (List.prefix_append_right_inj path.leadBytes).mpr hjoin
  rwa [leadBytes_append] at happend

/-- A path that goes on with some of the parts of another one starts as that does. -/
theorem leadBytes_front {front back : List Bytes}
    (hsplit : Bytes.splitOn slash (path.bytes.drop path.leadBytes.length) = front ++ back)
    (hend : front ≠ [[]]) :
    leadBytes ⟨path.leadBytes ++ Bytes.joinWith slash front⟩ = path.leadBytes := by
  -- The first part after the first component, where there is one.
  cases front with
  | nil =>
      rw [Bytes.joinWith, List.append_nil]
      rcases path.leadBytes_cases with ⟨hlead, _⟩ | ⟨hlead, _⟩ | ⟨hlead, _⟩ <;>
        rw [hlead] <;> decide
  | cons part parts =>
      have hslash : ∀ other ∈ part :: parts, slash ∉ other := by
        intro other hother
        have hmem : other ∈ Bytes.splitOn slash (path.bytes.drop path.leadBytes.length) := by
          rw [hsplit]
          exact List.mem_append_left _ hother
        exact Bytes.not_mem_of_mem_splitOn hmem
      have hsplitJoin := Bytes.splitOn_joinWith slash (List.cons_ne_nil part parts) hslash
      have hend : part = [] → parts ≠ [] := by
        rintro rfl rfl
        exact hend rfl
      rcases path.leadBytes_cases with ⟨hlead, _⟩ | ⟨hlead, hdot | ⟨rest, hdot⟩⟩ |
        ⟨hlead, habsolute, hcurrent⟩
      · rw [hlead, ← isAbsolute_iff_leadBytes]
        rfl
      · rw [hlead, hdot] at hsplit
        obtain ⟨hpart, hrest⟩ := List.cons.inj hsplit
        exact absurd (List.append_eq_nil_iff.mp hrest.symm).1 (hend hpart.symm)
      · rw [hlead, hdot] at hsplit
        have hpart : [] = part := (List.cons.inj hsplit).1
        obtain ⟨next, others, rfl⟩ := List.exists_cons_of_ne_nil (hend hpart.symm)
        have hjoin : dot ++ Bytes.joinWith slash (part :: next :: others) =
            dot ++ slash :: Bytes.joinWith slash (next :: others) := by
          rw [← hpart]
          rfl
        rw [hlead, hjoin, leadBytes, isAbsolute, startsAtCurrent, Bytes.splitOn_append]
        rfl
      · rw [hlead, List.nil_append]
        rw [hlead, List.length_nil, List.drop_zero] at hsplit
        have hne : part ≠ [] := by
          rintro rfl
          obtain ⟨next, others, rfl⟩ := List.exists_cons_of_ne_nil (hend rfl)
          have hjoin := Bytes.joinWith_splitOn slash path.bytes
          rw [hsplit] at hjoin
          exact habsolute (congrArg List.head? hjoin.symm)
        have hdot : part ≠ dot := by
          rintro rfl
          rw [hsplit] at hcurrent
          exact hcurrent rfl
        exact leadBytes_eq_nil hsplitJoin hne hdot

theorem partsBack_front {front back : List Bytes}
    (hsplit : Bytes.splitOn slash (path.bytes.drop path.leadBytes.length) = front ++ back)
    (hend : front ≠ [[]]) :
    partsBack ⟨path.leadBytes ++ Bytes.joinWith slash front⟩ =
      front.reverse.dropWhile isTrivial := by
  rw [partsBack, leadBytes_front hsplit hend, List.drop_left]
  by_cases hnil : front = []
  · rw [hnil]
    rfl
  · rw [Bytes.splitOn_joinWith slash hnil]
    intro part hpart
    have hmem : part ∈ Bytes.splitOn slash (path.bytes.drop path.leadBytes.length) := by
      rw [hsplit]
      exact List.mem_append_left _ hpart
    exact Bytes.not_mem_of_mem_splitOn hmem

theorem reverse_partsBack_ne (path : Path) : path.partsBack.reverse ≠ [[]] := by
  intro hparts
  have hback : path.partsBack = [[]] := List.reverse_inj.mp (hparts.trans rfl)
  exact absurd (isTrivial_of_partsBack hback) (by decide)

/-- The plain form starts as the path does. -/
theorem leadBytes_plain (path : Path) : path.plain.leadBytes = path.leadBytes := by
  obtain ⟨back, hsplit, _⟩ := path.exists_splitOn_drop
  exact leadBytes_front hsplit path.reverse_partsBack_ne

theorem partsBack_plain (path : Path) : path.plain.partsBack = path.partsBack := by
  obtain ⟨back, hsplit, _⟩ := path.exists_splitOn_drop
  rw [plain, partsBack_front hsplit path.reverse_partsBack_ne, List.reverse_reverse,
    dropWhile_partsBack]

theorem names_plain (path : Path) : path.plain.names = path.names := by
  rw [names_eq_partsBack, partsBack_plain, ← names_eq_partsBack]

theorem isAbsolute_plain (path : Path) : path.plain.isAbsolute = path.isAbsolute :=
  Bool.eq_iff_iff.mpr (by rw [isAbsolute_iff_leadBytes, leadBytes_plain, isAbsolute_iff_leadBytes])

/-! ### Below a directory -/

theorem leadBytes_join (path : Path) (h : IsPart name) :
    (path.join ⟨name⟩).leadBytes = path.leadBytes := by
  refine leadBytes_congr (isAbsolute_join_name path h) ?_
  have hname := Bytes.splitOn_of_not_mem slash name h.slash_not_mem
  have hhead : ∀ (bytes : Bytes) (last : List Bytes),
      (Bytes.splitOn slash bytes ++ last).head? = (Bytes.splitOn slash bytes).head? := by
    intro bytes last
    obtain ⟨part, parts, hsplit⟩ := List.exists_cons_of_ne_nil (Bytes.splitOn_ne_nil slash bytes)
    rw [hsplit]
    rfl
  rcases path.bytes_join h with ⟨hbytes, hnil⟩ | ⟨front, hfront, hbytes⟩ | hbytes
  · rw [hbytes, hnil, hname]
    have hdot := h.ne_dot
    simpa [Bytes.splitOn, dot] using hdot
  · rw [hbytes, hfront, Bytes.splitOn_append, Bytes.splitOn_append, hhead, hhead]
  · rw [hbytes, Bytes.splitOn_append, hhead]

theorem partsBack_join (path : Path) (h : IsPart name) :
    ∃ before, (path.join ⟨name⟩).partsBack = name :: before ∧
      before.dropWhile isTrivial = path.partsBack := by
  have htrivial : isTrivial name = false := by simp [isTrivial, h.ne_nil, h.ne_dot]
  -- What stands before the name are the parts of the path, with or without an empty one at the end.
  have hparts : ∀ front, Bytes.splitOn slash ((path.join ⟨name⟩).bytes.drop path.leadBytes.length) =
      front ++ [name] → front.reverse.dropWhile isTrivial = path.partsBack →
      ∃ before, (path.join ⟨name⟩).partsBack = name :: before ∧
        before.dropWhile isTrivial = path.partsBack := by
    intro front hsplit hfront
    refine ⟨front.reverse, ?_, hfront⟩
    rw [partsBack, leadBytes_join path h, hsplit, List.reverse_append, List.reverse_singleton,
      List.singleton_append, List.dropWhile_cons_of_neg (by rw [htrivial]; decide)]
  have hname := Bytes.splitOn_of_not_mem slash name h.slash_not_mem
  have hpath := leadBytes_append path
  have hback : path.partsBack = (Bytes.splitOn slash
      (path.bytes.drop path.leadBytes.length)).reverse.dropWhile isTrivial := rfl
  generalize path.bytes.drop path.leadBytes.length = body at hpath hback
  have hdrop : ∀ tail, (path.join ⟨name⟩).bytes = path.bytes ++ tail →
      (path.join ⟨name⟩).bytes.drop path.leadBytes.length = body ++ tail := by
    intro tail htail
    rw [htail, ← hpath, List.append_assoc, List.drop_left]
  rcases path.bytes_join h with ⟨hbytes, hnil⟩ | ⟨front, hfront, hbytes⟩ | hbytes
  · have hbody : body = [] := (List.append_eq_nil_iff.mp (hpath.trans hnil)).2
    refine hparts [] ?_ (by rw [hback, hbody]; rfl)
    rw [hdrop name (by rw [hbytes, hnil]; rfl), hbody]
    exact hname
  · have hdrop := hdrop name (by rw [hbytes, hfront, List.append_assoc]; rfl)
    rcases List.eq_nil_or_concat body with rfl | ⟨init, last, rfl⟩
    · refine hparts [] ?_ (by rw [hback]; rfl)
      rw [hdrop]
      exact hname
    · rw [List.concat_eq_append, hfront, ← List.append_assoc] at hpath
      obtain rfl := (List.cons.inj (List.append_inj' hpath rfl).2).1
      rw [List.concat_eq_append] at hback hdrop
      refine hparts (Bytes.splitOn slash init) ?_ ?_
      · rw [hdrop, List.append_assoc, List.singleton_append, Bytes.splitOn_append, hname]
      · rw [hback, Bytes.splitOn_append, List.reverse_append]
        rfl
  · refine hparts (Bytes.splitOn slash body) ?_ hback.symm
    rw [hdrop _ hbytes, Bytes.splitOn_append, hname]

theorem fileName?_join (path : Path) (h : IsPart name) :
    (path.join ⟨name⟩).fileName? = some name := by
  obtain ⟨before, hback, _⟩ := partsBack_join path h
  rw [fileName?, hback]
  simp [h.ne_dotDot]

theorem parent?_join (path : Path) (h : IsPart name) :
    (path.join ⟨name⟩).parent? = some path.plain := by
  obtain ⟨before, hback, hbefore⟩ := partsBack_join path h
  rw [parent?, hback, leadBytes_join path h]
  dsimp only
  rw [hbefore, plain]

theorem withoutFinalSlashes_plain (path : Path) :
    FileSystem.withoutFinalSlashes path.plain = path.plain := by
  have hname : IsPart [0x61] := ⟨by decide, by decide, by decide, by decide⟩
  exact withoutFinalSlashes_parent? (parent?_join path hname)

/-! ### The lock -/

/-- The lock of an environment has the name of the environment with an ending. -/
theorem lockFile_join (root : Path) (h : IsPart name) :
    Layout.lockFile (root.join ⟨name⟩) = root.plain.join ⟨name ++ Layout.lockSuffix⟩ := by
  rw [Layout.lockFile, withFileName, fileName?_join root h, parent?_join root h]
  rfl

/-- A name with the ending of a lock is a name, though perhaps too long for an entry. -/
theorem isPart_lock (h : IsPart name) : IsPart (name ++ Layout.lockSuffix) := by
  have hlength : (name ++ Layout.lockSuffix).length = name.length + 5 := List.length_append
  refine ⟨?_, ?_, ?_, ?_⟩
  · intro hnil
    rw [hnil] at hlength
    cases hlength
  · intro hdot
    rw [hdot] at hlength
    cases hlength
  · intro hdotDot
    rw [hdotDot] at hlength
    cases hlength
  · rw [List.mem_append, not_or]
    exact ⟨h.slash_not_mem, by decide⟩

/-- The lock of an environment stands next to it. -/
theorem names_lockFile (habsolute : root.isAbsolute) (h : IsName name)
    (hlock : IsName (name ++ Layout.lockSuffix)) :
    (Layout.lockFile (root.join ⟨name⟩)).isAbsolute ∧
      (Layout.lockFile (root.join ⟨name⟩)).names = root.names ++ [name ++ Layout.lockSuffix] := by
  rw [lockFile_join root h.isPart, names_join root.plain hlock, names_plain]
  exact ⟨isAbsolute_join _ (by rwa [isAbsolute_plain]), rfl⟩

/-- The directory above a lock. -/
theorem parent?_lockFile (root : Path) (h : IsPart name) :
    (Layout.lockFile (root.join ⟨name⟩)).parent? = some root.plain.plain := by
  rw [lockFile_join root h, parent?_join root.plain (isPart_lock h)]

/-- The lock of an environment is in the directory in which the environment is. -/
theorem names_parent?_lockFile (habsolute : root.isAbsolute) (h : IsName name)
    (hparent : (Layout.lockFile (root.join ⟨name⟩)).parent? = some parent) :
    parent.isAbsolute ∧ parent.names = root.names := by
  rw [parent?_lockFile root h.isPart] at hparent
  obtain rfl := Option.some.inj hparent
  rw [isAbsolute_plain, isAbsolute_plain, names_plain, names_plain]
  exact ⟨habsolute, rfl⟩

end Path
end Enclave
