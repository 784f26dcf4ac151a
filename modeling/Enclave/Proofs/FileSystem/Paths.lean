import Enclave.Layout
import Enclave.Name
import Enclave.Proofs.Bytes
import Enclave.Proofs.FileSystem.Walks

/-! # The names in a path

Walking along a path, only the parts between its slashes matter (`parts`), and single dots among
them do not (`names`).  Joining a name adds it at the end (`parts_join`), and the parent of an
absolute path has all names but the last (`names_parent?`).  Absolute paths are the same exactly if
their names are (`same_iff_names`). -/

namespace Enclave

namespace Bytes

theorem splitOn_append (separator : UInt8) (a b : Bytes) :
    splitOn separator (a ++ separator :: b) = splitOn separator a ++ splitOn separator b := by
  induction a with
  | nil => simp [splitOn]
  | cons c a ih =>
      rw [List.cons_append, splitOn, splitOn, ih]
      split
      · rfl
      · obtain ⟨part, parts, e⟩ := List.exists_cons_of_ne_nil (splitOn_ne_nil separator a)
        rw [e]
        rfl

theorem not_mem_of_mem_splitOn {separator : UInt8} {bytes part : Bytes}
    (h : part ∈ splitOn separator bytes) : separator ∉ part := by
  induction bytes generalizing part with
  | nil =>
      rw [splitOn, List.mem_singleton] at h
      simp [h]
  | cons b rest ih =>
      rw [splitOn] at h
      split at h
      · rcases List.mem_cons.mp h with rfl | h
        · simp
        · exact ih h
      · next hb =>
          obtain ⟨first, others, e⟩ := List.exists_cons_of_ne_nil (splitOn_ne_nil separator rest)
          rw [e] at h ih
          rcases List.mem_cons.mp h with rfl | h
          · have hne : separator ≠ b := fun he => hb (by simp [he])
            simpa [hne] using ih List.mem_cons_self
          · exact ih (List.mem_cons_of_mem _ h)

end Bytes

namespace Path

variable {path parent : Path} {name : Bytes}

/-- The parts of a path between its slashes, without empty ones. -/
def parts (path : Path) : List Bytes :=
  (Bytes.splitOn slash path.bytes).filter (· != [])

/-- The parts of a path without empty ones and single dots. -/
def names (path : Path) : List Bytes :=
  (Bytes.splitOn slash path.bytes).filter (!isTrivial ·)

theorem names_eq (path : Path) : path.names = path.parts.filter (· != dot) := by
  rw [names, parts, List.filter_filter]
  congr 1
  funext part
  rw [isTrivial, Bool.not_or, Bool.and_comm]
  rfl

theorem filter_stepsOf (path : Path) :
    (FileSystem.stepsOf path).filter (· != dot) = path.names := by
  rw [FileSystem.stepsOf, names_eq, parts, List.filter_append]
  split
  · rw [List.filter_cons_of_neg (by decide), List.filter_nil, List.append_nil]
  · rw [List.filter_nil, List.append_nil]

/-! ### Joining a name -/

/-- Joining a name puts it after a slash, unless nothing or a slash stands before it already. -/
theorem bytes_join (path : Path) (h : IsPart name) :
    (path.join ⟨name⟩).bytes = name ∧ path.bytes = [] ∨
      (∃ front, path.bytes = front ++ [slash] ∧
        (path.join ⟨name⟩).bytes = front ++ slash :: name) ∨
      (path.join ⟨name⟩).bytes = path.bytes ++ slash :: name := by
  have hrelative : (⟨name⟩ : Path).isAbsolute = false := by
    rw [isAbsolute, beq_eq_false_iff_ne]
    intro hhead
    exact h.slash_not_mem (List.mem_of_mem_head? hhead)
  rw [join, hrelative, if_neg Bool.false_ne_true]
  split
  · next hend =>
      rcases (Bool.or_eq_true _ _).mp hend with hnil | hlast
      · have hnil := beq_iff_eq.mp hnil
        exact Or.inl ⟨by simp [hnil], hnil⟩
      · obtain ⟨front, hfront⟩ := List.getLast?_eq_some_iff.mp (beq_iff_eq.mp hlast)
        exact Or.inr (Or.inl ⟨front, hfront, by simp [hfront]⟩)
  · exact Or.inr (Or.inr rfl)

/-- Joining a longer name makes the path longer by the same ending. -/
theorem bytes_join_append (path : Path) (h : IsPart name) (ending : Bytes) :
    (path.join ⟨name ++ ending⟩).bytes = (path.join ⟨name⟩).bytes ++ ending := by
  obtain ⟨first, rest, rfl⟩ := List.exists_cons_of_ne_nil h.ne_nil
  have hfirst : first ≠ slash := fun hslash => h.slash_not_mem (by simp [hslash])
  have hrelative : ∀ tail, (⟨first :: tail⟩ : Path).isAbsolute = false := fun tail => by
    simpa [isAbsolute] using hfirst
  rw [List.cons_append, join, join, hrelative, hrelative, if_neg Bool.false_ne_true,
    if_neg Bool.false_ne_true]
  split <;> simp

/-- Beside slashes, a joined path has the bytes of the path and of the name. -/
theorem mem_bytes_join (path : Path) (h : IsPart name) {b : UInt8} (hb : b ≠ slash) :
    b ∈ (path.join ⟨name⟩).bytes ↔ b ∈ path.bytes ∨ b ∈ name := by
  rcases path.bytes_join h with ⟨hbytes, hnil⟩ | ⟨front, hfront, hbytes⟩ | hbytes
  · simp [hbytes, hnil]
  · simp [hbytes, hfront, hb]
  · simp [hbytes, hb]

theorem bytes_join_ne_nil (path : Path) (h : IsPart name) : (path.join ⟨name⟩).bytes ≠ [] := by
  rcases path.bytes_join h with ⟨hbytes, _⟩ | ⟨front, _, hbytes⟩ | hbytes <;> rw [hbytes]
  · exact h.ne_nil
  · simp
  · simp

private theorem splitOn_join (path : Path) (h : IsPart name) :
    ∃ front, Bytes.splitOn slash (path.join ⟨name⟩).bytes = front ++ [name] ∧
      ∀ p : Bytes → Bool, p [] = false →
        (Bytes.splitOn slash path.bytes).filter p = front.filter p := by
  have hname := Bytes.splitOn_of_not_mem slash name h.slash_not_mem
  rcases path.bytes_join h with ⟨hbytes, hnil⟩ | ⟨front, hfront, hbytes⟩ | hbytes
  · refine ⟨[], ?_, ?_⟩
    · rw [hbytes, hname, List.nil_append]
    · intro p hp
      rw [hnil, Bytes.splitOn, List.filter_cons_of_neg (by simp [hp])]
  · refine ⟨Bytes.splitOn slash front, ?_, ?_⟩
    · rw [hbytes, Bytes.splitOn_append, hname]
    · intro p hp
      rw [hfront, Bytes.splitOn_append, List.filter_append, Bytes.splitOn,
        List.filter_cons_of_neg (by simp [hp]), List.filter_nil, List.append_nil]
  · exact ⟨_, by rw [hbytes, Bytes.splitOn_append, hname], fun _ _ => rfl⟩

theorem parts_join (path : Path) (h : IsPart name) :
    (path.join ⟨name⟩).parts = path.parts ++ [name] := by
  obtain ⟨front, hsplit, hfilter⟩ := path.splitOn_join h
  have hkeep : [name].filter (· != []) = [name] :=
    List.filter_cons_of_pos (bne_iff_ne.mpr h.ne_nil)
  rw [parts, parts, hsplit, List.filter_append, hfilter _ (by decide), hkeep]

theorem names_join (path : Path) (h : IsName name) :
    (path.join ⟨name⟩).names = path.names ++ [name] := by
  have hkeep : [name].filter (· != dot) = [name] :=
    List.filter_cons_of_pos (bne_iff_ne.mpr h.ne_dot)
  rw [names_eq, names_eq, parts_join path h.isPart, List.filter_append, hkeep]

/-- A path that ends in a name does not end in a slash. -/
theorem getLast?_join (path : Path) (h : IsPart name) :
    (path.join ⟨name⟩).bytes.getLast? ≠ some slash := by
  obtain ⟨init, last, hname⟩ := (List.eq_nil_or_concat name).resolve_left h.ne_nil
  have hlast : (path.join ⟨name⟩).bytes.getLast? = some last := by
    rcases path.bytes_join h with ⟨hbytes, _⟩ | ⟨front, _, hbytes⟩ | hbytes <;>
      rw [hbytes] <;> simp [hname, List.getLast?_cons]
  rw [hlast]
  intro hslash
  exact h.slash_not_mem (by simp [hname, Option.some.inj hslash])

theorem stepsOf_join (path : Path) (h : IsPart name) :
    FileSystem.stepsOf (path.join ⟨name⟩) = path.parts ++ [name] := by
  have hend : ((path.join ⟨name⟩).bytes.getLast? == some slash) = false :=
    beq_eq_false_iff_ne.mpr (getLast?_join path h)
  rw [FileSystem.stepsOf, hend, if_neg Bool.false_ne_true, List.append_nil]
  exact parts_join path h

theorem isAbsolute_join (relative : Path) (h : path.isAbsolute) :
    (path.join relative).isAbsolute := by
  rw [join]
  split
  · assumption
  · have hhead : path.bytes.head? = some slash := beq_iff_eq.mp h
    rw [isAbsolute, beq_iff_eq]
    split <;> rw [List.head?_append, hhead] <;> rfl

/-- Joining a name does not change whether a path is absolute. -/
theorem isAbsolute_join_name (path : Path) (h : IsPart name) :
    (path.join ⟨name⟩).isAbsolute = path.isAbsolute := by
  have hrelative : name.head? ≠ some slash := fun hhead =>
    h.slash_not_mem (List.mem_of_mem_head? hhead)
  cases habsolute : path.isAbsolute with
  | true => exact isAbsolute_join ⟨name⟩ habsolute
  | false =>
      have hpath : path.bytes.head? ≠ some slash := by
        rwa [isAbsolute, beq_eq_false_iff_ne] at habsolute
      cases hbytes : path.bytes with
      | nil => simp [join, hbytes, isAbsolute, hrelative]
      | cons b rest =>
          rw [hbytes] at hpath
          rw [isAbsolute, beq_eq_false_iff_ne, join, isAbsolute, beq_false_of_ne hrelative,
            if_neg Bool.false_ne_true]
          split <;> simpa [hbytes] using hpath

/-! ### Components -/

theorem component_inj {a b : Bytes} (h : component a = component b) : a = b := by
  rw [component, component] at h
  split at h <;> split at h <;> simp_all

/-- An absolute path is the root with its names. -/
theorem components_of_isAbsolute (h : path.isAbsolute) :
    path.components = .root :: path.names.map component := by
  rw [components, lead, if_pos h]
  rfl

/-- Absolute paths are the same if their names are. -/
theorem same_iff_names {a b : Path} (ha : a.isAbsolute) (hb : b.isAbsolute) :
    a.same b ↔ a.names = b.names := by
  rw [same_iff, components_of_isAbsolute ha, components_of_isAbsolute hb, List.cons.injEq,
    List.map_inj_right fun _ _ => component_inj]
  exact and_iff_right rfl

/-! ### Parents -/

theorem filter_reverse_dropWhile {α : Type} (p : α → Bool) (list : List α) :
    (list.dropWhile p).reverse.filter (!p ·) = list.reverse.filter (!p ·) := by
  induction list with
  | nil => rfl
  | cons a list ih =>
      rw [List.dropWhile_cons]
      split
      · next ha =>
          rw [List.reverse_cons, List.filter_append, ih]
          simp [ha]
      · rfl

private theorem bytes_of_isAbsolute (h : path.isAbsolute) :
    ∃ rest, path.bytes = slash :: rest ∧
      path.partsBack = (Bytes.splitOn slash rest).reverse.dropWhile isTrivial ∧
      path.names = (Bytes.splitOn slash rest).filter (!isTrivial ·) := by
  obtain ⟨rest, hrest⟩ := List.head?_eq_some_iff.mp (beq_iff_eq.mp h)
  refine ⟨rest, hrest, ?_, ?_⟩
  · rw [partsBack, leadBytes, if_pos h, hrest]
    rfl
  · rw [names, hrest, Bytes.splitOn, if_pos (beq_self_eq_true slash), List.filter_cons_of_neg]
    decide

theorem names_of_partsBack_cons (h : path.isAbsolute) {last : Bytes} {before : List Bytes}
    (hback : path.partsBack = last :: before) :
    path.names = before.reverse.filter (!isTrivial ·) ++ [last] := by
  obtain ⟨rest, _, hparts, hnames⟩ := bytes_of_isAbsolute h
  have hfilter := filter_reverse_dropWhile isTrivial (Bytes.splitOn slash rest).reverse
  have hlast : isTrivial last = false := by
    have hhead := List.head?_dropWhile_not isTrivial (Bytes.splitOn slash rest).reverse
    rwa [← hparts, hback] at hhead
  rw [← hparts, hback, List.reverse_reverse, List.reverse_cons, List.filter_append] at hfilter
  rw [hnames, ← hfilter]
  simp [hlast]

/-- The parent of an absolute path has all its names but the last. -/
theorem names_parent? (h : path.isAbsolute) (hparent : path.parent? = some parent) :
    parent.isAbsolute ∧ ∃ last, path.names = parent.names ++ [last] := by
  obtain ⟨rest, hrest, hparts, _⟩ := bytes_of_isAbsolute h
  cases hback : path.partsBack with
  | nil =>
      have hcurrent : path.startsAtCurrent = false := by
        rw [startsAtCurrent, hrest, Bytes.splitOn, if_pos (beq_self_eq_true slash)]
        rfl
      rw [parent?, hback, hcurrent] at hparent
      simp at hparent
  | cons last before =>
      have hlead : path.leadBytes = [slash] := by rw [leadBytes, if_pos h]
      rw [parent?, hback, hlead] at hparent
      obtain rfl := Option.some.inj hparent
      refine ⟨rfl, last, ?_⟩
      rw [names_of_partsBack_cons h hback]
      congr 1
      have hnone : ∀ part ∈ (before.dropWhile isTrivial).reverse, slash ∉ part := by
        intro part hpart
        have hmem : part ∈ path.partsBack := by
          rw [hback]
          exact List.mem_cons_of_mem _ ((List.dropWhile_sublist _).subset (by simpa using hpart))
        rw [hparts] at hmem
        exact Bytes.not_mem_of_mem_splitOn
          (List.mem_reverse.mp ((List.dropWhile_sublist _).subset hmem))
      rw [← filter_reverse_dropWhile, names, List.singleton_append, Bytes.splitOn,
        if_pos (beq_self_eq_true slash), List.filter_cons_of_neg (by decide)]
      by_cases hnil : (before.dropWhile isTrivial).reverse = []
      · rw [hnil]
        rfl
      · rw [Bytes.splitOn_joinWith slash hnil hnone]

/-- What holds of a path and goes over to the path above holds of all paths above. -/
theorem ancestorsUpTo_induction {Q : Path → Prop} {fuel : Nat} (h : Q path)
    (hparent : ∀ path parent : Path, path.parent? = some parent → Q path → Q parent) :
    ∀ above ∈ path.ancestorsUpTo fuel, Q above := by
  induction fuel generalizing path with
  | zero =>
      intro above habove
      exact List.mem_singleton.mp habove ▸ h
  | succ fuel ih =>
      intro above habove
      rcases List.mem_cons.mp habove with rfl | habove
      · exact h
      · cases hpath : path.parent? with
        | none => simp [hpath] at habove
        | some parent =>
            rw [hpath] at habove
            exact ih (hparent path parent hpath h) above habove

/-! ### Final slashes -/

private theorem splitOn_slashes {tail : Bytes} (h : ∀ b ∈ tail, b = slash) :
    (Bytes.splitOn slash tail).filter (!isTrivial ·) = [] := by
  induction tail with
  | nil => decide
  | cons b tail ih =>
      rw [h b List.mem_cons_self, Bytes.splitOn, if_pos (beq_self_eq_true slash),
        List.filter_cons_of_neg (by decide)]
      exact ih fun c hc => h c (List.mem_cons_of_mem b hc)

/-- Slashes at the end of a path add no names. -/
theorem withoutFinalSlashes_spec (path : Path) :
    (FileSystem.withoutFinalSlashes path).names = path.names ∧
      (path.isAbsolute → (FileSystem.withoutFinalSlashes path).isAbsolute) := by
  rw [FileSystem.withoutFinalSlashes]
  split
  · exact ⟨rfl, id⟩
  · next hkept =>
      have hall : ∀ b ∈ path.bytes.reverse.takeWhile (· == slash), b = slash := fun b hb =>
        beq_iff_eq.mp (List.all_eq_true.mp List.all_takeWhile b hb)
      have hbytes : path.bytes = (path.bytes.reverse.dropWhile (· == slash)).reverse ++
          (path.bytes.reverse.takeWhile (· == slash)).reverse := by
        rw [← List.reverse_append, List.takeWhile_append_dropWhile, List.reverse_reverse]
      generalize (path.bytes.reverse.dropWhile (· == slash)).reverse = kept at hbytes hkept ⊢
      generalize path.bytes.reverse.takeWhile (· == slash) = tail at hbytes hall
      refine ⟨?_, fun h => ?_⟩
      · rw [names, names, hbytes]
        cases htail : tail.reverse with
        | nil => rw [List.append_nil]
        | cons b rest =>
            have hmem : ∀ c ∈ b :: rest, c = slash := fun c hc =>
              hall c (List.mem_reverse.mp (htail ▸ hc))
            rw [hmem b List.mem_cons_self, Bytes.splitOn_append, List.filter_append,
              splitOn_slashes fun c hc => hmem c (List.mem_cons_of_mem b hc), List.append_nil]
      · rw [isAbsolute, hbytes, List.head?_append] at h
        obtain ⟨b, rest, rfl⟩ := List.exists_cons_of_ne_nil hkept
        exact h

theorem withoutFinalSlashes_of_getLast? (h : path.bytes.getLast? ≠ some slash) :
    FileSystem.withoutFinalSlashes path = path := by
  have hkept : path.bytes.reverse.dropWhile (· == slash) = path.bytes.reverse := by
    rw [← List.head?_reverse] at h
    cases hback : path.bytes.reverse with
    | nil => rfl
    | cons b rest =>
        rw [hback, List.head?_cons] at h
        rw [List.dropWhile_cons, if_neg]
        rw [beq_iff_eq]
        exact fun heq => h (congrArg some heq)
  rw [FileSystem.withoutFinalSlashes, hkept, List.reverse_reverse]
  split <;> rfl

private theorem getLast?_joinWith {ps : List Bytes} {last : Bytes} (hne : last ≠ []) :
    (Bytes.joinWith slash (ps ++ [last])).getLast? = last.getLast? := by
  induction ps with
  | nil => rfl
  | cons part ps ih =>
      obtain ⟨first, rest, hcons⟩ := List.exists_cons_of_ne_nil (List.append_ne_nil_of_right_ne_nil ps
        (List.cons_ne_nil last []))
      have hsome : ∃ b, last.getLast? = some b := ⟨_, List.getLast?_eq_some_getLast hne⟩
      obtain ⟨b, hb⟩ := hsome
      rw [List.cons_append, hcons, Bytes.joinWith, ← hcons, List.getLast?_append,
        List.getLast?_cons, ih, hb]
      · rfl
      · simp

/-- A path above another one has no slash at its end, unless it is the root. -/
theorem withoutFinalSlashes_parent? (hparent : path.parent? = some parent) :
    FileSystem.withoutFinalSlashes parent = parent := by
  rw [parent?] at hparent
  cases hback : path.partsBack with
  | nil =>
      rw [hback] at hparent
      dsimp only at hparent
      split at hparent
      · obtain rfl := Option.some.inj hparent
        rfl
      · cases hparent
  | cons last before =>
      rw [hback] at hparent
      obtain rfl := Option.some.inj hparent
      cases hbefore : before.dropWhile isTrivial with
      | nil =>
          rw [leadBytes]
          split
          · decide
          · split <;> decide
      | cons part rest =>
          have hpart : isTrivial part = false := by
            have hhead := List.head?_dropWhile_not isTrivial before
            rwa [hbefore] at hhead
          have hne : part ≠ [] := by
            rintro rfl
            cases hpart
          have hslash : slash ∉ part := by
            have hmem : part ∈ path.partsBack := by
              rw [hback]
              refine List.mem_cons_of_mem _ ((List.dropWhile_sublist isTrivial).subset ?_)
              rw [hbefore]
              exact List.mem_cons_self
            exact Bytes.not_mem_of_mem_splitOn
              (List.mem_reverse.mp ((List.dropWhile_sublist _).subset hmem))
          have hlast := List.getLast?_eq_some_getLast hne
          refine withoutFinalSlashes_of_getLast? ?_
          dsimp only
          rw [List.reverse_cons, List.getLast?_append, getLast?_joinWith hne, hlast]
          intro heq
          exact hslash (Option.some.inj heq ▸ List.getLast_mem hne)

end Path

/-! ### Names of environments -/

private theorem toNat_of_isStart {c : Char} (h : Name.isStart c = true) :
    c.toNat < 0x80 ∧ c.toNat ≠ 0x2E ∧ c.toNat ≠ 0x2F ∧ c.toNat ≠ 0x3A ∧ c.toNat ≠ 0 := by
  have hc : c.val.toNat = c.toNat := rfl
  -- a capital, a small letter or a digit
  have hranges : ((decide ('A'.val ≤ c.val ∧ c.val ≤ 'Z'.val) ||
      (decide ('a'.val ≤ c.val) && decide (c.val ≤ 'z'.val))) ||
      (decide ('0'.val ≤ c.val) && decide (c.val ≤ '9'.val))) = true := h
  simp only [Bool.or_eq_true, Bool.and_eq_true, decide_eq_true_eq, UInt32.le_iff_toNat_le,
    Char.reduceVal, UInt32.reduceToNat] at hranges
  omega

private theorem toNat_of_isInner {c : Char} (h : Name.isInner c = true) :
    c.toNat < 0x80 ∧ c.toNat ≠ 0x2F ∧ c.toNat ≠ 0x3A ∧ c.toNat ≠ 0 := by
  simp only [Name.isInner, Bool.or_eq_true, beq_iff_eq] at h
  rcases h with ((h | rfl) | rfl) | rfl
  · exact ⟨(toNat_of_isStart h).1, (toNat_of_isStart h).2.2⟩
  all_goals decide

private theorem isInner_of_check {name : String} (h : Name.check name = none) {c : Char}
    (hc : c ∈ name.toList) : Name.isInner c = true := by
  obtain ⟨_, htoken, _⟩ := Name.check_eq_none_iff.mp h
  cases hchars : name.toList with
  | nil => simp [hchars] at hc
  | cons first rest =>
      rw [hchars, Name.isToken, Bool.and_eq_true, List.all_eq_true] at htoken
      rw [hchars] at hc
      rcases List.mem_cons.mp hc with rfl | hrest
      · simp [Name.isInner, htoken.1]
      · exact htoken.2 c hrest

/-- In the name of an environment stand neither the separator of search paths nor NUL. -/
theorem not_mem_ofText_of_check {name : String} (h : Name.check name = none) :
    Path.colon ∉ Bytes.ofText name ∧ 0 ∉ Bytes.ofText name := by
  rw [Bytes.mem_ofText (by decide), Bytes.mem_ofText (by decide)]
  constructor
  · rintro ⟨c, hc, hcolon⟩
    exact (toNat_of_isInner (isInner_of_check h hc)).2.2.1 hcolon
  · rintro ⟨c, hc, hzero⟩
    exact (toNat_of_isInner (isInner_of_check h hc)).2.2.2 hzero

/-- The name of an environment is the name of an entry, also with a short ending. -/
theorem isName_ofText_append {name : String} (h : Name.check name = none) (ending : Bytes)
    (hending : Path.slash ∉ ending) (hshort : ending.length ≤ 127) :
    IsName (Bytes.ofText name ++ ending) := by
  obtain ⟨hlength, htoken, _⟩ := Name.check_eq_none_iff.mp h
  cases hchars : name.toList with
  | nil =>
      rw [hchars] at htoken
      simp [Name.isToken] at htoken
  | cons c rest =>
      rw [hchars, Name.isToken, Bool.and_eq_true, List.all_eq_true] at htoken
      obtain ⟨hstart, hrest⟩ := htoken
      obtain ⟨hascii, hdot, hslash, _⟩ := toNat_of_isStart hstart
      have hbytes : Bytes.ofText name = UInt8.ofNat c.toNat :: Bytes.ofChars rest := by
        rw [Bytes.ofText, hchars, Bytes.ofChars, List.flatMap_cons,
          Bytes.utf8EncodeChar_of_lt hascii]
        rfl
      have hfirst : UInt8.ofNat c.toNat ≠ 0x2E := by
        rw [Ne, ← UInt8.toNat_inj, UInt8.toNat_ofNat_of_lt' (Nat.lt_trans hascii (by decide))]
        exact hdot
      refine ⟨?_, ?_, ?_, ?_, ?_⟩
      · simp [hbytes]
      · rw [hbytes]
        exact fun heq => hfirst (List.cons.inj heq).1
      · rw [hbytes]
        exact fun heq => hfirst (List.cons.inj heq).1
      · rw [List.mem_append, not_or, Bytes.mem_ofText (by decide), hchars]
        refine ⟨?_, hending⟩
        rintro ⟨d, hd, heq⟩
        rcases List.mem_cons.mp hd with rfl | hd
        · exact hslash heq
        · exact (toNat_of_isInner (hrest d hd)).2.1 heq
      · rw [List.length_append, Bytes.length_ofText]
        have hmax : Name.maxLength = 128 := rfl
        have hbound : FileSystem.maxNameLength = 255 := rfl
        omega

theorem isName_ofText {name : String} (h : Name.check name = none) :
    IsName (Bytes.ofText name) := by
  have hname := isName_ofText_append h [] (by simp) (by simp)
  rwa [List.append_nil] at hname

theorem isName_recordName : IsName (Bytes.ofText Layout.recordName) :=
  ⟨by decide, by decide, by decide, by decide, by decide⟩

theorem isName_draftName : IsName (Bytes.ofText (Layout.recordName ++ ".tmp")) :=
  ⟨by decide, by decide, by decide, by decide, by decide⟩

end Enclave
