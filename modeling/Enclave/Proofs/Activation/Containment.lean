import Enclave.Proofs.Activation.Locations
import Enclave.Proofs.FileSystem.Ancestors

/-! # Staying below a root

A path that is joined to a root has the components of the root and then its own names, unless it is
absolute (`components_join`).  So what is joined below a root is accepted exactly if it neither
starts at the root of the file system nor climbs, and then it leads down from the root and nowhere
else (`joinBelow?_iff`).

The names of environments are the tokens that are safe as the name of a directory on every system
(`Name.IsSafe`).  Exactly these are accepted, and each has its location directly in the root under
exactly its name (`locate_iff`).  The one thing that can be missing is the directory from which a
relative root is seen: a process whose working directory was removed has none
(`not_locate_of_removed`). -/

namespace Enclave

/-! ### Joining below a root -/

namespace Path

variable {root relative location : Path}

/-- Whether a component is a name. -/
def Component.isName : Component → Bool
  | .name _ => true
  | _ => false

/-- The names of a path that does not climb are its components but the first one, if that says where
it starts. -/
theorem filter_isName_components (h : .parent ∉ relative.components) :
    relative.components.filter Component.isName = relative.names.map component := by
  have hparts : ∀ c ∈ relative.names.map component, c.isName = true := by
    intro c hc
    obtain ⟨part, hpart, rfl⟩ := List.mem_map.mp hc
    have hmem : component part ∈ relative.components := by
      unfold components
      exact List.mem_append_right _ (List.mem_map_of_mem hpart)
    rcases component_eq_parent_or_name part with hparent | hname
    · rw [hparent] at hmem
      exact absurd hmem h
    · rw [hname]
      rfl
  have hlead : relative.lead.filter Component.isName = [] := by
    unfold lead
    split
    · rfl
    · split <;> rfl
  unfold components
  rw [List.filter_append, hlead, List.nil_append]
  exact List.filter_eq_self.mpr hparts

/-- A relative path is joined behind a slash. -/
theorem bytes_join_of_relative (hroot : root.bytes ≠ []) (hrelative : relative.isAbsolute = false) :
    ∃ front, (root.join relative).bytes = front ++ slash :: relative.bytes ∧
      (root.bytes = front ∨ root.bytes = front ++ [slash]) := by
  unfold join
  rw [if_neg (by simp [hrelative])]
  split
  · next hend =>
      have hlast : root.bytes.getLast? = some slash := by simpa [hroot] using hend
      obtain ⟨front, hfront⟩ := List.getLast?_eq_some_iff.mp hlast
      exact ⟨front, by simp [hfront], .inr hfront⟩
  · exact ⟨root.bytes, rfl, .inl rfl⟩

/-- **What a joined path is made of**: the components of the path in front and then the names behind
it. -/
theorem components_join (hroot : root.bytes ≠ []) (hrelative : relative.isAbsolute = false) :
    (root.join relative).components = root.components ++ relative.names.map component := by
  obtain ⟨front, hjoin, hfront⟩ := bytes_join_of_relative hroot hrelative
  have hsplit : Bytes.splitOn slash (root.join relative).bytes =
      Bytes.splitOn slash front ++ Bytes.splitOn slash relative.bytes := by
    rw [hjoin, Bytes.splitOn_append]
  -- A slash at the end of the root is one that parts it from the rest.
  have hparts : ∃ back, Bytes.splitOn slash root.bytes = Bytes.splitOn slash front ++ back ∧
      back.filter (!isTrivial ·) = [] := by
    rcases hfront with hfront | hfront
    · exact ⟨[], by rw [hfront, List.append_nil], rfl⟩
    · exact ⟨[[]], by rw [hfront, Bytes.splitOn_append]; rfl, rfl⟩
  obtain ⟨back, hback, hnone⟩ := hparts
  obtain ⟨part, parts, hcons⟩ := List.exists_cons_of_ne_nil (Bytes.splitOn_ne_nil slash front)
  have hcurrent : (root.join relative).startsAtCurrent = root.startsAtCurrent := by
    unfold startsAtCurrent
    rw [hsplit, hback, hcons]
    rfl
  have habsolute : (root.join relative).isAbsolute = root.isAbsolute := by
    unfold isAbsolute
    rw [hjoin]
    rcases hfront with hfront | hfront
    · obtain ⟨first, rest, hfirst⟩ := List.exists_cons_of_ne_nil hroot
      rw [← hfront, hfirst]
      rfl
    · rw [hfront, List.head?_append, List.head?_append]
      rfl
  unfold components lead
  rw [hsplit, hback, hcurrent, habsolute, List.filter_append, List.filter_append, hnone,
    List.append_nil, List.map_append, List.append_assoc]
  rfl

/-- **A joined path cannot escape.**  Below a root that is not empty exactly the relative paths that
do not climb are accepted.  The result has the components of the root and then the names of the
relative path, so it is within the root and climbs where the root does. -/
theorem joinBelow?_iff (hroot : root.bytes ≠ []) (relative : Path) :
    ((joinBelow? root relative).isSome ↔
      relative.isAbsolute = false ∧ .parent ∉ relative.components) ∧
    ∀ location, joinBelow? root relative = some location →
      location.components = root.components ++ relative.components.filter Component.isName ∧
        location.IsWithin root ∧
        location.components.count .parent = root.components.count .parent := by
  have hiff : (joinBelow? root relative).isSome ↔
      relative.isAbsolute = false ∧ .parent ∉ relative.components := by
    rw [joinBelow?_isSome_iff, Bool.eq_false_iff, Ne, isAbsolute_iff_root_mem]
    constructor
    · intro h
      exact ⟨fun hmem => (h _ hmem).1 rfl, fun hmem => (h _ hmem).2 rfl⟩
    · rintro ⟨hnotRoot, hnotParent⟩ c hc
      constructor
      · rintro rfl
        exact hnotRoot hc
      · rintro rfl
        exact hnotParent hc
  refine ⟨hiff, fun location hlocation => ?_⟩
  obtain ⟨hrelative, hclimbs⟩ := hiff.mp (by simp [hlocation])
  obtain rfl := Activation.joinBelow?_eq_some hlocation
  have hcomponents := components_join hroot hrelative
  rw [← filter_isName_components hclimbs] at hcomponents
  have hcount : (relative.components.filter Component.isName).count .parent = 0 := by
    apply List.count_eq_zero_of_not_mem
    intro hmem
    have hname := (List.mem_filter.mp hmem).2
    cases hname
  refine ⟨hcomponents, ⟨_, hcomponents.symm⟩, ?_⟩
  rw [hcomponents, List.count_append, hcount, Nat.add_zero]

/-- Repeated slashes and single dots in the middle and at the end make no difference. -/
theorem joinBelow?_iff_dots :
    (⟨Bytes.ofText "./envs/../"⟩ : Path).bytes ≠ [] ∧
      ∃ location, joinBelow? (.ofText "./envs/../") (.ofText "./a//b/.") = some location ∧
        location.components = [.current, .name (Bytes.ofText "envs"), .parent,
          .name (Bytes.ofText "a"), .name (Bytes.ofText "b")] := by
  have hroot : (⟨Bytes.ofText "./envs/../"⟩ : Path).bytes ≠ [] := by decide
  obtain ⟨hiff, hresult⟩ := joinBelow?_iff hroot (.ofText "./a//b/.")
  obtain ⟨location, hlocation⟩ := Option.isSome_iff_exists.mp
    (hiff.mpr ⟨by decide +kernel, by decide +kernel⟩)
  exact ⟨hroot, location, hlocation, (hresult location hlocation).1.trans (by decide +kernel)⟩

end Path

/-! ### Safe names -/

namespace Name

/-- An ASCII letter or digit. -/
def IsAlphanumeric (c : Char) : Prop :=
  'A' ≤ c ∧ c ≤ 'Z' ∨ 'a' ≤ c ∧ c ≤ 'z' ∨ '0' ≤ c ∧ c ≤ '9'

/-- The names of devices in capitals: four plain ones, and two kinds of ports with a digit each. -/
def deviceNames : List (List Char) :=
  ["CON".toList, "PRN".toList, "AUX".toList, "NUL".toList] ++
    ["COM".toList, "LPT".toList].flatMap fun port =>
      "0123456789".toList.map fun digit => port ++ [digit]

/-- The names that are safe as the name of a directory on every system. -/
structure IsSafe (name : String) : Prop where
  size : 1 ≤ name.utf8ByteSize ∧ name.utf8ByteSize ≤ 128
  token : ∃ first rest, name.toList = first :: rest ∧ IsAlphanumeric first ∧
    ∀ c ∈ rest, IsAlphanumeric c ∨ c = '.' ∨ c = '_' ∨ c = '-'
  /-- What stands before the first dot is not the name of a device, in capitals or not. -/
  device : ∀ front back, name.toList = front ++ back → '.' ∉ front →
    (back = [] ∨ back.head? = some '.') → front.map Char.toUpper ∉ deviceNames

theorem isStart_iff (c : Char) : isStart c = true ↔ IsAlphanumeric c := by
  unfold isStart IsAlphanumeric
  delta Char.isAlphanum Char.isAlpha Char.isUpper Char.isLower Char.isDigit
  simp only [Bool.or_eq_true, Bool.and_eq_true, decide_eq_true_eq, ge_iff_le, Char.le_def]
  exact or_assoc

theorem isInner_iff (c : Char) :
    isInner c = true ↔ IsAlphanumeric c ∨ c = '.' ∨ c = '_' ∨ c = '-' := by
  simp only [isInner, Bool.or_eq_true, beq_iff_eq, isStart_iff, or_assoc]

theorem isToken_iff (name : List Char) :
    isToken name = true ↔ ∃ first rest, name = first :: rest ∧ IsAlphanumeric first ∧
      ∀ c ∈ rest, IsAlphanumeric c ∨ c = '.' ∨ c = '_' ∨ c = '-' := by
  cases name with
  | nil => simp [isToken]
  | cons first rest =>
      simp only [isToken, Bool.and_eq_true, List.all_eq_true, isStart_iff, isInner_iff]
      constructor
      · intro h
        exact ⟨first, rest, rfl, h⟩
      · rintro ⟨_, _, ⟨⟩, h⟩
        exact h

private theorem mem_digits {d : Char} (h : d.isDigit = true) : d ∈ "0123456789".toList := by
  have hrange : 48 ≤ d.toNat ∧ d.toNat ≤ 57 := by
    simp only [Char.isDigit, Bool.and_eq_true, decide_eq_true_eq, ge_iff_le,
      UInt32.le_iff_toNat_le] at h
    exact h
  have hall : ∀ n, 48 ≤ n → n ≤ 57 → Char.ofNat n ∈ "0123456789".toList := by
    intro n hlow hhigh
    have hsum : ∃ k < 10, n = 48 + k := ⟨n - 48, by omega, by omega⟩
    obtain ⟨k, hk, rfl⟩ := hsum
    revert k
    decide
  have hmem := hall d.toNat hrange.1 hrange.2
  rwa [Char.ofNat_toNat] at hmem

theorem isDevice_iff (stem : List Char) : isDevice stem = true ↔ stem ∈ deviceNames := by
  constructor
  · intro h
    unfold isDevice at h
    rcases (Bool.or_eq_true _ _).mp h with hplain | hport
    · exact List.mem_append_left _ (List.contains_iff_mem.mp hplain)
    · apply List.mem_append_right
      split at hport
      · exact List.mem_flatMap.mpr ⟨"COM".toList, by simp, List.mem_map_of_mem (mem_digits hport)⟩
      · exact List.mem_flatMap.mpr ⟨"LPT".toList, by simp, List.mem_map_of_mem (mem_digits hport)⟩
      · cases hport
  · have hall : ∀ device ∈ deviceNames, isDevice device = true := by decide
    exact hall stem

/-- The part before the first dot is what stands before a dot, or the end, and has none. -/
theorem eq_stem_iff {name front : List Char} :
    front = stem name ↔ ∃ back, name = front ++ back ∧ '.' ∉ front ∧
      (back = [] ∨ back.head? = some '.') := by
  constructor
  · rintro rfl
    refine ⟨name.dropWhile (· != '.'), (List.takeWhile_append_dropWhile ..).symm, ?_, ?_⟩
    · intro hdot
      have hkept := List.all_eq_true.mp (List.all_takeWhile (p := (· != '.')) (l := name)) _ hdot
      simp at hkept
    · cases hback : name.dropWhile (· != '.') with
      | nil => exact .inl rfl
      | cons c rest =>
          have hhead := List.head?_dropWhile_not (· != '.') name
          rw [hback] at hhead
          exact .inr (by simpa using hhead)
  · rintro ⟨back, rfl, hfront, hback⟩
    have hkept : ∀ c ∈ front, (c != '.') = true := by
      intro c hc
      rw [bne_iff_ne]
      rintro rfl
      exact hfront hc
    have hend : back.takeWhile (· != '.') = [] := by
      rcases hback with rfl | hdot
      · rfl
      · obtain ⟨rest, rfl⟩ := List.head?_eq_some_iff.mp hdot
        rfl
    unfold stem
    rw [List.takeWhile_append_of_pos hkept, hend, List.append_nil]

/-- Exactly the safe names are accepted. -/
theorem check_iff_isSafe (name : String) : check name = none ↔ IsSafe name := by
  have hdevice : isReserved name.toList = false ↔
      (stem name.toList).map Char.toUpper ∉ deviceNames := by
    rw [← Bool.not_eq_true, isReserved, isDevice_iff]
  rw [check_eq_none_iff, isToken_iff, hdevice]
  constructor
  · rintro ⟨hsize, htoken, hfree⟩
    refine ⟨⟨?_, hsize⟩, htoken, ?_⟩
    · obtain ⟨first, rest, hchars, _⟩ := htoken
      rcases Nat.eq_zero_or_pos name.utf8ByteSize with hzero | hpos
      · rw [String.utf8ByteSize_eq_zero_iff.mp hzero] at hchars
        cases hchars
      · exact hpos
    · intro front back hname hfront hback
      rw [eq_stem_iff.mpr ⟨back, hname, hfront, hback⟩]
      exact hfree
  · rintro ⟨hsize, htoken, hfree⟩
    obtain ⟨back, hname, hfront, hback⟩ := eq_stem_iff.mp (rfl : stem name.toList = _)
    exact ⟨hsize.2, htoken, hfree _ back hname hfront hback⟩

end Name

/-! ### Locations of names -/

/-- Whether a location is that of an environment with a name directly in a root. -/
structure LiesIn (root : Path) (name : String) (location : Path) : Prop where
  isAbsolute : location.isAbsolute
  parent : ∃ above, location.parent? = some above ∧ above.same root
  fileName : location.fileName? = some (Bytes.ofText name)

theorem Path.plain_same {root : Path} (h : root.isAbsolute) : root.plain.same root := by
  have hplain : root.plain.isAbsolute := by rwa [isAbsolute_plain]
  exact (same_iff_names hplain h).mpr root.names_plain

theorem LiesIn.of_check {root : Path} {name : String} (hroot : root.isAbsolute)
    (hname : Name.check name = none) : LiesIn root name (root.join (.ofText name)) := by
  have hpart : IsPart (Bytes.ofText name) := (isName_ofText hname).isPart
  constructor
  · exact Path.isAbsolute_join _ hroot
  · exact ⟨root.plain, Path.parent?_join root hpart, Path.plain_same hroot⟩
  · exact Path.fileName?_join root hpart

namespace Activator

/-- **Names and locations.**  Exactly the safe names are accepted.  The location of an accepted name
lies directly in the root, which is seen from the working directory if it is relative.  Only a name
in a relative root has no location in a process without a working directory. -/
theorem locate_iff (activator : Activator) (world : World) (name : String) :
    let root := activator.settings.root
    (Name.check name = none ↔ Name.IsSafe name) ∧
      (Name.check name = none →
        (root.isAbsolute → ∃ location, activator.locate world name = .ok location ∧
          LiesIn root name location) ∧
        (∀ directory, world.currentDirectory = .ok directory →
          ∃ location, activator.locate world name = .ok location ∧
            LiesIn (directory.join root) name location) ∧
        (root.isAbsolute = false → ∀ cause, world.currentDirectory = .error cause →
          activator.locate world name = .error (.invalidDescriptor name
            s!"cannot resolve root {root.display}: {cause.message}"))) := by
  intro root
  refine ⟨Name.check_iff_isSafe name, fun hname => ⟨fun hroot => ?_, fun directory hdirectory => ?_,
    fun hrelative cause hcause => ?_⟩⟩
  · have htop : Activation.absoluteRoot root world.currentDirectory = .ok root := if_pos hroot
    exact ⟨_, Activation.locate_of_check hname htop, .of_check hroot hname⟩
  · have hworking := World.isAbsolute_currentDirectory hdirectory
    have htop : Activation.absoluteRoot root world.currentDirectory =
        .ok (directory.join root) := by
      unfold Activation.absoluteRoot Path.join
      rw [hdirectory]
      split <;> rfl
    exact ⟨_, Activation.locate_of_check hname htop,
      .of_check (Path.isAbsolute_join root hworking) hname⟩
  · unfold locate Activation.locate Activation.absoluteRoot
    rw [hname, hcause, if_neg (Bool.eq_false_iff.mp hrelative)]

/-- A process whose working directory was removed. -/
def removedWorld : World := { (default : World) with cwd := .ofText "/work" }

/-- An activator with a relative root. -/
def relativeActivator : Activator := ⟨.standard (.ofText "envs"), .empty⟩

/-- From a working directory that was removed, no name in a relative root has a location. -/
theorem not_locate_of_removed :
    Name.check "tool" = none ∧ Name.IsSafe "tool" ∧
      ∀ location, relativeActivator.locate removedWorld "tool" ≠ .ok location := by
  have hname : Name.check "tool" = none := by decide +kernel
  refine ⟨hname, (Name.check_iff_isSafe "tool").mp hname, fun location hlocation => ?_⟩
  have hnone : (relativeActivator.locate removedWorld "tool").toOption = none := by decide +kernel
  rw [hlocation] at hnone
  cases hnone

end Activator
end Enclave
