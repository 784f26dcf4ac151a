import Enclave.Bytes

/-! # Paths

A path is a byte sequence; slashes separate its parts.  Two paths are the same when their components
are: repeated slashes, a slash at the end and single dots make no difference, except for a single
dot at the front of a relative path.  `parent?`, `fileName?` and `withFileName` follow the
components, `join` and `display` the text.  `joinBelow?` accepts exactly the relative paths that
stay below their root (`joinBelow?_isSome_iff`). -/

namespace Enclave

/-- A path as it is written. -/
structure Path where
  bytes : Bytes
deriving DecidableEq, Repr, Inhabited

namespace Path

/-- The byte between the parts of a path. -/
def slash : UInt8 := 0x2F

/-- The byte between the entries of a search path. -/
def colon : UInt8 := 0x3A

/-- The name of the current directory. -/
def dot : Bytes := [0x2E]

/-- The name of the parent directory. -/
def dotDot : Bytes := [0x2E, 0x2E]

/-- The path that a text denotes. -/
def ofText (text : String) : Path := ⟨Bytes.ofText text⟩

/-- The text shown for a path. -/
def display (path : Path) : String := path.bytes.display

instance : ToString Path := ⟨display⟩

/-- A part of a path that means something. -/
inductive Component
  | root
  | current
  | parent
  | name (bytes : Bytes)
deriving DecidableEq, Repr

/-- Whether a part between slashes means nothing inside a path. -/
def isTrivial (part : Bytes) : Bool :=
  part == [] || part == dot

/-- The component of a part that is not trivial. -/
def component (part : Bytes) : Component :=
  if part == dotDot then .parent else .name part

/-- Whether the path starts at the root. -/
def isAbsolute (path : Path) : Bool :=
  path.bytes.head? == some slash

/-- Whether the path starts with a single dot, which then counts as a component. -/
def startsAtCurrent (path : Path) : Bool :=
  (Bytes.splitOn slash path.bytes).head? == some dot

/-- The first component when it is not a name: the root or the current directory. -/
def lead (path : Path) : List Component :=
  if path.isAbsolute then [.root] else if path.startsAtCurrent then [.current] else []

/-- The components of a path. -/
def components (path : Path) : List Component :=
  path.lead ++ ((Bytes.splitOn slash path.bytes).filter (!isTrivial ·)).map component

/-- Whether two paths have the same components. -/
def same (a b : Path) : Bool :=
  a.components == b.components

/-- The path `relative` seen from `base`; an absolute path stands for itself. -/
def join (base relative : Path) : Path :=
  if relative.isAbsolute then relative
  else if base.bytes == [] || base.bytes.getLast? == some slash then
    ⟨base.bytes ++ relative.bytes⟩
  else ⟨base.bytes ++ slash :: relative.bytes⟩

/-- The path of an entry of a directory. -/
def child (directory : Path) (name : String) : Path :=
  directory.join (.ofText name)

/-- The bytes of the first component when it is not a name. -/
def leadBytes (path : Path) : Bytes :=
  if path.isAbsolute then [slash] else if path.startsAtCurrent then dot else []

/-- The parts after the first component when that is not a name, last part first, without the
trivial parts at the end. -/
def partsBack (path : Path) : List Bytes :=
  (Bytes.splitOn slash (path.bytes.drop path.leadBytes.length)).reverse.dropWhile isTrivial

/-- The path without its last component; the root and the empty path have none. -/
def parent? (path : Path) : Option Path :=
  match path.partsBack with
  | [] => if path.startsAtCurrent then some ⟨[]⟩ else none
  | _ :: before =>
      some ⟨path.leadBytes ++ Bytes.joinWith slash (before.dropWhile isTrivial).reverse⟩

/-- The last component when it is a name. -/
def fileName? (path : Path) : Option Bytes :=
  match path.partsBack with
  | [] => none
  | part :: _ => if part == dotDot then none else some part

/-- The path with its last component replaced, or extended when the last component is no name. -/
def withFileName (path : Path) (name : Bytes) : Path :=
  match path.fileName?, path.parent? with
  | some _, some parent => parent.join ⟨name⟩
  | _, _ => path.join ⟨name⟩

/-- The path and the paths above it, nearest first, at most `fuel` of the latter. -/
def ancestorsUpTo : Nat → Path → List Path
  | 0, path => [path]
  | fuel + 1, path =>
      path :: match path.parent? with
        | none => []
        | some parent => ancestorsUpTo fuel parent

/-- The path and all paths above it, nearest first. -/
def ancestors (path : Path) : List Path :=
  ancestorsUpTo path.bytes.length path

/-- Whether a component stays where it is or goes down. -/
def Component.descends : Component → Bool
  | .current => true
  | .name _ => true
  | .root => false
  | .parent => false

/-- The path `relative` below `root`, or `none` if it could leave `root`. -/
def joinBelow? (root relative : Path) : Option Path :=
  if relative.components.all Component.descends then some (root.join relative) else none

/-- The entries of a search path. -/
def splitSearchPath (bytes : Bytes) : List Path :=
  (Bytes.splitOn colon bytes).map Path.mk

/-- The text of a search path, or `none` if an entry contains the separator. -/
def joinSearchPath? (entries : List Path) : Option Bytes :=
  if entries.any (·.bytes.contains colon) then none
  else some (Bytes.joinWith colon (entries.map Path.bytes))

/-! ### Laws -/

theorem same_refl (path : Path) : path.same path = true := by simp [same]

theorem same_iff {a b : Path} : a.same b = true ↔ a.components = b.components := by simp [same]

theorem joinBelow?_isSome_iff {root relative : Path} :
    (joinBelow? root relative).isSome ↔ ∀ c ∈ relative.components, c ≠ .root ∧ c ≠ .parent := by
  rw [joinBelow?]
  constructor
  · intro h c hc
    split at h
    · next hall =>
        have hd := List.all_eq_true.mp hall c hc
        cases c <;> simp_all [Component.descends]
    · simp at h
  · intro h
    have hall : relative.components.all Component.descends = true := by
      apply List.all_eq_true.mpr
      intro c hc
      have hne := h c hc
      cases c <;> simp_all [Component.descends]
    simp [hall]

/-- Joining the entries of a search path that was split gives it back. -/
theorem joinSearchPath?_splitSearchPath (bytes : Bytes) :
    joinSearchPath? (splitSearchPath bytes) =
      if (splitSearchPath bytes).any (·.bytes.contains colon) then none else some bytes := by
  rw [joinSearchPath?]
  split
  · rfl
  · have e : (splitSearchPath bytes).map Path.bytes = Bytes.splitOn colon bytes := by
      simp [splitSearchPath, Function.comp_def]
    rw [e, Bytes.joinWith_splitOn]

end Path
end Enclave
