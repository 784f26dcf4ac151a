import Enclave.Path
import Enclave.Table

/-! # Resolution contexts

A resolution context is the search path and the variables with which programs are looked up and
started.  It can be changed without touching the process environment.  Every edit gives the change
that undoes it; the changes of one activation make a journal, and `revert` undoes a journal, newest
change first.  Undoing a single edit at once gives back the same search path and the same overrides
(`revertChange_apply_override?`, `searchPath_revertChange_prepend`). -/

namespace Enclave

/-- A search path, and the variables that are set or unset instead of inherited. -/
structure ResolutionContext where
  searchPath : List Path
  overrides : Table (Option String)
deriving Repr, Inhabited, DecidableEq

/-- A change that can be undone. -/
inductive Change
  /-- An entry was put first; `previousIndex` is where it was before, if it was there. -/
  | prepended (entry : Path) (previousIndex : Option Nat)
  /-- The override of a variable changed; `previous` is the one before, if there was one. -/
  | overridden (key : String) (previous : Option (Option String))
deriving Repr, DecidableEq

/-- The changes of an activation, oldest first. -/
structure Journal where
  changes : List Change := []
deriving Repr, DecidableEq, Inhabited

namespace Journal

/-- The journal with one more change. -/
def record (journal : Journal) (change : Change) : Journal :=
  ⟨journal.changes ++ [change]⟩

end Journal

/-- What can be done to a context. -/
inductive Edit
  | prepend (entry : Path)
  | set (key value : String)
  | unset (key : String)
deriving Repr, DecidableEq

namespace ResolutionContext

/-- A context without overrides. -/
def ofSearchPath (searchPath : List Path) : ResolutionContext :=
  ⟨searchPath, .empty⟩

/-- What happens to a variable: nothing for `none`, unset for `some none`. -/
def override? (context : ResolutionContext) (key : String) : Option (Option String) :=
  context.overrides.get? key

/-- Where an entry is on a search path. -/
def indexOf? (entry : Path) (searchPath : List Path) : Option Nat :=
  searchPath.findIdx? (·.same entry)

/-- A search path without the first entry that is the given one. -/
def dropFirst (entry : Path) (searchPath : List Path) : List Path :=
  searchPath.eraseP (·.same entry)

/-- A search path with an entry at an index, or at its end if it is shorter. -/
def insertAt (index : Nat) (entry : Path) (searchPath : List Path) : List Path :=
  searchPath.take index ++ entry :: searchPath.drop index

/-- Puts an entry at the front of the search path, from where it is or as a new one. -/
def prepend (context : ResolutionContext) (entry : Path) : ResolutionContext :=
  { context with searchPath := entry :: dropFirst entry context.searchPath }

/-- Gives a variable an override. -/
def setOverride (context : ResolutionContext) (key : String) (value : Option String) :
    ResolutionContext :=
  { context with overrides := context.overrides.set key value }

/-- The context after an edit. -/
def apply (context : ResolutionContext) : Edit → ResolutionContext
  | .prepend entry => context.prepend entry
  | .set key value => context.setOverride key (some value)
  | .unset key => context.setOverride key none

/-- What an edit changes in a context. -/
def changeOf (context : ResolutionContext) : Edit → Change
  | .prepend entry => .prepended entry (indexOf? entry context.searchPath)
  | .set key _ => .overridden key (context.override? key)
  | .unset key => .overridden key (context.override? key)

/-- Performs an edit and records it in a journal. -/
def edit (state : ResolutionContext × Journal) (edit : Edit) : ResolutionContext × Journal :=
  (state.1.apply edit, state.2.record (state.1.changeOf edit))

/-- Performs edits in order, with a journal of them. -/
def applyAll (context : ResolutionContext) (edits : List Edit) : ResolutionContext × Journal :=
  edits.foldl edit (context, {})

/-- Undoes a change. -/
def revertChange (context : ResolutionContext) : Change → ResolutionContext
  | .prepended entry previousIndex =>
      let rest := dropFirst entry context.searchPath
      { context with
        searchPath := match previousIndex with
          | some index => insertAt index entry rest
          | none => rest }
  | .overridden key previous => { context with overrides := context.overrides.put key previous }

/-- Undoes the changes of a journal, newest first. -/
def revert (context : ResolutionContext) (journal : Journal) : ResolutionContext :=
  journal.changes.reverse.foldl revertChange context

/-- The text of the search path, or `none` if an entry contains the separator. -/
def searchPathText? (context : ResolutionContext) : Option Bytes :=
  Path.joinSearchPath? context.searchPath

/-- The wording of a search path that has no text. -/
def unjoinable : String := "path segment contains separator `:`"

/-! ### Laws -/

/-- An entry that was put first and moves back is at its old place, under the name by which it was
put first. -/
theorem searchPath_revertChange_prepend (context : ResolutionContext) (entry : Path) :
    ((context.apply (.prepend entry)).revertChange
        (context.changeOf (.prepend entry))).searchPath.map Path.components =
      context.searchPath.map Path.components := by
  obtain ⟨path, overrides⟩ := context
  simp only [apply, prepend, changeOf, revertChange, dropFirst, indexOf?]
  have hfront : ∀ rest, (entry :: rest).eraseP (·.same entry) = rest := fun rest => by
    simp [Path.same_refl]
  rw [hfront]
  induction path with
  | nil => rfl
  | cons p path ih =>
      by_cases hp : p.same entry
      · simp [List.findIdx?_cons, hp, insertAt, Path.same_iff.mp hp]
      · have hkeep : (p :: path).eraseP (·.same entry) = p :: path.eraseP (·.same entry) := by
          simp [hp]
        simp only [List.findIdx?_cons, hp, hkeep]
        cases hi : path.findIdx? (·.same entry) with
        | none =>
            rw [hi] at ih
            simpa using ih
        | some index =>
            rw [hi] at ih
            simpa [insertAt] using ih

/-- Undoing an edit gives every variable the override that it had. -/
theorem revertChange_apply_override? (context : ResolutionContext) (edit : Edit) (key : String) :
    ((context.apply edit).revertChange (context.changeOf edit)).override? key =
      context.override? key := by
  cases edit with
  | prepend entry => rfl
  | set k value =>
      simp only [apply, setOverride, changeOf, revertChange, override?, Table.get?_put,
        Table.get?_set]
      split
      · next h => rw [eq_of_beq h]
      · rfl
  | unset k =>
      simp only [apply, setOverride, changeOf, revertChange, override?, Table.get?_put,
        Table.get?_set]
      split
      · next h => rw [eq_of_beq h]
      · rfl

end ResolutionContext
end Enclave
