import Enclave.Context.Basic

/-! # Undoing edits

Two contexts are the same when their search paths agree entry by entry as paths and their overrides
agree key by key.  What a change does to the search path depends on the components of its entries
only (`entries_revertChange`), so undoing a journal keeps contexts the same (`Same.revert`).  Undoing
the journal of any edits right after them gives back the same context (`revert_applyAll`), and so
does undoing the journals of several blocks of edits in the reverse order, block by block
(`revertAll_take_journals`). -/

namespace Enclave

/-! ### Tables -/

namespace Table

variable {α : Type}

theorem Same.refl (a : Table α) : a.Same a := fun _ => rfl

theorem Same.trans {a b c : Table α} (hab : a.Same b) (hbc : b.Same c) : a.Same c :=
  fun key => (hab key).trans (hbc key)

theorem Same.put {a b : Table α} (h : a.Same b) (key : String) (value : Option α) :
    (a.put key value).Same (b.put key value) := by
  intro other
  rw [get?_put, get?_put, h other]

end Table

namespace ResolutionContext

/-! ### Contexts up to the spelling of paths -/

/-- The entries of the search path as paths, whatever their spelling is. -/
def entries (context : ResolutionContext) : List (List Path.Component) :=
  context.searchPath.map Path.components

/-- Whether two contexts have the same search path and the same overrides. -/
def Same (a b : ResolutionContext) : Prop :=
  a.entries = b.entries ∧ a.overrides.Same b.overrides

theorem Same.refl (a : ResolutionContext) : a.Same a := ⟨rfl, .refl _⟩

theorem Same.trans {a b c : ResolutionContext} (hab : a.Same b) (hbc : b.Same c) : a.Same c :=
  ⟨hab.1.trans hbc.1, hab.2.trans hbc.2⟩

theorem map_components_dropFirst (entry : Path) (path : List Path) :
    (dropFirst entry path).map Path.components =
      (path.map Path.components).erase entry.components := by
  rw [List.erase_eq_eraseP', List.eraseP_map]
  rfl

theorem map_components_insertAt (index : Nat) (entry : Path) (path : List Path) :
    (insertAt index entry path).map Path.components =
      (path.map Path.components).take index ++
        entry.components :: (path.map Path.components).drop index := by
  simp [insertAt, List.map_take, List.map_drop]

theorem entries_prepend (context : ResolutionContext) (entry : Path) :
    (context.prepend entry).entries =
      entry.components :: context.entries.erase entry.components := by
  simp [entries, prepend, map_components_dropFirst]

/-- What undoing a change does to the entries. -/
theorem entries_revertChange (context : ResolutionContext) (change : Change) :
    (context.revertChange change).entries =
      match change with
      | .prepended entry (some index) =>
          (context.entries.erase entry.components).take index ++
            entry.components :: (context.entries.erase entry.components).drop index
      | .prepended entry none => context.entries.erase entry.components
      | .overridden _ _ => context.entries := by
  cases change with
  | prepended entry index =>
      cases index with
      | none => simp [entries, revertChange, map_components_dropFirst]
      | some index =>
          simp [entries, revertChange, map_components_insertAt, map_components_dropFirst]
  | overridden key previous => rfl

theorem Same.revertChange {a b : ResolutionContext} (h : a.Same b) (change : Change) :
    (a.revertChange change).Same (b.revertChange change) := by
  refine ⟨?_, ?_⟩
  · rw [entries_revertChange, entries_revertChange, h.1]
  · cases change with
    | prepended entry index => exact h.2
    | overridden key previous => exact h.2.put key previous

/-- Undoing one edit right after it gives back the same context. -/
theorem revertChange_apply (context : ResolutionContext) (edit : Edit) :
    ((context.apply edit).revertChange (context.changeOf edit)).Same context := by
  refine ⟨?_, revertChange_apply_override? context edit⟩
  cases edit with
  | prepend entry => exact searchPath_revertChange_prepend context entry
  | set key value => rfl
  | unset key => rfl

/-! ### Journals -/

/-- The changes of edits that are made one after the other. -/
def changesOf (context : ResolutionContext) : List Edit → List Change
  | [] => []
  | edit :: edits => context.changeOf edit :: (context.apply edit).changesOf edits

/-- Edits add their changes to the journal in order. -/
theorem foldl_edit (edits : List Edit) (context : ResolutionContext) (journal : Journal) :
    edits.foldl edit (context, journal) =
      (edits.foldl apply context, ⟨journal.changes ++ context.changesOf edits⟩) := by
  induction edits generalizing context journal with
  | nil => simp [changesOf]
  | cons e edits ih =>
      rw [List.foldl_cons, edit, ih]
      simp [changesOf, Journal.record]

theorem applyAll_eq (context : ResolutionContext) (edits : List Edit) :
    context.applyAll edits = (edits.foldl apply context, ⟨context.changesOf edits⟩) := by
  rw [applyAll, foldl_edit]
  simp

theorem revert_nil (context : ResolutionContext) : context.revert ⟨[]⟩ = context := rfl

/-- The oldest change is undone last. -/
theorem revert_cons (context : ResolutionContext) (change : Change) (changes : List Change) :
    context.revert ⟨change :: changes⟩ = (context.revert ⟨changes⟩).revertChange change := by
  simp [revert]

theorem Same.revert {a b : ResolutionContext} (h : a.Same b) (journal : Journal) :
    (a.revert journal).Same (b.revert journal) := by
  obtain ⟨changes⟩ := journal
  induction changes with
  | nil => exact h
  | cons change changes ih =>
      rw [revert_cons, revert_cons]
      exact ih.revertChange change

/-- **Undoing the journal of edits gives back the context before them.** -/
theorem revert_applyAll (context : ResolutionContext) (edits : List Edit) :
    ((context.applyAll edits).1.revert (context.applyAll edits).2).Same context := by
  rw [applyAll_eq]
  induction edits generalizing context with
  | nil => exact .refl _
  | cons e edits ih =>
      rw [changesOf, revert_cons, List.foldl_cons]
      exact ((ih (context.apply e)).revertChange _).trans (revertChange_apply context e)

/-! ### Nested journals -/

/-- The context after blocks of edits. -/
def afterBlocks (context : ResolutionContext) (blocks : List (List Edit)) : ResolutionContext :=
  blocks.foldl (fun context edits => (context.applyAll edits).1) context

/-- The journals of blocks of edits, each block with a journal of its own. -/
def journalsOf (context : ResolutionContext) : List (List Edit) → List Journal
  | [] => []
  | edits :: blocks => (context.applyAll edits).2 :: (context.applyAll edits).1.journalsOf blocks

/-- Undoes journals, the first one first. -/
def revertAll (context : ResolutionContext) (journals : List Journal) : ResolutionContext :=
  journals.foldl revert context

theorem length_journalsOf (context : ResolutionContext) (blocks : List (List Edit)) :
    (context.journalsOf blocks).length = blocks.length := by
  induction blocks generalizing context with
  | nil => rfl
  | cons edits blocks ih => rw [journalsOf, List.length_cons, ih, List.length_cons]

theorem afterBlocks_append (context : ResolutionContext) (front back : List (List Edit)) :
    context.afterBlocks (front ++ back) = (context.afterBlocks front).afterBlocks back := by
  rw [afterBlocks, List.foldl_append]
  rfl

theorem journalsOf_append (context : ResolutionContext) (front back : List (List Edit)) :
    context.journalsOf (front ++ back) =
      context.journalsOf front ++ (context.afterBlocks front).journalsOf back := by
  induction front generalizing context with
  | nil => rfl
  | cons edits front ih =>
      rw [List.cons_append, journalsOf, ih, journalsOf, List.cons_append]
      rfl

/-- Undoing the journals of all blocks, newest first, gives back the context before them. -/
theorem revertAll_journalsOf (context : ResolutionContext) (blocks : List (List Edit)) :
    ((context.afterBlocks blocks).revertAll (context.journalsOf blocks).reverse).Same context := by
  induction blocks generalizing context with
  | nil => exact .refl context
  | cons edits blocks ih =>
      -- the first block is undone last, in a context that is the same as the one right after it
      rw [journalsOf, List.reverse_cons, revertAll, List.foldl_append, List.foldl_cons,
        List.foldl_nil]
      exact ((ih (context.applyAll edits).1).revert _).trans (revert_applyAll context edits)

/-- **Nested journals undo block by block**: after any number of reverts in the reverse order of
their creation, the context is the one before the last block that was undone. -/
theorem revertAll_take_journals (context : ResolutionContext) (blocks : List (List Edit))
    (count : Nat) :
    ((context.afterBlocks blocks).revertAll ((context.journalsOf blocks).reverse.take count)).Same
      (context.afterBlocks (blocks.take (blocks.length - count))) := by
  have hjournals := journalsOf_append context (blocks.take (blocks.length - count))
    (blocks.drop (blocks.length - count))
  have hblocks := afterBlocks_append context (blocks.take (blocks.length - count))
    (blocks.drop (blocks.length - count))
  rw [List.take_append_drop] at hjournals hblocks
  have hlast : (context.journalsOf blocks).reverse.take count =
      ((context.afterBlocks (blocks.take (blocks.length - count))).journalsOf
        (blocks.drop (blocks.length - count))).reverse := by
    rw [List.take_reverse, length_journalsOf, hjournals, List.drop_left']
    rw [length_journalsOf, List.length_take]
    omega
  rw [hlast, hblocks]
  exact revertAll_journalsOf _ _

end ResolutionContext
end Enclave
