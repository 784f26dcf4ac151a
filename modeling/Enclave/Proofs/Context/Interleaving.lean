import Enclave.Proofs.Context.Undo
import Mathlib.Data.List.Nodup

/-! # Edits and undoing in any order

Journals may be undone while others go on, out of order and more than once; then they put entries
back at places that have long been taken by others.  A session is a context with the journals that
were kept so far.  Whatever is done in it, only entries that were put first at some time are moved:
the rest of the search path stays as it is (`Undisturbed`, `undisturbed_performAll`).  The one step
behind this takes the first occurrence of such an entry away and puts it back somewhere or nowhere
(`Undisturbed.dropFirst`, `Undisturbed.insertAt_dropFirst`). -/

namespace Enclave

/-! ### Entries that are moved -/

/-- The entry that an edit puts first. -/
def Edit.moved? : Edit → Option Path
  | .prepend entry => some entry
  | .set _ _ => none
  | .unset _ => none

/-- The entry that a change is about. -/
def Change.moved? : Change → Option Path
  | .prepended entry _ => some entry
  | .overridden _ _ => none

namespace ResolutionContext

theorem moved?_changeOf (context : ResolutionContext) (edit : Edit) :
    (context.changeOf edit).moved? = edit.moved? := by
  cases edit <;> rfl

/-! ### Search paths -/

/-- Whether a search path differs from another one by moved entries only: the other entries are the
same and in the same order, nothing new is there but moved entries, and no entry is there more often
than before, unless it is there once. -/
structure Undisturbed (moved before after : List Path) : Prop where
  others : after.filter (fun path => !moved.any path.same) =
    before.filter (fun path => !moved.any path.same)
  known : ∀ path ∈ after, path ∈ before ∨ path ∈ moved
  count_le : ∀ entry, (after.map Path.components).count entry ≤
    max 1 ((before.map Path.components).count entry)

variable {moved before after : List Path} {entry : Path}

theorem Undisturbed.refl (moved path : List Path) : Undisturbed moved path path :=
  ⟨rfl, fun _ hmem => .inl hmem, fun _ => Nat.le_max_right _ _⟩

/-- A search path without double entries stays one. -/
theorem Undisturbed.nodup (h : Undisturbed moved before after)
    (hnodup : (before.map Path.components).Nodup) : (after.map Path.components).Nodup := by
  rw [List.nodup_iff_count_le_one] at hnodup ⊢
  intro entry
  have hle := h.count_le entry
  rwa [Nat.max_eq_left (hnodup entry)] at hle

/-- An entry stays unless it is one of the moved ones. -/
theorem Undisturbed.mem (h : Undisturbed moved before after) {path : Path} (hmem : path ∈ before)
    (hother : ∀ entry ∈ moved, ¬ path.same entry) : path ∈ after := by
  have hkept : path ∈ before.filter (fun path => !moved.any path.same) := by
    refine List.mem_filter.mpr ⟨hmem, ?_⟩
    rw [Bool.not_eq_true', List.any_eq_false]
    exact hother
  rw [← h.others] at hkept
  exact List.mem_of_mem_filter hkept

theorem filter_dropFirst (entry : Path) {keep : Path → Bool}
    (h : ∀ path : Path, path.same entry → keep path = false) (path : List Path) :
    (dropFirst entry path).filter keep = path.filter keep := by
  rw [dropFirst]
  induction path with
  | nil => rfl
  | cons first path ih =>
      by_cases hfirst : first.same entry
      · rw [List.eraseP_cons_of_pos (by exact hfirst), List.filter_cons_of_neg]
        simp [h first hfirst]
      · rw [List.eraseP_cons_of_neg (by exact hfirst), List.filter_cons, List.filter_cons, ih]

theorem filter_insertAt (index : Nat) {keep : Path → Bool} (h : keep entry = false)
    (path : List Path) : (insertAt index entry path).filter keep = path.filter keep := by
  rw [insertAt, List.filter_append, List.filter_cons_of_neg (by simp [h]), ← List.filter_append,
    List.take_append_drop]

theorem count_insertAt (index : Nat) (entry : Path) (path : List Path)
    (other : List Path.Component) :
    ((insertAt index entry path).map Path.components).count other =
      (path.map Path.components).count other + if entry.components == other then 1 else 0 := by
  rw [map_components_insertAt, List.count_append, List.count_cons, ← Nat.add_assoc,
    ← List.count_append, List.take_append_drop]

/-- Moved entries are not among the others. -/
theorem not_any_same (hmoved : entry ∈ moved) {path : Path} (h : path.same entry) :
    (!moved.any path.same) = false := by
  rw [Bool.not_eq_false', List.any_eq_true]
  exact ⟨entry, hmoved, h⟩

/-- Taking a moved entry away. -/
theorem Undisturbed.dropFirst (h : Undisturbed moved before after) (hmoved : entry ∈ moved) :
    Undisturbed moved before (dropFirst entry after) where
  others := (filter_dropFirst entry (fun _ hsame => not_any_same hmoved hsame) after).trans h.others
  known path hmem := h.known path (List.mem_of_mem_eraseP hmem)
  count_le other := by
    rw [map_components_dropFirst]
    exact Nat.le_trans (List.erase_sublist.count_le other) (h.count_le other)

/-- Taking a moved entry away and putting it back somewhere. -/
theorem Undisturbed.insertAt_dropFirst (h : Undisturbed moved before after)
    (hmoved : entry ∈ moved) (index : Nat) :
    Undisturbed moved before (insertAt index entry (ResolutionContext.dropFirst entry after)) where
  others := by
    rw [filter_insertAt index (not_any_same hmoved entry.same_refl)]
    exact (h.dropFirst hmoved).others
  known path hmem := by
    rcases List.mem_append.mp hmem with hfront | hback
    · exact (h.dropFirst hmoved).known path (List.mem_of_mem_take hfront)
    · rcases List.mem_cons.mp hback with rfl | hback
      · exact .inr hmoved
      · exact (h.dropFirst hmoved).known path (List.mem_of_mem_drop hback)
  count_le other := by
    have hle := h.count_le other
    rw [count_insertAt, map_components_dropFirst, List.count_erase]
    split <;> omega

/-! ### Edits and changes -/

variable {context : ResolutionContext}

theorem Undisturbed.apply (h : Undisturbed moved before context.searchPath) {edit : Edit}
    (hmoved : ∀ entry ∈ edit.moved?, entry ∈ moved) :
    Undisturbed moved before (context.apply edit).searchPath := by
  cases edit with
  | prepend entry => exact h.insertAt_dropFirst (hmoved entry rfl) 0
  | set key value => exact h
  | unset key => exact h

theorem Undisturbed.foldl_apply (h : Undisturbed moved before context.searchPath)
    {edits : List Edit} (hmoved : ∀ edit ∈ edits, ∀ entry ∈ edit.moved?, entry ∈ moved) :
    Undisturbed moved before (edits.foldl ResolutionContext.apply context).searchPath := by
  induction edits generalizing context with
  | nil => exact h
  | cons edit edits ih =>
      exact ih (h.apply (hmoved edit List.mem_cons_self)) fun other hother =>
        hmoved other (List.mem_cons_of_mem _ hother)

/-- A journal is about the entries that its edits put first. -/
theorem exists_edit_of_mem_changesOf {edits : List Edit} {change : Change}
    (h : change ∈ context.changesOf edits) : ∃ edit ∈ edits, change.moved? = edit.moved? := by
  induction edits generalizing context with
  | nil => cases h
  | cons edit edits ih =>
      rcases List.mem_cons.mp h with rfl | hrest
      · exact ⟨edit, List.mem_cons_self, moved?_changeOf context edit⟩
      · obtain ⟨other, hother, hmoved⟩ := ih hrest
        exact ⟨other, List.mem_cons_of_mem _ hother, hmoved⟩

theorem Undisturbed.revertChange (h : Undisturbed moved before context.searchPath)
    {change : Change} (hmoved : ∀ entry ∈ change.moved?, entry ∈ moved) :
    Undisturbed moved before (context.revertChange change).searchPath := by
  cases change with
  | prepended entry index =>
      cases index with
      | none => exact h.dropFirst (hmoved entry rfl)
      | some index => exact h.insertAt_dropFirst (hmoved entry rfl) index
  | overridden key previous => exact h

theorem Undisturbed.revert (h : Undisturbed moved before context.searchPath) {journal : Journal}
    (hmoved : ∀ change ∈ journal.changes, ∀ entry ∈ change.moved?, entry ∈ moved) :
    Undisturbed moved before (context.revert journal).searchPath := by
  obtain ⟨changes⟩ := journal
  induction changes with
  | nil => exact h
  | cons change changes ih =>
      rw [revert_cons]
      exact (ih fun other hother => hmoved other (List.mem_cons_of_mem _ hother)).revertChange
        (hmoved change List.mem_cons_self)

/-! ### Sessions -/

/-- A context, and the journals that were kept so far by their numbers. -/
structure Session where
  context : ResolutionContext
  journals : Nat → Journal

/-- What can be done in a session. -/
inductive Session.Action
  /-- To make an edit and record it in a journal. -/
  | edit (number : Nat) (edit : Edit)
  /-- To undo a journal, which is kept. -/
  | revert (number : Nat)

namespace Session

/-- A session without any records. -/
def start (context : ResolutionContext) : Session :=
  ⟨context, fun _ => {}⟩

/-- The session after an action. -/
def perform (session : Session) : Action → Session
  | .edit number edit =>
      let (context, journal) :=
        ResolutionContext.edit (session.context, session.journals number) edit
      ⟨context, fun other => if other = number then journal else session.journals other⟩
  | .revert number =>
      { session with context := session.context.revert (session.journals number) }

/-- The session after several actions. -/
def performAll (session : Session) (actions : List Action) : Session :=
  actions.foldl perform session

/-- The entries that actions put first. -/
def prepended (actions : List Action) : List Path :=
  actions.filterMap fun
    | .edit _ edit => edit.moved?
    | .revert _ => none

/-- Whether a search path was not disturbed, and the journals are about moved entries only. -/
structure Admits (session : Session) (moved before : List Path) : Prop where
  path : Undisturbed moved before session.context.searchPath
  journals : ∀ number, ∀ change ∈ (session.journals number).changes,
    ∀ entry ∈ change.moved?, entry ∈ moved

theorem Admits.perform {session : Session} (h : session.Admits moved before) {action : Action}
    (hmoved : ∀ entry ∈ prepended [action], entry ∈ moved) :
    (session.perform action).Admits moved before := by
  cases action with
  | edit number edit =>
      have hedit : ∀ entry ∈ edit.moved?, entry ∈ moved := fun entry hentry =>
        hmoved entry (List.mem_filterMap.mpr ⟨_, List.mem_singleton.mpr rfl, hentry⟩)
      refine ⟨h.path.apply hedit, fun other change hchange => ?_⟩
      simp only [Session.perform] at hchange
      split at hchange
      · rcases List.mem_append.mp hchange with hold | hnew
        · exact h.journals number change hold
        · rw [List.mem_singleton.mp hnew, moved?_changeOf]
          exact hedit
      · exact h.journals other change hchange
  | revert number => exact ⟨h.path.revert (h.journals number), h.journals⟩

theorem Admits.performAll {session : Session} (h : session.Admits moved before)
    {actions : List Action} (hmoved : ∀ entry ∈ prepended actions, entry ∈ moved) :
    (session.performAll actions).Admits moved before := by
  induction actions generalizing session with
  | nil => exact h
  | cons action actions ih =>
      have hsplit : prepended (action :: actions) = prepended [action] ++ prepended actions :=
        List.filterMap_append (l := [action])
      rw [hsplit] at hmoved
      exact ih (h.perform fun entry hentry => hmoved entry (List.mem_append_left _ hentry))
        fun entry hentry => hmoved entry (List.mem_append_right _ hentry)

/-- **Whatever is edited and undone, the rest of the search path is not disturbed**, and a search
path without double entries stays one. -/
theorem undisturbed_performAll (context : ResolutionContext) (actions : List Action) :
    Undisturbed (prepended actions) context.searchPath
        ((start context).performAll actions).context.searchPath ∧
      (context.entries.Nodup → ((start context).performAll actions).context.entries.Nodup) := by
  have hstart : (start context).Admits (prepended actions) context.searchPath :=
    ⟨.refl _ _, nofun⟩
  have hpath := (hstart.performAll fun _ hentry => hentry).path
  exact ⟨hpath, hpath.nodup⟩

end Session
end ResolutionContext
end Enclave
