import Enclave.Context.Use
import Enclave.Process.Command
import Enclave.Proofs.Context.Undo
import Enclave.Proofs.Environ

/-! # Putting a context into effect

A context can be put into effect in the process, in a child and in a shell, and programs can be
looked up in it, exactly where its search path has a text, that is where no entry contains the
separator (`usable_of_colon_not_mem`, `stuck_of_colon_mem`).  The text is split back into the
entries.  In the process a variable can still be refused, unless keys and values are admissible
(`Writable.assignAll_eq`). -/

namespace Enclave

/-- A child gets the environment of the process with the assignments in their order. -/
theorem ChildCommand.environ_eq (command : ChildCommand) (inherited : Environ) :
    command.environ inherited = inherited.putAll command.overrides.entries := rfl

namespace ResolutionContext

variable {context : ResolutionContext} {text : Bytes}

/-! ### Joining -/

theorem searchPathText?_eq_some_iff :
    context.searchPathText? = some text ↔
      (∀ entry ∈ context.searchPath, Path.colon ∉ entry.bytes) ∧
        text = Bytes.joinWith Path.colon (context.searchPath.map Path.bytes) := by
  rw [searchPathText?, Path.joinSearchPath?]
  split
  · next hany =>
      obtain ⟨entry, hentry, hcolon⟩ := List.any_eq_true.mp hany
      exact iff_of_false (fun h => by cases h) fun h => h.1 entry hentry (List.contains_iff_mem.mp hcolon)
  · next hany =>
      rw [Option.some.injEq, eq_comm]
      refine (and_iff_right fun entry hentry hcolon => hany ?_).symm
      exact List.any_eq_true.mpr ⟨entry, hentry, List.contains_iff_mem.mpr hcolon⟩

theorem searchPathText?_eq_none_iff :
    context.searchPathText? = none ↔ ∃ entry ∈ context.searchPath, Path.colon ∈ entry.bytes := by
  rw [Option.eq_none_iff_forall_ne_some]
  constructor
  · intro h
    by_contra hnone
    exact h _ (searchPathText?_eq_some_iff.mpr
      ⟨fun entry hentry hcolon => hnone ⟨entry, hentry, hcolon⟩, rfl⟩)
  · rintro ⟨entry, hentry, hcolon⟩ text htext
    exact (searchPathText?_eq_some_iff.mp htext).1 entry hentry hcolon

private theorem exists_ofText_joinWith {parts : List Bytes}
    (h : ∀ part ∈ parts, ∃ text, part = Bytes.ofText text) :
    ∃ text, Bytes.joinWith Path.colon parts = Bytes.ofText text := by
  induction parts with
  | nil => exact ⟨"", rfl⟩
  | cons part parts ih =>
      obtain ⟨first, rfl⟩ := h part List.mem_cons_self
      cases parts with
      | nil => exact ⟨first, rfl⟩
      | cons next rest =>
          obtain ⟨more, hmore⟩ := ih fun part hpart => h part (List.mem_cons_of_mem _ hpart)
          refine ⟨first ++ (":" ++ more), ?_⟩
          rw [Bytes.ofText_append, Bytes.ofText_append, ← hmore]
          rfl

/-- The text of a search path is Unicode if its entries are, and then it is shown as it is. -/
theorem ofText_display_of_searchPathText? (h : context.searchPathText? = some text)
    (hentries : ∀ entry ∈ context.searchPath, entry.bytes.text?.isSome) :
    Bytes.ofText text.display = text := by
  obtain ⟨_, rfl⟩ := searchPathText?_eq_some_iff.mp h
  have hparts : ∀ part ∈ context.searchPath.map Path.bytes, ∃ text, part = Bytes.ofText text := by
    intro part hpart
    obtain ⟨entry, hentry, rfl⟩ := List.mem_map.mp hpart
    exact (Option.isSome_iff_exists.mp (hentries entry hentry)).imp fun _ =>
      Bytes.text?_eq_some_iff.mp
  obtain ⟨whole, hwhole⟩ := exists_ofText_joinWith hparts
  rw [hwhole, Bytes.display_ofText]

/-- The text of a search path is split back into its entries. -/
theorem splitSearchPath_of_searchPathText? (hne : context.searchPath ≠ [])
    (h : context.searchPathText? = some text) :
    Path.splitSearchPath text = context.searchPath := by
  obtain ⟨hcolon, rfl⟩ := searchPathText?_eq_some_iff.mp h
  have hparts : ∀ part ∈ context.searchPath.map Path.bytes, Path.colon ∉ part := by
    intro part hpart
    obtain ⟨entry, hentry, rfl⟩ := List.mem_map.mp hpart
    exact hcolon entry hentry
  rw [Path.splitSearchPath, Bytes.splitOn_joinWith _ (by simpa using hne) hparts, List.map_map]
  exact List.map_id _

/-! ### Use -/

/-- Whether every use of a context succeeds: its search path has a text that is split back into the
search path, there are statements for a shell and assignments for a child and for the process, and
looking up a program goes through the search path. -/
structure Usable (context : ResolutionContext) : Prop where
  text : ∃ text, context.searchPathText? = some text ∧
    Path.splitSearchPath text = context.searchPath
  statements : ∃ statements, context.shellStatements = .ok statements
  child : ∃ changes, context.childVariables? = some changes
  process : ∃ assignments, context.processAssignments? = some assignments
  lookup : ∀ world program,
    context.resolve world program = findProgram world (.ofText program) context.searchPath

/-- Whether every use of a context fails. -/
structure Stuck (context : ResolutionContext) : Prop where
  text : context.searchPathText? = none
  statements : ∃ failure, context.shellStatements = .error failure
  child : context.childVariables? = none
  process : context.processAssignments? = none
  lookup : ∀ world program, context.resolve world program = none

theorem usable_of_colon_not_mem (hne : context.searchPath ≠ [])
    (h : ∀ entry ∈ context.searchPath, Path.colon ∉ entry.bytes) : context.Usable := by
  have htext := searchPathText?_eq_some_iff.mpr ⟨h, rfl⟩
  have hsplit := splitSearchPath_of_searchPathText? hne htext
  refine ⟨⟨_, htext, hsplit⟩, ?_, ?_, ?_, fun world program => ?_⟩
  · simp [shellStatements, htext]
  · simp [childVariables?, htext]
  · simp [processAssignments?, htext]
  · rw [resolve, htext, Option.bind_some, hsplit]

theorem stuck_of_colon_mem {entry : Path} (hentry : entry ∈ context.searchPath)
    (h : Path.colon ∈ entry.bytes) : context.Stuck := by
  have htext := searchPathText?_eq_none_iff.mpr ⟨entry, hentry, h⟩
  refine ⟨htext, ?_, ?_, ?_, fun world program => ?_⟩
  · simp [shellStatements, htext]
  · simp [childVariables?, htext]
  · simp [processAssignments?, htext]
  · rw [resolve, htext, Option.bind_none]

/-! ### Refusals -/

/-- Whether nothing in a context is refused when it is put into effect in the process. -/
structure Writable (context : ResolutionContext) : Prop where
  entries : ∀ entry ∈ context.searchPath, 0 ∉ entry.bytes
  overrides : ∀ override ∈ context.overrides.entries,
    Environ.validKey override.1 ∧ ∀ value, override.2 = some value → '\x00' ∉ value.toList

theorem validKey_searchPath : Environ.validKey Variable.searchPath :=
  Environ.validKey_iff.mpr (by decide)

theorem Writable.nul_not_mem_text (h : context.Writable)
    (htext : context.searchPathText? = some text) : 0 ∉ text := by
  obtain ⟨_, rfl⟩ := searchPathText?_eq_some_iff.mp htext
  intro hzero
  rcases Bytes.mem_joinWith hzero with hcolon | ⟨part, hpart, hmem⟩
  · cases hcolon
  · obtain ⟨entry, hentry, rfl⟩ := List.mem_map.mp hpart
    exact h.entries entry hentry hmem

theorem Writable.admissible (h : context.Writable) {assignments : List (String × Option Bytes)}
    (hsome : context.processAssignments? = some assignments) :
    ∀ assignment ∈ assignments, Environ.Admissible assignment := by
  obtain ⟨text, htext, rfl⟩ := Option.map_eq_some_iff.mp hsome
  intro assignment hmem
  rcases List.mem_cons.mp hmem with rfl | hmem
  · refine ⟨validKey_searchPath, ?_⟩
    exact Environ.validValue_ofText_iff.mpr (Bytes.nul_not_mem_display (h.nul_not_mem_text htext))
  · obtain ⟨⟨key, value⟩, hoverride, rfl⟩ := List.mem_map.mp hmem
    obtain ⟨hkey, hvalue⟩ := h.overrides (key, value) (List.mem_mergeSort.mp hoverride)
    refine ⟨hkey, ?_⟩
    cases value with
    | none => rfl
    | some value => exact Environ.validValue_ofText_iff.mpr (hvalue value rfl)

/-- In the process nothing of a context is refused whose entries, keys and values are admissible. -/
theorem Writable.assignAll_eq (h : context.Writable) {assignments : List (String × Option Bytes)}
    (hsome : context.processAssignments? = some assignments) (env : Environ) :
    Environ.assignAll env assignments = (none, env.putAll assignments) :=
  Environ.assignAll_eq_putAll env (h.admissible hsome)

/-! ### Edits -/

/-- Whether an edit puts nothing into a context that is refused. -/
def IsWritable : Edit → Prop
  | .prepend entry => 0 ∉ entry.bytes
  | .set key value => Environ.validKey key ∧ '\x00' ∉ value.toList
  | .unset key => Environ.validKey key

theorem Writable.setOverride (h : context.Writable) {key : String} {value : Option String}
    (hkey : Environ.validKey key) (hvalue : ∀ text, value = some text → '\x00' ∉ text.toList) :
    (context.setOverride key value).Writable := by
  refine ⟨h.entries, fun override hoverride => ?_⟩
  rcases Table.mem_entries_set hoverride with rfl | hold
  · exact ⟨hkey, hvalue⟩
  · exact h.overrides override hold

theorem Writable.apply (h : context.Writable) {edit : Edit} (hedit : IsWritable edit) :
    (context.apply edit).Writable := by
  cases edit with
  | prepend entry =>
      refine ⟨fun other hother => ?_, h.overrides⟩
      rcases List.mem_cons.mp hother with rfl | hold
      · exact hedit
      · exact h.entries other (List.mem_of_mem_eraseP hold)
  | set key value =>
      refine h.setOverride hedit.1 ?_
      rintro text ⟨⟩
      exact hedit.2
  | unset key => exact h.setOverride hedit nofun

theorem Writable.applyAll (h : context.Writable) {edits : List Edit}
    (hedits : ∀ edit ∈ edits, IsWritable edit) : (context.applyAll edits).1.Writable := by
  rw [ResolutionContext.applyAll_eq]
  induction edits generalizing context with
  | nil => exact h
  | cons edit rest ih =>
      exact ih (h.apply (hedits edit List.mem_cons_self))
        fun other hother => hedits other (List.mem_cons_of_mem _ hother)

/-- Edits keep at most one override for each variable. -/
theorem distinct_overrides_applyAll (h : context.overrides.Distinct) (edits : List Edit) :
    (context.applyAll edits).1.overrides.Distinct := by
  rw [ResolutionContext.applyAll_eq]
  induction edits generalizing context with
  | nil => exact h
  | cons edit rest ih =>
      refine ih ?_
      cases edit with
      | prepend => exact h
      | set key value => exact h.set key (some value)
      | unset key => exact h.set key none

end ResolutionContext
end Enclave
