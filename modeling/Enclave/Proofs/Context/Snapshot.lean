import Enclave.Proofs.Context.Application
import Enclave.Proofs.FileSystem.Paths

/-! # Contexts of the process

The context of the process holds the search path byte for byte (`searchPathText?_ofEnviron`), and so
does the environment of a child that it is applied to.  Applied to the process itself, it replaces a
search path that is no text, and it sets one where none was set (`same_applied_iff`). -/

namespace Enclave.ResolutionContext

variable {env : Environ}

/-- The search path of an environment; one that is not set counts as empty. -/
def searchPathOf (env : Environ) : Bytes :=
  (env.get? Variable.searchPath).getD []

/-- The entries of the context of the process are joined to the search path that was split. -/
theorem searchPathText?_ofEnviron (env : Environ) :
    (ofEnviron env).searchPathText? = some (searchPathOf env) := by
  rw [ofEnviron, searchPathOf]
  cases env.get? Variable.searchPath with
  | none => rfl
  | some bytes =>
      refine searchPathText?_eq_some_iff.mpr ⟨fun entry hentry => ?_, ?_⟩
      · obtain ⟨part, hpart, rfl⟩ := List.mem_map.mp hentry
        exact Bytes.not_mem_of_mem_splitOn hpart
      · change bytes = Bytes.joinWith Path.colon ((Path.splitSearchPath bytes).map Path.bytes)
        rw [Path.splitSearchPath, List.map_map]
        exact ((congrArg _ (List.map_id _)).trans (Bytes.joinWith_splitOn _ bytes)).symm

theorem overrideAssignments_ofEnviron (env : Environ) :
    (ofEnviron env).overrideAssignments = [] := by
  rw [ofEnviron]
  split <;> simp [overrideAssignments, sortedOverrides, Table.sorted, ofSearchPath, Table.empty]

/-! ### In a child -/

theorem childVariables?_ofEnviron (env : Environ) :
    (ofEnviron env).childVariables? =
      some (.ofList [(Variable.searchPath, some (searchPathOf env))]) := by
  rw [childVariables?, searchPathText?_ofEnviron, overrideAssignments_ofEnviron]
  rfl

theorem same_put_iff {value : Bytes} :
    (env.put Variable.searchPath (some value)).Same env ↔
      env.get? Variable.searchPath = some value := by
  refine ⟨fun hsame => ?_, fun hvalue key => ?_⟩
  · rw [← hsame, Table.get?_put, beq_self_eq_true, if_pos rfl]
  · rw [Table.get?_put]
    split
    · next heq => rw [eq_of_beq heq, hvalue]
    · rfl

/-- A child gets every search path that is set, whatever its bytes are. -/
theorem same_environ_child_iff (env : Environ) (program : Path) (arguments : List Bytes) :
    (ChildCommand.environ
        ⟨program, arguments, .ofList [(Variable.searchPath, some (searchPathOf env))]⟩ env).Same
      env ↔ (env.get? Variable.searchPath).isSome := by
  change (env.put Variable.searchPath (some (searchPathOf env))).Same env ↔ _
  rw [same_put_iff, searchPathOf]
  cases env.get? Variable.searchPath <;> simp

/-! ### In the process -/

theorem processAssignments?_ofEnviron (env : Environ) :
    (ofEnviron env).processAssignments? =
      some [(Variable.searchPath, some (Bytes.ofText (searchPathOf env).display))] := by
  rw [processAssignments?, searchPathText?_ofEnviron, overrideAssignments_ofEnviron]
  rfl

theorem assignAll_ofEnviron (hnul : 0 ∉ searchPathOf env) :
    Environ.assignAll env
        [(Variable.searchPath, some (Bytes.ofText (searchPathOf env).display))] =
      (none, env.put Variable.searchPath (some (Bytes.ofText (searchPathOf env).display))) := by
  refine Environ.assignAll_eq_putAll env fun assignment hmem => ?_
  obtain rfl := List.mem_singleton.mp hmem
  exact ⟨validKey_searchPath, Environ.validValue_ofText_iff.mpr (Bytes.nul_not_mem_display hnul)⟩

/-- The text of a search path is the search path exactly if one is set that is a text. -/
theorem get?_eq_display_iff :
    env.get? Variable.searchPath = some (Bytes.ofText (searchPathOf env).display) ↔
      ∃ text, env.get? Variable.searchPath = some (Bytes.ofText text) := by
  refine ⟨fun hget => ⟨_, hget⟩, fun ⟨text, hget⟩ => ?_⟩
  rw [searchPathOf, hget, Option.getD_some, Bytes.display_ofText]

/-- **Putting the context of the process into effect unchanged**, in an environment whose search path
holds no NUL.  In the process nothing is refused and no other variable is touched, but the search path
is written as a text: the environment stays the same exactly if a search path is set that is a text.
In the environment of a child it stays the same for every search path that is set. -/
theorem same_applied_iff (hnul : 0 ∉ searchPathOf env) :
    ∃ assignments after changes, (ofEnviron env).processAssignments? = some assignments ∧
      Environ.assignAll env assignments = (none, after) ∧
      (∀ key, key ≠ Variable.searchPath → after.get? key = env.get? key) ∧
      after.get? Variable.searchPath = some (Bytes.ofText (searchPathOf env).display) ∧
      (after.Same env ↔ ∃ text, env.get? Variable.searchPath = some (Bytes.ofText text)) ∧
      (ofEnviron env).childVariables? = some changes ∧
      ∀ program arguments, (ChildCommand.environ ⟨program, arguments, changes⟩ env).Same env ↔
        (env.get? Variable.searchPath).isSome := by
  refine ⟨_, _, _, processAssignments?_ofEnviron env, assignAll_ofEnviron hnul, fun key hkey => ?_,
    ?_, same_put_iff.trans get?_eq_display_iff, childVariables?_ofEnviron env,
    same_environ_child_iff env⟩
  · rw [Table.get?_put, beq_eq_false_iff_ne.mpr hkey]
    rfl
  · rw [Table.get?_put, beq_self_eq_true, if_pos rfl]

/-- A process environment with nothing but a search path. -/
def withSearchPath (bytes : Bytes) : Environ :=
  .ofList [(Variable.searchPath, bytes)]

theorem same_applied_iff_text :
    let env := withSearchPath (Bytes.ofText ":/usr/bin::é")
    0 ∉ searchPathOf env ∧ ∃ assignments after,
      (ofEnviron env).processAssignments? = some assignments ∧
        Environ.assignAll env assignments = (none, after) ∧ after.Same env := by
  intro env
  have hnul : 0 ∉ searchPathOf env := by decide
  obtain ⟨assignments, after, _, hassignments, hassign, _, _, hsame, _⟩ := same_applied_iff hnul
  exact ⟨hnul, assignments, after, hassignments, hassign, hsame.mpr ⟨_, rfl⟩⟩

/-- Whether the context of the process, put into effect unchanged, leaves another environment. -/
def Disturbs (env : Environ) : Prop :=
  ∃ assignments after, (ofEnviron env).processAssignments? = some assignments ∧
    Environ.assignAll env assignments = (none, after) ∧ ¬ after.Same env

theorem disturbs_of_not_text (hnul : 0 ∉ searchPathOf env)
    (htext : ∀ text, env.get? Variable.searchPath ≠ some (Bytes.ofText text)) : Disturbs env := by
  refine ⟨_, _, processAssignments?_ofEnviron env, assignAll_ofEnviron hnul, fun hsame => ?_⟩
  obtain ⟨text, hget⟩ := get?_eq_display_iff.mp (same_put_iff.mp hsame)
  exact htext text hget

/-- The environment does not stay the same where the search path is no text, nor where none is set. -/
theorem not_same_applied : Disturbs (withSearchPath [0x2F, 0xFF]) ∧ Disturbs .empty := by
  constructor
  · refine disturbs_of_not_text (by decide) fun text hget => ?_
    have hnone : Bytes.text? [0x2F, 0xFF] = none := by decide +kernel
    have hsome := Bytes.text?_eq_some_iff.mpr (Option.some.inj hget)
    exact Option.some_ne_none text (hsome.symm.trans hnone)
  · exact disturbs_of_not_text (by decide) fun _ => (Option.some_ne_none _).symm

end Enclave.ResolutionContext
