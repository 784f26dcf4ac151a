import Enclave.Settings.Environment

/-! # Variables with other names

Of the variables for one setting the first that is set to a text decides, and if its text is blank
the setting is missing (`optionalText_eq_some_iff`).  So a blank variable is not passed over as one
that is not set is: it hides whatever the ones after it hold (`optionalText_chain`). -/

namespace Enclave.Settings

open Text

variable {env : Environ} {names : List String} {name text value : String}

/-! ### Blank variables -/

/-- A text that is not blank, trimmed. -/
def nonblank? (value : String) : Option String :=
  if trimmed value = "" then none else some (trimmed value)

/-- The trimmed text of a variable that is set to a text which is not blank. -/
def filled? (env : Environ) (name : String) : Option String :=
  (env.text? name).bind nonblank?

/-- The first text that is not blank, trimmed. -/
def firstFilled (env : Environ) (names : List String) : Option String :=
  names.findSome? (filled? env)

theorem nonblank?_eq_none_iff : nonblank? value = none ↔ trimmed value = "" := by
  rw [nonblank?]
  split
  · next hblank => exact iff_of_true rfl hblank
  · next hfilled => exact iff_of_false nofun hfilled

theorem filled?_of_none (h : env.text? name = none) : filled? env name = none := by
  rw [filled?, h, Option.bind_none]

theorem filled?_of_some (h : env.text? name = some value) : filled? env name = nonblank? value := by
  rw [filled?, h, Option.bind_some]

/-! ### The first text -/

theorem optionalText_eq_bind (env : Environ) (names : List String) :
    optionalText env names = (firstText env names).bind nonblank? := by
  rw [optionalText]
  cases firstText env names <;> rfl

theorem firstText_eq_some_iff :
    firstText env names = some value ↔
      ∃ before name after, names = before ++ name :: after ∧ env.text? name = some value ∧
        ∀ other ∈ before, env.text? other = none :=
  List.findSome?_eq_some_iff

/-- A setting is the trimmed text of the first variable that is set to a text, unless that is
blank. -/
theorem optionalText_eq_some_iff :
    optionalText env names = some text ↔
      ∃ before name after, names = before ++ name :: after ∧ filled? env name = some text ∧
        ∀ other ∈ before, env.text? other = none := by
  rw [optionalText_eq_bind, Option.bind_eq_some_iff]
  constructor
  · rintro ⟨value, hfirst, hvalue⟩
    obtain ⟨before, name, after, hnames, hname, hbefore⟩ := firstText_eq_some_iff.mp hfirst
    exact ⟨before, name, after, hnames, (filled?_of_some hname).trans hvalue, hbefore⟩
  · rintro ⟨before, name, after, hnames, hfilled, hbefore⟩
    obtain ⟨value, hname, hvalue⟩ := Option.bind_eq_some_iff.mp hfilled
    exact ⟨value, firstText_eq_some_iff.mpr ⟨before, name, after, hnames, hname, hbefore⟩, hvalue⟩

theorem firstFilled_of_none (h : firstText env names = none) : firstFilled env names = none := by
  rw [firstFilled, List.findSome?_eq_none_iff]
  exact fun name hname => filled?_of_none (List.findSome?_eq_none_iff.mp h name hname)

/-- A setting that is there is the first text that is not blank. -/
theorem firstFilled_of_optionalText (h : optionalText env names = some text) :
    firstFilled env names = some text := by
  obtain ⟨before, name, after, hnames, hfilled, hbefore⟩ := optionalText_eq_some_iff.mp h
  refine List.findSome?_eq_some_iff.mpr ⟨before, name, after, hnames, hfilled, ?_⟩
  exact fun other hother => filled?_of_none (hbefore other hother)

/-! ### Hidden variables -/

/-- Whether the first variable that is set to a text is blank although another one is not. -/
def Hides (env : Environ) (names : List String) : Prop :=
  (∃ value, firstText env names = some value ∧ trimmed value = "") ∧ (firstFilled env names).isSome

theorem hides_iff :
    Hides env names ↔ optionalText env names = none ∧ (firstFilled env names).isSome := by
  rw [Hides, optionalText_eq_bind]
  refine and_congr_left fun hfilled => ?_
  cases hfirst : firstText env names with
  | none =>
      rw [firstFilled_of_none hfirst] at hfilled
      cases hfilled
  | some value => simp [nonblank?_eq_none_iff]

theorem optionalText_eq_firstFilled_iff :
    optionalText env names = firstFilled env names ↔ ¬ Hides env names := by
  rw [hides_iff]
  cases hoptional : optionalText env names with
  | some text => simp [firstFilled_of_optionalText hoptional]
  | none => cases firstFilled env names <;> simp

/-- What a variable and another name for it come to: the other one counts only if the variable is not
set to a text. -/
def either? (env : Environ) (name other : String) : Option String :=
  if (env.text? name).isSome then filled? env name else filled? env other

theorem optionalText_pair (env : Environ) (name other : String) :
    optionalText env [name, other] = either? env name other := by
  rw [optionalText_eq_bind, either?]
  cases hname : env.text? name with
  | some value =>
      rw [firstText_cons_of_some _ hname, filled?_of_some hname]
      rfl
  | none =>
      rw [firstText_cons_of_none _ hname, if_neg nofun, filled?]
      cases hother : env.text? other with
      | some value => rw [firstText_cons_of_some _ hother]
      | none =>
          rw [firstText_cons_of_none _ hother]
          rfl

/-- **Blank variables hide their other names.**  For any variables, a setting is the trimmed text of
the first one that is set to a text, and it is missing exactly if none of them is set to a text or
that text is blank.  That is the first text that is not blank exactly if no blank one comes before it.
So if the variable for the root or for the interpreter is blank, the current directory is the root, or
there is no interpreter, whatever the other names for them hold. -/
theorem optionalText_chain (world : World) :
    (∀ names text, optionalText world.environ names = some text ↔
      ∃ before name after, names = before ++ name :: after ∧
        filled? world.environ name = some text ∧
        ∀ other ∈ before, world.environ.text? other = none) ∧
    (∀ names, optionalText world.environ names = none ↔
      (∀ name ∈ names, world.environ.text? name = none) ∨
        ∃ value, firstText world.environ names = some value ∧ trimmed value = "") ∧
    (∀ names, optionalText world.environ names = firstFilled world.environ names ↔
      ¬ Hides world.environ names) ∧
    (EnvironmentSettings.fromWorld world).1.root =
      (either? world.environ Variable.root Variable.rootAlias).elim world.currentDirectoryOrDot
        Path.ofText ∧
    (EnvironmentSettings.fromWorld world).1.interpreter =
      either? world.environ Variable.interpreter Variable.interpreterAlias := by
  refine ⟨fun names text => optionalText_eq_some_iff, fun names => ?_,
    fun names => optionalText_eq_firstFilled_iff, ?_, optionalText_pair _ _ _⟩
  · rw [optionalText_eq_bind, ← List.findSome?_eq_none_iff]
    change _ ↔ firstText world.environ names = none ∨ _
    cases firstText world.environ names with
    | none => simp
    | some value => simp [nonblank?_eq_none_iff]
  · rw [← optionalText_pair, EnvironmentSettings.fromWorld]
    dsimp only
    cases optionalText world.environ [Variable.root, Variable.rootAlias] <;> rfl

/-- A process environment in which a blank variable stands before another name for the root. -/
def blankRoot : Environ :=
  .ofList [(Variable.root, Bytes.ofText " "), (Variable.rootAlias, Bytes.ofText "/envs")]

/-- A setting is not always the first text that is not blank. -/
theorem not_optionalText_eq_firstFilled :
    ¬ ∀ (env : Environ) (name : String) (others : List String),
      optionalText env (name :: others) = firstFilled env (name :: others) := by
  intro h
  have hsame := h blankRoot Variable.root [Variable.rootAlias]
  revert hsame
  decide +kernel

end Enclave.Settings
