import Enclave.Text.Blank
import Enclave.World

/-! # Reading single settings from variables

A setting has a primary variable and other names for it.  The first of these variables that is set
to a text decides (`firstText`); whether an empty or blank text counts is up to the kind of
setting. -/

namespace Enclave.Settings

open Text

/-- The value of the first variable that is set to a text. -/
def firstText (env : Environ) (names : List String) : Option String :=
  names.findSome? env.text?

/-- A text; an empty one counts as unset and gives the default. -/
def textOr (env : Environ) (names : List String) (default : String) : String :=
  match firstText env names with
  | some value => if value = "" then default else value
  | none => default

/-- A trimmed text; a blank one counts as unset. -/
def optionalText (env : Environ) (names : List String) : Option String :=
  match firstText env names with
  | some value => if trimmed value = "" then none else some (trimmed value)
  | none => none

/-- The texts that turn a flag off. -/
def offWords : List String := ["0", "false", "no", "off"]

/-- A flag: off for the words above in any letter case, on for any other text. -/
def flag (env : Environ) (names : List String) (default : Bool) : Bool :=
  match firstText env names with
  | some value => !offWords.contains (lowered (trimmed value))
  | none => default

/-- The report about a number that cannot be read. -/
def badNumber (name value : String) (default : Nat) : Event :=
  ⟨.warn, .loader, s!"Invalid {name}: {value}, using default ({default})", []⟩

/-- A number of at most 64 bits.  Anything else is reported and gives the default. -/
def number (env : Environ) (primary : String) (others : List String) (default : Nat) :
    Nat × List Event :=
  match optionalText env (primary :: others) with
  | none => (default, [])
  | some value =>
      match bounded? maxSeconds value with
      | some n => (n, [])
      | none => (default, [badNumber primary value default])

/-! ### Laws -/

theorem firstText_cons_of_some {env : Environ} {name value : String} (others : List String)
    (h : env.text? name = some value) : firstText env (name :: others) = some value := by
  simp [firstText, h]

theorem firstText_cons_of_none {env : Environ} {name : String} (others : List String)
    (h : env.text? name = none) : firstText env (name :: others) = firstText env others := by
  simp [firstText, h]

end Enclave.Settings
