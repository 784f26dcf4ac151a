import Enclave.Program.Activate
import Enclave.Proofs.Bytes
import Enclave.Proofs.CommandLine.Variables
import Enclave.Proofs.Text

/-! # Settings from the command line and from variables

A command that activates an environment uses what was typed and, for what was not typed, what the
library computes from the process environment (`Choice.expected`), with two exceptions: a root and a
name that were not typed are taken from their variables as they are, whatever the library makes of
them (`choice_of_parse`).  So a padded or blank root and an empty name are used, and an empty root is
refused, where the library trims, or falls back to a default. -/

namespace Enclave.Program

open CommandLine (Arguments Target Task UsageError)

variable {world : World} {arguments : List String} {typed given : Arguments} {target : Target}

/-- The target of a task that activates an environment. -/
def targetOf? : Task → Option Target
  | .activate target _ _ => some target
  | .run target _ => some target
  | .freeze name system => some (existing name system)
  | .list => none
  | .clean _ _ => none

/-- The settings that decide about an activation.  There is no name if the system is activated. -/
structure Choice where
  root : Path
  name : Option String
  interpreter : Option String
  provisionSeconds : Nat
  lockSeconds : Nat
  lockMode : LockMode
deriving DecidableEq, Repr

namespace Choice

/-- What a command uses that asks for a root and a target. -/
def used (root : Option Path) (target : Target) (world : World) : Choice :=
  let settings := (settingsFor root target world).1
  let descriptor := descriptorOf settings target
  { root := settings.root
    name := if descriptor.mode = .isolated then some descriptor.name else none
    interpreter := settings.interpreter
    provisionSeconds := settings.provisionSeconds
    lockSeconds := settings.lockSeconds
    lockMode := settings.lockMode }

/-- What was typed and, for what was not typed, what the library computes. -/
def expected (root : Option Path) (target : Target) (library : EnvironmentSettings) : Choice where
  root := root.getD library.root
  name := if target.system then none else some (target.name.getD library.defaultName)
  interpreter := target.interpreter <|> library.interpreter
  provisionSeconds := target.provisionSeconds.getD library.provisionSeconds
  lockSeconds := target.lockSeconds.getD library.lockSeconds
  lockMode := target.lockMode.getD library.lockMode

theorem used_eq_expected (root : Option Path) (target : Target) (world : World) :
    used root target world = expected root target (EnvironmentSettings.fromWorld world).1 := by
  cases hsystem : target.system <;>
    simp [used, expected, settingsFor, EnvironmentSettings.override, descriptorOf, hsystem,
      Descriptor.system]

end Choice

/-! ### The root -/

/-- The path of the current directory has a character that is not blank. -/
theorem exists_mem_currentDirectoryOrDot (world : World) :
    ∃ b ∈ world.currentDirectoryOrDot.bytes, b = Path.slash ∨ b = 0x2E := by
  rw [World.currentDirectoryOrDot, World.currentDirectory]
  split
  · next path hpath =>
      split at hpath
      · obtain rfl := Except.ok.inj hpath
        rw [Location.path]
        cases world.cwd with
        | nil => exact ⟨Path.slash, List.mem_singleton.mpr rfl, .inl rfl⟩
        | cons name rest => exact ⟨Path.slash, List.mem_cons_self, .inl rfl⟩
      · cases hpath
  · exact ⟨0x2E, List.mem_singleton.mpr rfl, .inr rfl⟩

/-- Whether the library takes the root from its variable as it is, if the variable is set.  A text is
trimmed; what is no text counts as unset. -/
def KeepsRoot (world : World) : Prop :=
  ∀ value, world.environ.get? Variable.root = some value →
    match value.text? with
    | some text => Text.trimmed text = text
    | none => (EnvironmentSettings.fromWorld world).1.root = ⟨value⟩

/-- The root that the library computes if the variable is set to a text. -/
theorem root_fromWorld {text : String} (h : world.environ.text? Variable.root = some text) :
    (EnvironmentSettings.fromWorld world).1.root =
      if Text.trimmed text = "" then world.currentDirectoryOrDot
      else .ofText (Text.trimmed text) := by
  have hroot : (EnvironmentSettings.fromWorld world).1.root =
      match Settings.optionalText world.environ [Variable.root, Variable.rootAlias] with
      | some text => Path.ofText text
      | none => world.currentDirectoryOrDot := rfl
  rw [hroot, Settings.optionalText, Settings.firstText_cons_of_some _ h]
  by_cases hblank : Text.trimmed text = ""
  · simp only [hblank, if_true]
  · simp only [hblank, if_false]

theorem keepsRoot_iff (hne : world.environ.get? Variable.root ≠ some []) :
    KeepsRoot world ↔ ∀ value, world.environ.get? Variable.root = some value →
      (EnvironmentSettings.fromWorld world).1.root = ⟨value⟩ := by
  refine forall_congr' fun value => imp_congr_right fun hvalue => ?_
  cases htext : value.text? with
  | none => rfl
  | some text =>
      have hset : world.environ.text? Variable.root = some text := by
        rw [Environ.text?, hvalue]
        exact htext
      obtain rfl := Bytes.text?_eq_some_iff.mp htext
      rw [root_fromWorld hset]
      by_cases hblank : Text.trimmed text = ""
      · -- a blank root is not that of the current directory
        rw [if_pos hblank]
        constructor
        · intro hkept
          obtain rfl : text = "" := hkept.symm.trans hblank
          exact absurd hvalue hne
        · intro hroot
          obtain ⟨b, hb, hmark⟩ := exists_mem_currentDirectoryOrDot world
          rw [hroot] at hb
          have hlow : b.toNat < 0x80 := by rcases hmark with rfl | rfl <;> decide
          obtain ⟨c, hc, hcode⟩ := (Bytes.mem_ofText hlow).mp hb
          have htrim := congrArg String.toList hblank
          rw [Text.trimmed, String.toList_ofList] at htrim
          have hisBlank := Text.isBlank_of_trim_eq_nil htrim hc
          rcases hmark with rfl | rfl <;> simp [Text.isBlank, hcode, Path.slash] at hisBlank
      · rw [if_neg hblank]
        constructor
        · intro hkept
          rw [hkept]
          rfl
        · intro hroot
          have hbytes : Bytes.ofText (Text.trimmed text) = Bytes.ofText text := Path.mk.inj hroot
          exact Bytes.ofText_injective hbytes

theorem getD_root_iff (root : Option Path)
    (hne : root = none → world.environ.get? Variable.root ≠ some []) :
    (root <|> (world.environ.get? Variable.root).map Path.mk).getD
        (EnvironmentSettings.fromWorld world).1.root =
      root.getD (EnvironmentSettings.fromWorld world).1.root ↔
        root.isSome ∨ KeepsRoot world := by
  cases root with
  | some root => simp
  | none =>
      rw [keepsRoot_iff (hne rfl)]
      cases world.environ.get? Variable.root with
      | none => simp
      | some value => simp [eq_comm]

/-! ### The name -/

/-- Whether the library takes the name from its variable, if the variable is set to a text. -/
def KeepsName (world : World) : Prop := world.environ.text? Variable.name ≠ some ""

theorem getD_name_iff (world : World) (name : Option String) :
    (name <|> world.environ.text? Variable.name).getD
        (EnvironmentSettings.fromWorld world).1.defaultName =
      name.getD (EnvironmentSettings.fromWorld world).1.defaultName ↔
        name.isSome ∨ KeepsName world := by
  have hname : (EnvironmentSettings.fromWorld world).1.defaultName =
      Settings.textOr world.environ [Variable.name] EnvironmentSettings.standardName := rfl
  cases name with
  | some name => simp
  | none =>
      rw [hname, Settings.textOr, Settings.firstText, KeepsName]
      cases htext : world.environ.text? Variable.name with
      | none => simp [htext]
      | some text =>
          by_cases hempty : text = ""
          · subst hempty
            simp [htext, EnvironmentSettings.standardName]
          · simp [htext, hempty]

/-! ### What a command uses -/

theorem targetOf?_filled (environ : Environ) (task : Task) :
    targetOf? (task.filled environ) = (targetOf? task).map (Target.filled environ) := by
  cases task <;> rfl

/-- Whatever the process environment and the command line are, a command that activates an
environment uses the options that were typed and what the library computes for the others, save that
it takes the root and the name from their variables as they are.  That is the same exactly if the
library takes them as they are, too.  Apart from what is refused without any variable, only an empty
root and a name that is no text are refused. -/
theorem choice_of_parse (world : World) (arguments : List String) :
    match Arguments.parse world.environ arguments with
    | .error e =>
        (∃ refusal, Arguments.parse .empty arguments = .error refusal) ∨
          ∃ typed, Arguments.parse .empty arguments = .ok typed ∧
            (e = .invalidValue ∧ world.environ.get? Variable.root = some [] ∨
              e = .invalidUtf8 ∧ typed.task.name? = some none ∧
                ∃ value, world.environ.get? Variable.name = some value ∧ value.text? = none)
    | .ok given => ∃ typed, Arguments.parse .empty arguments = .ok typed ∧
        given = typed.filled world.environ ∧
        ∀ target, targetOf? typed.task = some target →
          let library := (EnvironmentSettings.fromWorld world).1
          let filled := target.filled world.environ
          targetOf? given.task = some filled ∧
            Choice.used given.root filled world = Choice.expected given.root filled library ∧
            (Choice.used given.root filled world = Choice.expected typed.root target library ↔
              (typed.root.isSome ∨ KeepsRoot world) ∧
                (target.system ∨ target.name.isSome ∨ KeepsName world)) := by
  cases htyped : Arguments.parse .empty arguments with
  | error refusal =>
      cases hgiven : Arguments.parse world.environ arguments with
      | error e => exact .inl ⟨refusal, rfl⟩
      | ok given =>
          obtain ⟨typed, htyped'⟩ := Arguments.exists_typed hgiven
          cases htyped.symm.trans htyped'
  | ok typed =>
      rcases Arguments.parse_of_typed world.environ htyped with
        ⟨hroot, herror⟩ | ⟨value, hname, hvalue, htext, herror⟩ | ⟨hok, hroot, _⟩
      · rw [herror]
        exact .inr ⟨typed, rfl, .inl ⟨rfl, hroot⟩⟩
      · rw [herror]
        exact .inr ⟨typed, rfl, .inr ⟨rfl, hname, value, hvalue, htext⟩⟩
      · rw [hok]
        refine ⟨typed, rfl, rfl, fun target htarget => ⟨?_, Choice.used_eq_expected _ _ _, ?_⟩⟩
        · rw [Arguments.filled, targetOf?_filled, htarget]
          rfl
        · rw [Choice.used_eq_expected, ← getD_root_iff typed.root hroot]
          have hname := getD_name_iff world target.name
          simp only [Choice.expected, Choice.mk.injEq, Arguments.filled, Target.filled, and_true]
          by_cases hsystem : target.system = true
          · simp only [hsystem, if_true, true_or]
          · simp only [hsystem, Bool.false_eq_true, if_false, false_or, Option.some.injEq, hname]

/-- A target of which nothing was typed. -/
def plainTarget : Target :=
  ⟨none, false, .smart, [], none, none, none, none⟩

/-- The arguments of `activate` without any option. -/
def plainArguments : Arguments :=
  ⟨.activate plainTarget false false, none, none, Arguments.standardLogName, none, false⟩

/-- A world in which blanks stand around the root of the environments. -/
def paddedWorld : World :=
  { (default : World) with environ := .ofList [(Variable.root, Bytes.ofText "  /envs  ")] }

/-- The root of the environments is not always what was typed or else what the library computes. -/
theorem not_used_eq_expected :
    ¬ ∀ (world : World) (arguments : List String) (typed given : Arguments) (target filled : Target),
      Arguments.parse .empty arguments = .ok typed →
      Arguments.parse world.environ arguments = .ok given →
      targetOf? typed.task = some target → targetOf? given.task = some filled →
      Choice.used given.root filled world =
        Choice.expected typed.root target (EnvironmentSettings.fromWorld world).1 := by
  intro h
  have hpadded := h paddedWorld ["activate"] plainArguments
    { plainArguments with root := some (.ofText "  /envs  ") } plainTarget plainTarget
    (by decide +kernel) (by decide +kernel) rfl rfl
  have hroots := congrArg Choice.root hpadded
  revert hroots
  decide +kernel

end Enclave.Program
