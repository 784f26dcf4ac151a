import Enclave.Text.LowerCase
import Enclave.Text.Number

/-! # Events

What happens during an activation is reported as events.  An event has a level, a source, a message
and named fields.  A threshold admits the events up to a level (`Threshold.admits_mono`). -/

namespace Enclave

/-- How serious an event is. -/
inductive Level
  | error
  | warn
  | info
  | debug
  | trace
deriving DecidableEq, Repr, Inhabited

namespace Level

/-- The position of a level, the most serious first. -/
def rank : Level → Nat
  | error => 1
  | warn => 2
  | info => 3
  | debug => 4
  | trace => 5

/-- The name of a level in capitals. -/
def label : Level → String
  | error => "ERROR"
  | warn => "WARN"
  | info => "INFO"
  | debug => "DEBUG"
  | trace => "TRACE"

/-- All levels, the most serious first. -/
def all : List Level := [error, warn, info, debug, trace]

theorem mem_all (level : Level) : level ∈ all := by
  cases level <;> decide

end Level

/-- The least serious level that is let through, if any. -/
inductive Threshold
  | off
  | upTo (level : Level)
deriving DecidableEq, Repr, Inhabited

namespace Threshold

/-- The position of a threshold. -/
def rank : Threshold → Nat
  | off => 0
  | upTo level => level.rank

/-- Whether an event of a level is let through. -/
def admits (threshold : Threshold) (level : Level) : Bool :=
  level.rank ≤ threshold.rank

/-- The name of a threshold. -/
def label : Threshold → String
  | off => "off"
  | upTo .error => "error"
  | upTo .warn => "warn"
  | upTo .info => "info"
  | upTo .debug => "debug"
  | upTo .trace => "trace"

/-- All thresholds, the strictest first. -/
def all : List Threshold := off :: Level.all.map upTo

/-- The threshold that a text names by its position or, in any ASCII letter case, by its name.  The
empty text stands for errors only. -/
def parse? (text : String) : Option Threshold :=
  match Text.natural? text.toList with
  | some n => all.find? fun t => t.rank == n
  | none =>
      if text == "" then some (upTo .error)
      else all.find? fun t => Text.equalAsciiCase t.label text

theorem admits_mono {a b : Threshold} {level : Level} (h : a.rank ≤ b.rank)
    (ha : a.admits level = true) : b.admits level = true := by
  simp only [admits, decide_eq_true_eq] at ha ⊢
  omega

end Threshold

/-- The part of the program that reports an event. -/
inductive Source
  | activation
  | activator
  | record
  | requirements
  | lock
  | venv
  | loader
  | settings
  | program
  | report
  | runner
deriving DecidableEq, Repr, Inhabited

/-- The name under which a source reports. -/
def Source.target : Source → String
  | .activation => "spycery_env::log"
  | .activator => "spycery_env::activator"
  | .record => "spycery_env::record"
  | .requirements => "spycery_env::requirements"
  | .lock => "spycery_env::lock"
  | .venv => "spycery_env::provisioner::venv"
  | .loader => "spycery_core::config::loader"
  | .settings => "spycery_core::config::schema"
  | .program => "spycery"
  | .report => "spycery::commands::activate"
  | .runner => "spycery::commands::run"

/-- The value of a field. -/
inductive FieldValue
  | text (value : String)
  | number (value : Nat)
deriving DecidableEq, Repr, Inhabited

instance : Coe String FieldValue := ⟨.text⟩

/-- The text of a field. -/
def FieldValue.shown : FieldValue → String
  | .text value => value
  | .number value => toString value

/-- A reported event. -/
structure Event where
  level : Level
  source : Source
  message : String
  fields : List (String × FieldValue) := []
deriving DecidableEq, Repr, Inhabited

end Enclave
