import Enclave.Settings.Lookup

/-! # Settings of the reports

Whether reports are shown, which ones, in what form and where. -/

namespace Enclave

namespace Variable

/-- Whether only warnings and errors are reported. -/
def quiet : String := "SPYCERY_QUIET"

/-- The directives that say what is reported. -/
def logLevel : String := "SPYCERY_LOG_LEVEL"

/-- Whether reports are JSON documents. -/
def logJson : String := "SPYCERY_LOG_JSON"

/-- Where reports go. -/
def logMode : String := "SPYCERY_LOG_MODE"

/-- The directory of the log files. -/
def logDirectory : String := "SPYCERY_LOG_DIR"

/-- The directives that come before those of `logLevel`. -/
def filter : String := "RUST_LOG"

/-- Whether reports are written without colours. -/
def noColour : String := "NO_COLOR"

end Variable

/-- Where reports go. -/
inductive LogMode
  /-- Nowhere. -/
  | none
  /-- To the standard error stream. -/
  | console
  /-- To the standard error stream and a file. -/
  | file
deriving DecidableEq, Repr, Inhabited

namespace LogMode

/-- The name of a mode. -/
def label : LogMode → String
  | none => "None"
  | console => "Console"
  | file => "File"

/-- The word for a mode on the command line and in settings. -/
def word : LogMode → String
  | none => "none"
  | console => "console"
  | file => "file"

/-- All modes. -/
def all : List LogMode := [none, console, file]

/-- The mode that a word names exactly. -/
def ofWord? (text : String) : Option LogMode :=
  all.find? fun mode => mode.word == text

/-- The mode that a word names in any ASCII letter case, or the wording of the refusal. -/
def parse (text : String) : Except String LogMode :=
  match all.find? fun mode => Text.equalAsciiCase mode.word text with
  | some mode => .ok mode
  | Option.none => .error s!"invalid variant: {text}"

end LogMode

/-- Settings of the reports. -/
structure ReportSettings where
  quiet : Bool
  directive : String
  json : Bool
  mode : String
  directory : String
deriving Repr, DecidableEq

namespace ReportSettings

/-- What is reported unless a variable says otherwise. -/
def standardDirective : String := "spycery=info,spycery_env=info"

/-- The settings that the process environment asks for. -/
def fromEnviron (env : Environ) : ReportSettings where
  quiet := Settings.flag env [Variable.quiet] false
  directive := Settings.textOr env [Variable.logLevel] standardDirective
  json := Settings.flag env [Variable.logJson] false
  mode := Settings.textOr env [Variable.logMode] "console"
  directory := Settings.textOr env [Variable.logDirectory] "results"

/-- The log mode that the settings ask for.  An unknown one counts as the console and is warned
about. -/
def logMode (settings : ReportSettings) : LogMode × Option String :=
  match LogMode.parse settings.mode with
  | .ok mode => (mode, none)
  | .error _ =>
      (.console, some s!"Warning: invalid {Variable.logMode} '{settings.mode}', using console\n")

end ReportSettings
end Enclave
