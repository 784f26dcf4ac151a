import Enclave.Activation.Request
import Enclave.Settings.Environment
import Enclave.Settings.Reporting
import Enclave.Text.Number

/-! # Options and commands

The commands of the program, the options of each, and what their values may be. -/

namespace Enclave.CommandLine

/-- Why arguments are refused, or what is shown instead of running a command. -/
inductive UsageError
  | displayHelp
  | displayVersion
  | helpOnMissing
  | missingSubcommand
  | invalidSubcommand
  | unknownArgument
  | missingArgument
  | tooManyValues
  | invalidValue
  | valueValidation
  | invalidUtf8
  | argumentConflict
deriving DecidableEq, Repr

namespace UsageError

/-- The name of an error. -/
def label : UsageError → String
  | displayHelp => "DisplayHelp"
  | displayVersion => "DisplayVersion"
  | helpOnMissing => "DisplayHelpOnMissingArgumentOrSubcommand"
  | missingSubcommand => "MissingSubcommand"
  | invalidSubcommand => "InvalidSubcommand"
  | unknownArgument => "UnknownArgument"
  | missingArgument => "MissingRequiredArgument"
  | tooManyValues => "TooManyValues"
  | invalidValue => "InvalidValue"
  | valueValidation => "ValueValidation"
  | invalidUtf8 => "InvalidUtf8"
  | argumentConflict => "ArgumentConflict"

/-- The exit code of a program with such arguments. -/
def exitCode : UsageError → Nat
  | displayHelp => 0
  | displayVersion => 0
  | _ => 2

end UsageError

/-- An option. -/
inductive Key
  | name
  | system
  | refresh
  | requirements
  | interpreter
  | provisionTimeout
  | lockTimeout
  | lockMode
  | versions
  | shell
  | dryRun
  | force
  | root
  | logMode
  | logName
  | logLevel
  | json
  | help
  | version
deriving DecidableEq, Repr

namespace Key

/-- The name of an option after two dashes. -/
def long : Key → String
  | name => "name"
  | system => "system"
  | refresh => "refresh"
  | requirements => "requirements"
  | interpreter => "python"
  | provisionTimeout => "provision-timeout"
  | lockTimeout => "lock-timeout"
  | lockMode => "lock-mode"
  | versions => "versions"
  | shell => "shell"
  | dryRun => "dry-run"
  | force => "force"
  | root => "root"
  | logMode => "log-mode"
  | logName => "log-name"
  | logLevel => "log-level"
  | json => "json"
  | help => "help"
  | version => "version"

/-- The letter of an option after a single dash. -/
def short? : Key → Option Char
  | name => some 'n'
  | requirements => some 'r'
  | force => some 'f'
  | help => some 'h'
  | version => some 'V'
  | _ => none

/-- Whether an option has a value. -/
def takesValue : Key → Bool
  | system => false
  | versions => false
  | shell => false
  | dryRun => false
  | force => false
  | json => false
  | help => false
  | version => false
  | _ => true

/-- Whether an option may be given several times. -/
def repeats : Key → Bool
  | requirements => true
  | _ => false

/-- The variable that gives a value to an option that is not given. -/
def environKey? : Key → Option String
  | name => some Variable.name
  | root => some Variable.root
  | _ => none

/-- Whether the value of an option is a path. -/
def isPath : Key → Bool
  | root => true
  | requirements => true
  | _ => false

/-- The refusal of a text as the value of an option, if it is refused. -/
def checkText (key : Key) (text : String) : Option UsageError :=
  let require (holds : Bool) (e : UsageError) : Option UsageError := if holds then none else some e
  match key with
  | refresh => require (RefreshPolicy.parse text).toOption.isSome .valueValidation
  | lockMode => require (LockMode.parse text).toOption.isSome .valueValidation
  | logLevel => require (Threshold.parse? text).isSome .valueValidation
  | provisionTimeout => require (Text.seconds? text).isSome .valueValidation
  | lockTimeout => require (Text.seconds? text).isSome .valueValidation
  | logMode => require (LogMode.ofWord? text).isSome .invalidValue
  | _ => none

/-- The refusal of a value of an option, if it is refused.  A path must not be empty; any other
value has to be a text. -/
def check (key : Key) (value : Bytes) : Option UsageError :=
  if key.isPath then
    if value = [] then some .invalidValue else none
  else match value.text? with
    | some text => key.checkText text
    | none => some .invalidUtf8

end Key

/-- A command, or a group of commands. -/
inductive Stage
  | top
  | activate
  | run
  | freeze
  | environments
  | list
  | clean
deriving DecidableEq, Repr

namespace Stage

/-- The options that all commands have. -/
def common : List Key := [.root, .logMode, .logName, .logLevel, .json, .help]

/-- The options that choose an environment and the way to activate it. -/
def targetKeys : List Key :=
  [.name, .system, .refresh, .requirements, .interpreter, .provisionTimeout, .lockTimeout,
    .lockMode]

/-- The options of a command. -/
def keys : Stage → List Key
  | top => common ++ [.version]
  | activate => targetKeys ++ [.versions, .shell] ++ common
  | run => targetKeys ++ common
  | freeze => [.name, .system] ++ common
  | environments => common
  | list => common
  | clean => [.dryRun, .force] ++ common

/-- The commands in a group. -/
def subcommands : Stage → List (String × Stage)
  | top => [("activate", activate), ("run", run), ("freeze", freeze), ("env", environments)]
  | environments => [("list", list), ("clean", clean)]
  | _ => []

/-- Whether a stage is a group, which has to be followed by a command. -/
def isGroup (stage : Stage) : Bool := stage.subcommands != []

/-- The command of a group that has a name. -/
def subcommand? (stage : Stage) (name : String) : Option Stage :=
  stage.subcommands.lookup name

/-- The option with a name. -/
def byLong? (stage : Stage) (name : String) : Option Key :=
  stage.keys.find? fun key => key.long == name

/-- The option with a letter. -/
def byShort? (stage : Stage) (letter : Char) : Option Key :=
  stage.keys.find? fun key => key.short? == some letter

end Stage
end Enclave.CommandLine
