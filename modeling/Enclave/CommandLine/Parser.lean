import Enclave.CommandLine.Option

/-! # Reading arguments

The arguments are read from the left.  A group of commands is left for the command that is named in
it, and all levels are closed at the end, the innermost one first: an option that waits for a value
is refused then, variables give values to options that were not given, and what is still missing is
refused. -/

namespace Enclave.CommandLine

/-- Where a value comes from, the weakest source first. -/
inductive Origin
  | environ
  | argument
deriving DecidableEq, Repr

/-- The strength of a source. -/
def Origin.rank : Origin → Nat
  | environ => 1
  | argument => 2

/-- A value of an option.  Flags have the empty value. -/
structure Given where
  key : Key
  origin : Origin
  value : Bytes
deriving DecidableEq, Repr

/-- What was read at a level.  `waiting` is the last option with its value, if that was read;
`operands` are the arguments after two dashes. -/
structure Level where
  stage : Stage
  given : List Given := []
  waiting : Option (Key × Option Bytes) := none
  operands : Option (List String) := none
deriving Repr

namespace Level

/-- Whether an option was given. -/
def has (level : Level) (key : Key) : Bool :=
  level.given.any (·.key = key)

/-- Adds a value of an option. -/
def add (level : Level) (origin : Origin) (key : Key) (value : Bytes) :
    Except UsageError Level :=
  if level.has key && !key.repeats then .error .argumentConflict
  else match if key.takesValue then key.check value else none with
    | some refusal => .error refusal
    | none => .ok { level with given := level.given ++ [⟨key, origin, value⟩] }

/-- Adds the option that waits. -/
def settle (level : Level) : Except UsageError Level :=
  match level.waiting with
  | none => .ok level
  | some (_, none) => .error .invalidValue
  | some (key, some value) => { level with waiting := none }.add .argument key value

/-- Adds a flag, or stops for one that asks to be shown something. -/
def addFlag (level : Level) (key : Key) : Except UsageError Level := do
  let level ← level.settle
  match key with
  | .help => .error .displayHelp
  | .version => .error .displayVersion
  | _ => level.add .argument key []

/-- Starts an option with a value, which may be attached to it. -/
def addOption (level : Level) (key : Key) (attached : Option Bytes) : Except UsageError Level := do
  let level ← level.settle
  match attached with
  | some value => level.add .argument key value
  | none => .ok { level with waiting := some (key, none) }

/-- Reads what stands after two dashes. -/
def readLong (level : Level) (text : List Char) : Except UsageError Level :=
  let name := text.takeWhile (· != '=')
  let attached := match text.dropWhile (· != '=') with
    | [] => none
    | _ :: value => some (Bytes.ofChars value)
  match level.stage.byLong? (String.ofList name) with
  | none => .error .unknownArgument
  | some key =>
      if key.takesValue then level.addOption key attached
      else if attached.isSome then .error .tooManyValues
      else level.addFlag key

/-- Reads the letters after a single dash.  What follows the letter of an option with a value is its
value. -/
def readShort (level : Level) : List Char → Except UsageError Level
  | [] => .ok level
  | letter :: rest =>
      match level.stage.byShort? letter with
      | none => .error .unknownArgument
      | some key =>
          if key.takesValue then
            level.addOption key (match rest with
              | [] => none
              | '=' :: value => some (Bytes.ofChars value)
              | value => some (Bytes.ofChars value))
          else do
            let level ← level.addFlag key
            level.readShort rest

/-- The refusal of an argument that belongs to no option. -/
def stray (level : Level) (argument : String) : UsageError :=
  if !level.stage.isGroup then .unknownArgument
  else if level.operands.isSome &&
      ((level.stage.subcommand? argument).isSome || argument == "help") then .unknownArgument
  else .invalidSubcommand

/-- Reads an argument that names no command. -/
def read (level : Level) (argument : String) : Except UsageError Level :=
  match level.operands with
  | some operands =>
      if level.stage = .run then do
        let level ← if operands = [] then level.settle else .ok level
        .ok { level with operands := some (operands ++ [argument]) }
      else .error (level.stray argument)
  | none =>
      match argument.toList with
      | ['-', '-'] => .ok { level with operands := some [] }
      | '-' :: '-' :: text => level.readLong text
      | '-' :: letter :: rest => level.readShort (letter :: rest)
      | _ =>
          match level.waiting with
          | some (key, none) =>
              .ok { level with waiting := some (key, some (Bytes.ofText argument)) }
          | _ => .error (level.stray argument)

/-- Whether the next argument may name a command. -/
def expectsCommand (level : Level) : Bool :=
  level.operands.isNone && !(level.waiting.any (·.2.isNone))

/-- Gives an option that was not given the value of its variable. -/
def addVariable (environ : Environ) (level : Level) (key : Key) : Except UsageError Level :=
  if level.has key then .ok level
  else match key.environKey?.bind environ.get? with
    | some value => level.add .environ key value
    | none => .ok level

/-- Closes a level. -/
def close (environ : Environ) (level : Level) (followed : Bool) : Except UsageError Level := do
  let level ← level.settle
  let level ← level.stage.keys.foldlM (addVariable environ) level
  if level.stage.isGroup && !followed then
    .error (if level.given = [] then .helpOnMissing else .missingSubcommand)
  else if level.stage = .run && (level.operands.getD []) = [] then .error .missingArgument
  else .ok level

end Level

/-- What is shown for a request for help about a command of a group. -/
def helpAbout (stage : Stage) : List String → UsageError
  | [] => .displayHelp
  | name :: rest =>
      match stage.subcommand? name with
      | some stage => helpAbout stage rest
      | none =>
          if name = "help" && stage.isGroup && rest = [] then .displayHelp
          else .invalidSubcommand

/-- Closes levels, the innermost one first. -/
def closeAll (environ : Environ) (followed : Bool) : List Level → Except UsageError (List Level)
  | [] => .ok []
  | level :: outer => do
      let level ← level.close environ followed
      let outer ← closeAll environ true outer
      .ok (level :: outer)

/-- Reads arguments at a level with others around it.  The result is all levels, the innermost one
first. -/
def readLevels (environ : Environ) (outer : List Level) (level : Level) :
    List String → Except UsageError (List Level)
  | [] => closeAll environ false (level :: outer)
  | argument :: rest =>
      let command := if level.expectsCommand then level.stage.subcommand? argument else none
      match command with
      | some stage => readLevels environ (level :: outer) { stage } rest
      | none =>
          if level.expectsCommand && level.stage.isGroup && argument == "help" then
            .error (helpAbout level.stage rest)
          else match level.read argument with
            | .ok level => readLevels environ outer level rest
            | .error e => .error e

end Enclave.CommandLine
