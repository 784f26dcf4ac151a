import Enclave.Context.Basic
import Enclave.Settings.Environment
import Enclave.Explanation

/-! # Using a resolution context

A context is made from the process environment, and it can be put into effect in three ways: in the
environment of a child, in the process environment itself, and as statements for a shell.  `resolve`
looks up a program in a context. -/

namespace Enclave.ResolutionContext

/-- The context of the process: its search path without overrides. -/
def ofEnviron (env : Environ) : ResolutionContext :=
  match env.get? Variable.searchPath with
  | some text => ofSearchPath (Path.splitSearchPath text)
  | none => ofSearchPath []

/-- The overrides in the order of their keys. -/
def sortedOverrides (context : ResolutionContext) : List (String × Option String) :=
  context.overrides.sorted

/-- The overrides as assignments to variables. -/
def overrideAssignments (context : ResolutionContext) : List (String × Option Bytes) :=
  context.sortedOverrides.map fun (key, value) => (key, value.map Bytes.ofText)

/-- The variables that are set or removed for a child process. -/
def childVariables? (context : ResolutionContext) : Option (Table (Option Bytes)) :=
  context.searchPathText?.map fun text =>
    Table.ofList ((Variable.searchPath, some text) :: context.overrideAssignments)

/-- The assignments that put the context into effect in the process itself.  A search path that is
not text is written with replacement characters. -/
def processAssignments? (context : ResolutionContext) : Option (List (String × Option Bytes)) :=
  context.searchPathText?.map fun text =>
    (Variable.searchPath, some (Bytes.ofText text.display)) :: context.overrideAssignments

/-! ### Statements for a shell -/

/-- A text that a shell reads as one word: between single quotes, where a single quote in the text
ends the quotation, stands escaped, and starts another one. -/
def quoted (text : List Char) : List Char :=
  '\x27' :: text.flatMap (fun c => if c = '\x27' then ['\x27', '\\', '\x27', '\x27'] else [c]) ++
    ['\x27']

/-- The statement that gives a variable a value. -/
def exportStatement (key value : String) : String :=
  s!"export {key}=" ++ String.ofList (quoted value.toList) ++ "\n"

/-- The statement for an override. -/
def overrideStatement : String × Option String → String
  | (key, some value) => exportStatement key value
  | (key, none) => s!"unset {key}\n"

/-- The statements that reproduce the context in a shell. -/
def shellStatements (context : ResolutionContext) : Except Explanation String :=
  match context.searchPathText? with
  | some text =>
      .ok (exportStatement Variable.searchPath text.display ++
        String.join (context.sortedOverrides.map overrideStatement))
  | none =>
      .error ⟨"Search path contains an entry that cannot be joined", [unjoinable]⟩

/-! ### Looking up programs -/

/-- The variable that names the home directory. -/
def homeVariable : String := "HOME"

/-- The home directory where no variable names one. -/
def standardHome : Path := .ofText "/root"

/-- The name of the home directory on a search path. -/
def tilde : Bytes := Bytes.ofText "~"

/-- An entry of a search path whose first component is a tilde, with the home directory in its
place. -/
def expandHome (home entry : Path) : Path :=
  match entry.components with
  | .name first :: rest =>
      if first = tilde then
        rest.foldl (fun path component => match component with
          | .name name => path.join ⟨name⟩
          | .parent => path.join ⟨Path.dotDot⟩
          | _ => path) home
      else entry
  | _ => entry

/-- The home directory of an environment. -/
def homeOf (env : Environ) : Path :=
  match env.get? homeVariable with
  | some home => ⟨home⟩
  | none => standardHome

/-- Where a program may be: at its own path if that has several components, and otherwise in the
directories of a search path. -/
def candidates (program : Path) (directories : List Path) (home working : Path) : List Path :=
  if 1 < program.components.length then [working.join program]
  else directories.map fun directory => (expandHome home directory).join program

/-- The first candidate that is a file and may be executed. -/
def findProgram (world : World) (program : Path) (directories : List Path) : Option Path :=
  (candidates program directories (homeOf world.environ) world.currentDirectoryOrDot).find? fun
    path => world.files.isExecutable world.base path

/-- Looks up a program in a context. -/
def resolve (context : ResolutionContext) (world : World) (program : String) : Option Path :=
  context.searchPathText?.bind fun text =>
    findProgram world (.ofText program) (Path.splitSearchPath text)

end Enclave.ResolutionContext
