import Enclave.Shell.Arithmetic
import Enclave.Shell.Builtins
import Enclave.Shell.Expansion

/-! # Running commands

What a command does when a shell runs it.  Every function has a bound on the number of nested calls
as its first argument; a script that goes beyond it is taken for one that never ends. -/

namespace Enclave.Shell

open Act

/-! ### Parts of a run -/

/-- Stops for good: the time is over at once. -/
def neverEnd {α : Type} : Act α := do
  match (← state).deadline with
  | some deadline => changeWorld fun world => { world with clock := deadline }
  | none => pure ()
  throw .deadline

/-- Runs something as a process of its own, which leaves the frame and the current directory as they
were. -/
def isolated (act : Act Nat) : Act Ending := do
  let before ← get
  let ending ← tryCatch (Ending.exited <$> act) fun
    | .ends ending => pure ending
    | .deadline => throw .deadline
    | _ => return .exited (← frame).status
  set (before.1, (← state))
  changeWorld fun world =>
    { world with
      cwd := before.2.world.cwd
      cwdId := before.2.world.cwdId
      environ := before.2.world.environ }
  return ending

/-- Runs something, after which the streams lead where they did. -/
def keepingStreams {α : Type} (act : Act α) : Act α := do
  let streams := (← frame).streams
  let restore : Act Unit := changeFrame fun frame => { frame with streams }
  let result ← tryCatch act fun stop => do
    restore
    throw stop
  restore
  return result

/-- Runs a command whose failure does not end a strict shell. -/
def checking {α : Type} (act : Act α) : Act α := do
  let before := (← frame).tested
  let restore : Act Unit := changeFrame fun frame => { frame with tested := before }
  changeFrame fun frame => { frame with tested := true }
  let result ← tryCatch act fun stop => do
    restore
    throw stop
  restore
  return result

/-- Whether a strict shell ends when a command of this kind fails. -/
def isDecisive : Command → Bool
  | .simple .. => true
  | .pipe .. => true
  | .subshell .. => true
  | .redirected .. => true
  | _ => false

/-- Runs the body of a loop.  The flag tells whether the loop goes on. -/
def loopBody (body : Act Nat) : Act (Nat × Bool) :=
  tryCatch (return (← body, true)) fun
    | .break_ levels => if levels ≤ 1 then return (0, false) else throw (.break_ (levels - 1))
    | .continue_ levels =>
        if levels ≤ 1 then return (0, true) else throw (.continue_ (levels - 1))
    | stop => throw stop

/-- Runs a body for every item. -/
def forItems (body : List Char → Act Nat) (status : Nat) : List (List Char) → Act Nat
  | [] => return status
  | item :: rest => do
      let (status, more) ← loopBody (body item)
      if more then forItems body status rest else return status

/-- The text without line ends at its end. -/
def withoutFinalLines (text : List Char) : List Char :=
  (text.reverse.dropWhile (· == '\n')).reverse

/-- The value of a parameter as a segment. -/
def valueSegment (inQuotes : Bool) (text : List Char) : Segment :=
  if inQuotes then .quoted text else .split text

/-- Whether a word holds what a command writes. -/
def holdsOutput (word : Word) : Bool :=
  word.any fun
    | .output _ _ => true
    | _ => false

/-- The words for a file that cannot be opened. -/
def openFailure (creating : Bool) : IoError → String
  | .notFound => if creating then "Directory nonexistent" else "No such file"
  | e => Program.words e

/-- Whether a command is one whose assignments last. -/
def isSpecialCommand (name : List Char) : Bool :=
  [":", ".", "break", "continue", "eval", "exec", "exit", "export", "return", "set", "shift",
    "trap", "unset"].contains (String.ofList name)

/-- The parameters of a shell that is called with arguments, and the script or its path. -/
inductive ShellInput
  | command (text : List Char) (name : List Char) (parameters : List (List Char))
  | script (path : List Char) (parameters : List (List Char))
  | standard (parameters : List (List Char))

/-- What the arguments of a shell ask for. -/
def shellInput (called : List Char) : List (List Char) → ShellInput
  | [] => .standard []
  | argument :: rest =>
      match argument with
      | ['-', 's'] => .standard rest
      | ['-', '-'] =>
          match rest with
          | [] => .standard []
          | path :: parameters => .script path parameters
      | '-' :: letters =>
          if letters.contains 'c' then
            match rest with
            | [] => .standard []
            | text :: names => .command text (names.headD called) (names.drop 1)
          else shellInput called rest
      | path => .script path rest

/-- The options, assignments and command that are given to `env`. -/
def environmentChanges (environ : Environ) : List (List Char) → Environ × List (List Char)
  | ['-', 'i'] :: rest => environmentChanges .empty rest
  | ['-', 'u'] :: name :: rest => environmentChanges (environ.unset (Program.shown name)) rest
  | argument :: rest =>
      match splitAssignment argument with
      | (name, some value) =>
          environmentChanges (environ.set (Program.shown name) (toBytes value)) rest
      | (_, none) => (environ, argument :: rest)
  | [] => (environ, [])

/-! ### Words and commands -/

mutual

/-- The segments of a piece. -/
def pieceSegments : Nat → Piece → Act (List Segment)
  | 0, _ => neverEnd
  | _ + 1, .plain text => return [.plain text]
  | _ + 1, .quoted text => return [.quoted text]
  | fuel + 1, .output command inQuotes => do
      let (index, sink) ← newSink
      let ending ← isolated do
        setStream 1 sink
        run fuel command
      changeFrame fun frame => { frame with status := ending.status }
      let text := (ofBytes (← written index)).filter (· != Char.ofNat 0)
      return [valueSegment inQuotes (withoutFinalLines text)]
  | fuel + 1, .arithmetic text inQuotes => do
      let inner ← match parseWord? text with
        | some word => do pure (textOf (← wordSegments fuel word))
        | none => pure text
      let bindings := (← frame).bindings
      let lookup (name : List Char) : List Char :=
        ((bindings.get? (String.ofList name)).map (·.value)).getD []
      match Arithmetic.evaluate? lookup inner with
      | some value => return [valueSegment inQuotes (toString value).toList]
      | none =>
          complainAt 1 (ofText "arithmetic expression: expecting primary: \"" ++ inner ++ ['"'])
          finish (.exited 2)
  | fuel + 1, .parameter name use inQuotes => do
      let value ← parameter? name
      let frame ← frame
      let here : List Segment :=
        if name = ['@'] && inQuotes then [.fields frame.parameters]
        else [valueSegment inQuotes (value.getD [])]
      let isMissing (orEmpty : Bool) : Bool :=
        value.isNone || (orEmpty && value == some [])
      let mustBeSet := frame.wary && value.isNone && name != ['@'] && name != ['*']
      match use with
      | .value =>
          if mustBeSet then
            complainAt 1 (name ++ ofText ": parameter not set")
            finish (.exited 2)
          else return here
      | .length => return [valueSegment inQuotes (toString (value.getD []).length).toList]
      | .default orEmpty word =>
          if isMissing orEmpty then
            let segments ← wordSegments fuel word
            return if inQuotes then segments else segments.map Segment.asValue
          else return here
      | .instead orEmpty word =>
          if isMissing orEmpty then return [valueSegment inQuotes []]
          else
            let segments ← wordSegments fuel word
            return if inQuotes then segments else segments.map Segment.asValue
      | .assign orEmpty word =>
          if isMissing orEmpty then
            let text := textOf (← wordSegments fuel word)
            assign name text false
            return [valueSegment inQuotes text]
          else return here
      | .require orEmpty word =>
          if isMissing orEmpty then
            let text := textOf (← wordSegments fuel word)
            let text := if text = [] then
                ofText (if orEmpty then "parameter not set or null" else "parameter not set")
              else text
            complainAt 1 (name ++ ofText ": " ++ text)
            finish (.exited 2)
          else return here
      | .remove side longest pattern =>
          let pattern := patternOf (← wordSegments fuel pattern)
          return [valueSegment inQuotes
            (removeMatch (side = .front) longest pattern (value.getD []))]
termination_by structural fuel => fuel

/-- The segments of a word. -/
def wordSegments : Nat → Word → Act (List Segment)
  | 0, _ => neverEnd
  | _ + 1, [] => return []
  | fuel + 1, piece :: rest => do
      let first ← pieceSegments fuel piece
      let more ← wordSegments fuel rest
      return first ++ more
termination_by structural fuel => fuel

/-- The fields of words, with patterns replaced by the paths that match. -/
def fields : Nat → List Word → Act (List (List Char))
  | 0, _ => neverEnd
  | _ + 1, [] => return []
  | fuel + 1, word :: rest => do
      let segments ← wordSegments fuel word
      let world ← world
      let first := (Fields.ofSegments segments).flatMap (matchingPaths world)
      let more ← fields fuel rest
      return first ++ more
termination_by structural fuel => fuel

/-- Performs redirections.  The result tells whether all of them were possible. -/
def redirect (line : Nat) : Nat → List Redirection → Act Bool
  | 0, _ => neverEnd
  | _ + 1, [] => return true
  | fuel + 1, .mk number direction target :: rest => do
      let text := textOf (← wordSegments fuel target)
      let creating := direction = .write || direction = .append
      let opened ← match direction with
        | .read => openSource text
        | .write => openSink text true
        | .append => openSink text false
        | .duplicate =>
            if text = ['-'] then pure (.ok .null)
            else do
              match Program.number? text with
              | some other => pure (.ok (← stream other))
              | none => openSink text true
      match opened with
      | .ok stream => do
          setStream number stream
          redirect line fuel rest
      | .error e => do
          complainAt line (ofText (if creating then "cannot create " else "cannot open ") ++ text ++
            ofText s!": {openFailure creating e}")
          return false
termination_by structural fuel => fuel

/-- Assigns the values of words to variables. -/
def assignments (exported : Bool) : Nat → List (List Char × Word) → Act Unit
  | 0, _ => neverEnd
  | _ + 1, [] => return ()
  | fuel + 1, (name, word) :: rest => do
      assign name (textOf (← wordSegments fuel word)) exported
      assignments exported fuel rest
termination_by structural fuel => fuel

/-- Runs a command and remembers its status. -/
def run : Nat → Command → Act Nat
  | 0, _ => neverEnd
  | fuel + 1, command => do
      let status ← evaluate fuel command
      changeFrame fun frame => { frame with status }
      let frame ← frame
      if status != 0 && frame.strict && !frame.tested && isDecisive command then
        finish (.exited status)
      else return status
termination_by structural fuel => fuel

/-- Runs a command. -/
def evaluate : Nat → Command → Act Nat
  | 0, _ => neverEnd
  | _ + 1, .nothing => return 0
  | fuel + 1, .sequence first second => do
      let _ ← run fuel first
      match second with
      | .nothing => return (← frame).status
      | second => run fuel second
  | fuel + 1, .both left right => do
      let status ← checking (run fuel left)
      if status = 0 then run fuel right else return status
  | fuel + 1, .either left right => do
      let status ← checking (run fuel left)
      if status = 0 then return 0 else run fuel right
  | fuel + 1, .negate command => do
      let status ← checking (run fuel command)
      return if status = 0 then 1 else 0
  | fuel + 1, .group body => run fuel body
  | fuel + 1, .subshell body => return (← isolated (run fuel body)).status
  | fuel + 1, .background body => do
      let clock := (← world).clock
      let _ ← isolated do
        setStream 0 .null
        run fuel body
      changeWorld fun world => { world with clock }
      return 0
  | fuel + 1, .pipe left right => do
      let start := (← world).clock
      let (index, sink) ← newSink
      let _ ← isolated do
        setStream 1 sink
        run fuel left
      let leftEnd := (← world).clock
      changeWorld fun world => { world with clock := start }
      let source ← newSource (← written index)
      let ending ← isolated do
        setStream 0 source
        run fuel right
      changeWorld fun world =>
        if leftEnd.reaches world.clock then { world with clock := leftEnd } else world
      return ending.status
  | fuel + 1, .redirected body redirections =>
      keepingStreams do
        if ← redirect 1 fuel redirections then run fuel body else return 2
  | fuel + 1, .choose condition yes no => do
      let status ← checking (run fuel condition)
      if status = 0 then run fuel yes else run fuel no
  | fuel + 1, .select word branches => do
      let text := textOf (← wordSegments fuel word)
      selectBranch fuel text branches
  | fuel + 1, .forEach name words body => do
      let items ← match words with
        | some words => fields fuel words
        | none => do pure (← frame).parameters
      forItems (fun item => do
        assign name item false
        run fuel body) 0 items
  | fuel + 1, .loop while_ condition body => repeatLoop while_ condition body 0 fuel
  | _ + 1, .define name body => do
      changeFrame fun frame =>
        { frame with functions := frame.functions.set (String.ofList name) body }
      return 0
  | fuel + 1, .simple line assigned words redirections => do
      match ← fields fuel words with
      | [] =>
          let good ← keepingStreams (redirect line fuel redirections)
          if good then
            assignments false fuel assigned
            let status := (← frame).status
            return if assigned.any (holdsOutput ·.2) then status else 0
          else return 2
      | name :: arguments =>
          if name = "exec".toList then
            let good ← redirect line fuel redirections
            if !good then finish (.exited 2)
            else if arguments = [] then return 0
            else
              assignments true fuel assigned
              let ending ← runProgram line (ofText "exec: ") fuel arguments
              finish ending
          else
            keepingStreams do
              if ← redirect line fuel redirections then
                if isSpecialCommand name ||
                    ((← frame).functions.get? (String.ofList name)).isSome then
                  assignments false fuel assigned
                  runNamed line fuel name arguments
                else
                  let before := (← frame).bindings
                  assignments true fuel assigned
                  let inside := (← frame).bindings
                  let status ← runNamed line fuel name arguments
                  if assigned.isEmpty then return status
                  else
                    let restored (bindings : Table Variable) : Table Variable :=
                      assigned.foldl (fun bindings (key, _) =>
                        let key := String.ofList key
                        if (bindings.get? key).map (·.value) == (inside.get? key).map (·.value)
                        then bindings.put key (before.get? key) else bindings) bindings
                    changeFrame fun frame =>
                      { frame with bindings := restored frame.bindings }
                    return status
              else if isSpecialCommand name then finish (.exited 2)
              else return 2
termination_by structural fuel => fuel

/-- Runs the first branch with a pattern that matches. -/
def selectBranch : Nat → List Char → List (List Word × Command) → Act Nat
  | 0, _, _ => neverEnd
  | _ + 1, _, [] => return 0
  | fuel + 1, text, (patterns, body) :: rest => do
      if ← matchesAny fuel text patterns then run fuel body else selectBranch fuel text rest
termination_by structural fuel => fuel

/-- Whether one of several patterns matches. -/
def matchesAny : Nat → List Char → List Word → Act Bool
  | 0, _, _ => neverEnd
  | _ + 1, _, [] => return false
  | fuel + 1, text, word :: rest => do
      if isMatch (patternOf (← wordSegments fuel word)) text then return true
      else matchesAny fuel text rest
termination_by structural fuel => fuel

/-- Runs a body as long as a condition holds, or until it does. -/
def repeatLoop (while_ : Bool) (condition body : Command) (status : Nat) : Nat → Act Nat
  | 0 => neverEnd
  | fuel + 1 => do
      let (result, more) ← loopBody (checking (run fuel condition))
      if !more then return status
      else if (result == 0) != while_ then return status
      else
        let (status, more) ← loopBody (run fuel body)
        if more then repeatLoop while_ condition body status fuel else return status
termination_by structural fuel => fuel

/-- Runs a command by its name: a function, a command of the shell or a program. -/
def runNamed (line : Nat) : Nat → List Char → List (List Char) → Act Nat
  | 0, _, _ => neverEnd
  | fuel + 1, name, arguments => do
      match (← frame).functions.get? (String.ofList name) with
      | some body =>
          let parameters := (← frame).parameters
          let restore : Act Unit := changeFrame fun frame => { frame with parameters }
          changeFrame fun frame => { frame with parameters := arguments }
          let status ← tryCatch (run fuel body) fun
            | .return_ => do pure (← frame).status
            | stop => do
                restore
                throw stop
          restore
          return status
      | none =>
          match String.ofList name with
          | "eval" => runText fuel (Program.joined arguments)
          | "." => do
              match ← Program.content "sh" (arguments.headD []) with
              | some bytes => runText fuel (ofBytes bytes)
              | none => finish (.exited 2)
          | "command" =>
              match arguments with
              | ['-', 'v'] :: wanted :: _ => do
                  if (builtin? line wanted []).isSome then
                    write 1 (wanted ++ ['\n'])
                    return 0
                  else
                    let world ← world
                    let directories := (← searchPath).splitOnP (· == ':')
                    match directories.find? fun directory =>
                        world.files.isExecutable world.base
                          (pathOf (directory ++ '/' :: wanted)) with
                    | some directory =>
                        write 1 (directory ++ '/' :: wanted ++ ['\n'])
                        return 0
                    | none => return 127
              | wanted :: rest => do
                  match builtin? line wanted rest with
                  | some act => act
                  | none => do
                      let ending ← runProgram line [] fuel (wanted :: rest)
                      return ending.status
              | [] => return 0
          | _ =>
              match builtin? line name arguments with
              | some act => act
              | none => do
                  let ending ← runProgram line [] fuel (name :: arguments)
                  match ending with
                  | .signalled number =>
                      let words := signalWords number
                      if words = "" then pure () else complain (words ++ "\n")
                  | _ => pure ()
                  return ending.status
termination_by structural fuel => fuel

/-- Runs a script in the shell itself. -/
def runText : Nat → List Char → Act Nat
  | 0, _ => neverEnd
  | fuel + 1, text => do
      match parse? text with
      | some command => run fuel command
      | none =>
          complainAt 1 (ofText "Syntax error")
          finish (.exited 2)
termination_by structural fuel => fuel

/-- Runs a program as a child of a shell.  The label stands before the message about a failure. -/
def runProgram (line : Nat) (label : List Char) : Nat → List (List Char) → Act Ending
  | 0, _ => neverEnd
  | fuel + 1, arguments => do
      let world ← world
      match Invocation.find world true (← searchPath) arguments with
      | .ok invocation => launch fuel invocation (exportedOf (← frame).bindings)
      | .error e =>
          let missing := e = .notFound || e = .notDirectory
          complainAt line (label ++ arguments.headD [] ++
            ofText (if missing then ": not found" else s!": {Program.words e}"))
          return .exited (if missing then 127 else 126)
termination_by structural fuel => fuel

/-- Runs a program with an environment as a process of its own. -/
def launch : Nat → Invocation → Environ → Act Ending
  | 0, _, _ => neverEnd
  | fuel + 1, ⟨program, arguments⟩, environ =>
      isolated do
        let streams := (← frame).streams
        changeFrame fun _ => { name := arguments.headD [], streams }
        changeWorld fun world => { world with environ }
        match program with
        | "sh" => runShell fuel arguments
        | "env" =>
            let (environ, rest) := environmentChanges environ (arguments.drop 1)
            changeWorld fun world => { world with environ }
            if rest = [] then Program.printenv []
            else do
              let searchPath := (environ.get? "PATH").map ofBytes
              let world ← world
              match Invocation.find world true (searchPath.getD "/bin:/usr/bin".toList) rest with
              | .ok invocation => do
                  let ending ← launch fuel invocation environ
                  finish ending
              | .error e => do
                  complain s!"env: '{Program.shown (rest.headD [])}': {Program.words e}\n"
                  return if e = .notFound then 127 else 126
        | _ =>
            match program? program (arguments.drop 1) with
            | some act => act
            | none => return 127
termination_by structural fuel => fuel

/-- Runs a shell with arguments, the name it was called by first. -/
def runShell : Nat → List (List Char) → Act Nat
  | 0, _ => neverEnd
  | fuel + 1, arguments => do
      let called := arguments.headD []
      let bindings := variablesOf (← world).environ
      let begin_ (name : List Char) (parameters : List (List Char)) : Act Unit := do
        changeFrame fun frame => { frame with name, parameters, bindings }
        noteDirectory
      match shellInput called (arguments.drop 1) with
      | .command text name parameters => do
          begin_ name parameters
          runText fuel text
      | .script path parameters => do
          begin_ path parameters
          let world ← world
          match world.files.readBytes world.base (pathOf path) with
          | .ok bytes => runText fuel (ofBytes bytes)
          | .error e => do
              write 2 (called ++ ofText ": 0: cannot open " ++ path ++
                ofText s!": {openFailure false e}\n")
              return if e = .notFound then 2 else 126
      | .standard parameters => do
          begin_ called parameters
          runText fuel (ofBytes (← readAll))
termination_by structural fuel => fuel

end

end Enclave.Shell
