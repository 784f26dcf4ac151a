import Enclave.Shell.Command

/-! # Reading commands

A recursive-descent reader of scripts.  Every function takes the text that is left and gives what it
read and the text after it, or `none` for a text that is not in the language.  `fuel` bounds the
number of nested calls; the length of the script is always enough. -/

namespace Enclave.Shell

/-! ### Characters -/

/-- A blank inside a line. -/
def isGap (c : Char) : Bool := c == ' ' || c == '\t'

/-- A character that ends a word. -/
def isMeta (c : Char) : Bool :=
  isGap c || c == '\n' || c == ';' || c == '&' || c == '|' || c == '<' || c == '>' || c == '(' ||
    c == ')'

/-- A character that a name can start with. -/
def isNameStart (c : Char) : Bool := c.isAlpha || c == '_'

/-- A character that a name can go on with. -/
def isNameInner (c : Char) : Bool := c.isAlphanum || c == '_'

/-- A parameter with a name of a single character other than a letter. -/
def isSpecial (c : Char) : Bool :=
  c.isDigit || c == '@' || c == '*' || c == '#' || c == '?' || c == '-' || c == '$' || c == '!'

/-- The text after blanks, joined lines and a comment. -/
def skipGaps : List Char → List Char
  | [] => []
  | '\\' :: '\n' :: rest => skipGaps rest
  | c :: rest =>
      if isGap c then skipGaps rest
      else if c = '#' then rest.dropWhile (· != '\n')
      else c :: rest

/-- The text after blanks, comments and line ends, for a text with at most `fuel` line ends. -/
def skipLinesUpTo : Nat → List Char → List Char
  | 0, text => skipGaps text
  | fuel + 1, text =>
      match skipGaps text with
      | '\n' :: rest => skipLinesUpTo fuel rest
      | rest => rest

/-- The text after blanks, comments and line ends. -/
def skipLines (text : List Char) : List Char :=
  skipLinesUpTo text.length text

/-- The line on which a rest of the script starts, in a script with `lines` line ends. -/
def lineOf (lines : Nat) (rest : List Char) : Nat :=
  lines - rest.count '\n' + 1

/-- Splits off the inside of single quotes. -/
def singleQuoted? (text : List Char) : Option (List Char × List Char) :=
  match text.dropWhile (· != '\x27') with
  | [] => none
  | _ :: rest => some (text.takeWhile (· != '\x27'), rest)

/-- Splits off a name. -/
def nameOf (text : List Char) : List Char × List Char :=
  match text with
  | c :: rest =>
      if isNameStart c then (c :: rest.takeWhile isNameInner, rest.dropWhile isNameInner)
      else ([], text)
  | [] => ([], [])

/-- Splits off the name of a parameter. -/
def parameterName? (text : List Char) : Option (List Char × List Char) :=
  match nameOf text with
  | ([], c :: rest) => if isSpecial c then some ([c], rest) else none
  | ([], []) => none
  | named => some named

/-- Splits off the name of a parameter between braces, which may be a number. -/
def bracedName? (text : List Char) : Option (List Char × List Char) :=
  match text.takeWhile Char.isDigit with
  | [] => parameterName? text
  | digits => some (digits, text.dropWhile Char.isDigit)

/-- Removes a fixed word that is followed by the end of a word. -/
def keyword? (word : String) (text : List Char) : Option (List Char) :=
  let text := skipGaps text
  if word.toList.isPrefixOf text then
    let rest := text.drop word.length
    match rest with
    | [] => some []
    | c :: _ => if isMeta c then some rest else none
  else none

/-- Splits off the inside of an arithmetic expansion, up to two closing parentheses. -/
def arithmeticText? : Nat → List Char → Option (List Char × List Char)
  | _, [] => none
  | 0, ')' :: ')' :: rest => some ([], rest)
  | depth, '(' :: rest => (arithmeticText? (depth + 1) rest).map fun (t, r) => ('(' :: t, r)
  | depth, ')' :: rest => (arithmeticText? (depth - 1) rest).map fun (t, r) => (')' :: t, r)
  | depth, c :: rest => (arithmeticText? depth rest).map fun (t, r) => (c :: t, r)

/-- The characters that a backslash escapes between double quotes. -/
def escapesInQuotes (c : Char) : Bool :=
  c == '$' || c == '\x60' || c == '"' || c == '\\'

/-- Splits off the inside of backquotes, without the backslashes that escape in it. -/
def backquoted? : List Char → Option (List Char × List Char)
  | [] => none
  | '\x60' :: rest => some ([], rest)
  | '\\' :: c :: rest =>
      (backquoted? rest).map fun (t, r) =>
        (if c = '\x60' || c = '\\' || c = '$' then c :: t else '\\' :: c :: t, r)
  | c :: rest => (backquoted? rest).map fun (t, r) => (c :: t, r)

/-- The number before a redirection and the direction of it. -/
def direction? (text : List Char) : Option (Nat × Direction × List Char) :=
  let digits := text.takeWhile Char.isDigit
  let rest := text.dropWhile Char.isDigit
  let number (default : Nat) : Nat :=
    if digits = [] then default else digits.foldl (fun n c => 10 * n + (c.toNat - 48)) 0
  match rest with
  | '>' :: '>' :: rest => some (number 1, .append, rest)
  | '>' :: '&' :: rest => some (number 1, .duplicate, rest)
  | '>' :: '|' :: rest => some (number 1, .write, rest)
  | '>' :: rest => some (number 1, .write, rest)
  | '<' :: '&' :: rest => some (number 0, .duplicate, rest)
  | '<' :: rest => some (number 0, .read, rest)
  | _ => none

/-- The words that end a list of commands. -/
def closers : List String := ["then", "else", "elif", "fi", "do", "done", "esac", "\x7d"]

/-- Whether nothing more belongs to a list of commands. -/
def atEnd (text : List Char) : Bool :=
  match text with
  | [] => true
  | ')' :: _ => true
  | ';' :: ';' :: _ => true
  | _ => closers.any fun word => (keyword? word text).isSome

/-! ### Words and commands -/

mutual

/-- Reads the pieces of a word.  Between double quotes (`inQuotes`) only the closing quote ends
them, inside braces (`inBraces`) the closing brace. -/
def pieces? (lines : Nat) (inQuotes inBraces : Bool) : Nat → List Char →
    Option (Word × List Char)
  | 0, _ => none
  | fuel + 1, text =>
      let literal (c : Char) (rest : List Char) : Option (Word × List Char) :=
        (pieces? lines inQuotes inBraces fuel rest).map fun (word, rest) =>
          ((if inQuotes then .quoted [c] else .plain [c]) :: word, rest)
      match text with
      | [] => if inQuotes || inBraces then none else some ([], [])
      | '\\' :: '\n' :: rest => pieces? lines inQuotes inBraces fuel rest
      | '\\' :: c :: rest =>
          if inQuotes && !escapesInQuotes c && !(inBraces && c == '\x7d') then
            (pieces? lines inQuotes inBraces fuel rest).map fun (word, rest) =>
              (.quoted ['\\', c] :: word, rest)
          else
            (pieces? lines inQuotes inBraces fuel rest).map fun (word, rest) =>
              (.quoted [c] :: word, rest)
      | '$' :: rest =>
          match expansion? lines inQuotes fuel rest with
          | some (piece, rest) =>
              (pieces? lines inQuotes inBraces fuel rest).map fun (word, rest) =>
                (piece :: word, rest)
          | none => literal '$' rest
      | c :: rest =>
          if c = '\x60' then
            match backquoted? rest with
            | none => none
            | some (inner, rest) =>
                match script? lines fuel inner with
                | none => none
                | some command =>
                    (pieces? lines inQuotes inBraces fuel rest).map fun (word, rest) =>
                      (.output command inQuotes :: word, rest)
          else if inBraces && c = '\x7d' then some ([], rest)
          else if c = '"' then
            if inQuotes && !inBraces then some ([], rest)
            else match pieces? lines true false fuel rest with
              | none => none
              | some (inner, rest) =>
                  (pieces? lines inQuotes inBraces fuel rest).map fun (word, rest) =>
                    ((if inner.isEmpty then [Piece.quoted []] else inner) ++ word, rest)
          else if inQuotes then literal c rest
          else if c = '\x27' then
            match singleQuoted? rest with
            | none => none
            | some (inner, rest) =>
                (pieces? lines inQuotes inBraces fuel rest).map fun (word, rest) =>
                  (.quoted inner :: word, rest)
          else if !inBraces && isMeta c then some ([], text)
          else literal c rest

/-- Reads what follows a dollar sign. -/
def expansion? (lines : Nat) (inQuotes : Bool) : Nat → List Char → Option (Piece × List Char)
  | 0, _ => none
  | fuel + 1, text =>
      match text with
      | '(' :: '(' :: rest =>
          (arithmeticText? 0 rest).map fun (inner, rest) => (.arithmetic inner inQuotes, rest)
      | '(' :: rest =>
          match list? lines fuel rest with
          | some (command, rest) =>
              match skipLines rest with
              | ')' :: rest => some (.output command inQuotes, rest)
              | _ => none
          | none => none
      | '\x7b' :: '#' :: rest =>
          match bracedName? rest with
          | some (name, '\x7d' :: rest) => some (.parameter name .length inQuotes, rest)
          | _ =>
              match rest with
              | '\x7d' :: rest => some (.parameter ['#'] .value inQuotes, rest)
              | _ => none
      | '\x7b' :: rest =>
          match bracedName? rest with
          | some (name, rest) =>
              (use? lines inQuotes fuel rest).map fun (use, rest) =>
                (.parameter name use inQuotes, rest)
          | none => none
      | _ =>
          (parameterName? text).map fun (name, rest) => (.parameter name .value inQuotes, rest)

/-- Reads what is done with a parameter, up to the closing brace. -/
def use? (lines : Nat) (inQuotes : Bool) : Nat → List Char → Option (Use × List Char)
  | 0, _ => none
  | fuel + 1, text =>
      let word (make : Word → Use) (rest : List Char) : Option (Use × List Char) :=
        (pieces? lines inQuotes true fuel rest).map fun (word, rest) => (make word, rest)
      let pattern (make : Word → Use) (rest : List Char) : Option (Use × List Char) :=
        (pieces? lines false true fuel rest).map fun (word, rest) => (make word, rest)
      match text with
      | '\x7d' :: rest => some (.value, rest)
      | ':' :: '-' :: rest => word (.default true) rest
      | '-' :: rest => word (.default false) rest
      | ':' :: '+' :: rest => word (.instead true) rest
      | '+' :: rest => word (.instead false) rest
      | ':' :: '=' :: rest => word (.assign true) rest
      | '=' :: rest => word (.assign false) rest
      | ':' :: '?' :: rest => word (.require true) rest
      | '?' :: rest => word (.require false) rest
      | '#' :: '#' :: rest => pattern (.remove .front true) rest
      | '#' :: rest => pattern (.remove .front false) rest
      | '%' :: '%' :: rest => pattern (.remove .back true) rest
      | '%' :: rest => pattern (.remove .back false) rest
      | _ => none

/-- Reads a word, which is not empty. -/
def word? (lines : Nat) : Nat → List Char → Option (Word × List Char)
  | 0, _ => none
  | fuel + 1, text =>
      match pieces? lines false false fuel (skipGaps text) with
      | some ([], _) => none
      | other => other

/-- Reads redirections. -/
def redirections? (lines : Nat) : Nat → List Char → Option (List Redirection × List Char)
  | 0, _ => none
  | fuel + 1, text =>
      match direction? (skipGaps text) with
      | none => some ([], text)
      | some (stream, direction, rest) =>
          match word? lines fuel rest with
          | none => none
          | some (target, rest) =>
              (redirections? lines fuel rest).map fun (more, rest) =>
                (.mk stream direction target :: more, rest)

/-- Reads the rest of a simple command.  Assignments come before the first word. -/
def simple? (lines : Nat) (line : Nat) (hasWord : Bool) : Nat → List Char →
    Option ((List (List Char × Word) × List Word × List Redirection) × List Char)
  | 0, _ => none
  | fuel + 1, text =>
      let text := skipGaps text
      match direction? text with
      | some (stream, direction, rest) =>
          match word? lines fuel rest with
          | none => none
          | some (target, rest) =>
              (simple? lines line hasWord fuel rest).map fun ((assigned, words, redirected), rest) =>
                ((assigned, words, .mk stream direction target :: redirected), rest)
      | none =>
          match text with
          | [] => some (([], [], []), [])
          | c :: _ =>
              if isMeta c then some (([], [], []), text)
              else match hasWord, nameOf text with
                | false, (d :: name, '=' :: rest) =>
                    match pieces? lines false false fuel rest with
                    | none => none
                    | some (value, rest) =>
                        (simple? lines line false fuel rest).map
                          fun ((assigned, words, redirected), rest) =>
                            (((d :: name, value) :: assigned, words, redirected), rest)
                | _, _ =>
                    match word? lines fuel text with
                    | none => none
                    | some (word, rest) =>
                        (simple? lines line true fuel rest).map
                          fun ((assigned, words, redirected), rest) =>
                            ((assigned, word :: words, redirected), rest)

/-- Reads a compound command without its redirections, or a simple command. -/
def plainCommand? (lines : Nat) : Nat → List Char → Option (Command × List Char)
  | 0, _ => none
  | fuel + 1, text =>
      let text := skipGaps text
      match text with
      | '(' :: rest =>
          match list? lines fuel rest with
          | some (body, rest) =>
              match skipLines rest with
              | ')' :: rest => some (.subshell body, rest)
              | _ => none
          | none => none
      | _ =>
          match keyword? "\x7b" text, keyword? "if" text, keyword? "case" text,
            keyword? "for" text, keyword? "while" text, keyword? "until" text with
          | some rest, _, _, _, _, _ =>
              match list? lines fuel rest with
              | some (body, rest) =>
                  (keyword? "\x7d" (skipLines rest)).map fun rest => (.group body, rest)
              | none => none
          | _, some rest, _, _, _, _ => conditional? lines fuel rest
          | _, _, some rest, _, _, _ =>
              match word? lines fuel rest with
              | some (word, rest) =>
                  match keyword? "in" (skipLines rest) with
                  | some rest =>
                      (branches? lines fuel rest).map fun (branches, rest) =>
                        (.select word branches, rest)
                  | none => none
              | none => none
          | _, _, _, some rest, _, _ =>
              match nameOf (skipGaps rest) with
              | (d :: name, rest) => forEach? lines (d :: name) fuel rest
              | ([], _) => none
          | _, _, _, _, some rest, _ => loop? lines true fuel rest
          | _, _, _, _, _, some rest => loop? lines false fuel rest
          | none, none, none, none, none, none =>
              match nameOf text with
              | (d :: name, '(' :: ')' :: rest) =>
                  (command? lines fuel (skipLines rest)).map fun (body, rest) =>
                    (.define (d :: name) body, rest)
              | _ =>
                  match simple? lines (lineOf lines text) false fuel text with
                  | some (([], [], []), _) => none
                  | some ((assigned, words, redirected), rest) =>
                      some (.simple (lineOf lines text) assigned words redirected, rest)
                  | none => none

/-- Reads a command with its redirections. -/
def command? (lines : Nat) : Nat → List Char → Option (Command × List Char)
  | 0, _ => none
  | fuel + 1, text =>
      match plainCommand? lines fuel text with
      | none => none
      | some (command, rest) =>
          match redirections? lines fuel rest with
          | none => none
          | some ([], rest) => some (command, rest)
          | some (redirected, rest) => some (.redirected command redirected, rest)

/-- Reads the rest of a conditional after its first word. -/
def conditional? (lines : Nat) : Nat → List Char → Option (Command × List Char)
  | 0, _ => none
  | fuel + 1, text =>
      match list? lines fuel text with
      | none => none
      | some (condition, rest) =>
          match keyword? "then" (skipLines rest) with
          | none => none
          | some rest =>
              match list? lines fuel rest with
              | none => none
              | some (yes, rest) =>
                  let rest := skipLines rest
                  match keyword? "elif" rest, keyword? "else" rest, keyword? "fi" rest with
                  | some rest, _, _ =>
                      (conditional? lines fuel rest).map fun (no, rest) =>
                        (.choose condition yes no, rest)
                  | _, some rest, _ =>
                      match list? lines fuel rest with
                      | none => none
                      | some (no, rest) =>
                          (keyword? "fi" (skipLines rest)).map fun rest =>
                            (.choose condition yes no, rest)
                  | _, _, some rest => some (.choose condition yes .nothing, rest)
                  | none, none, none => none

/-- Reads the patterns of a branch up to the closing parenthesis. -/
def patterns? (lines : Nat) : Nat → List Char → Option (List Word × List Char)
  | 0, _ => none
  | fuel + 1, text =>
      match word? lines fuel text with
      | none => none
      | some (pattern, rest) =>
          match skipGaps rest with
          | ')' :: rest => some ([pattern], rest)
          | '|' :: rest =>
              (patterns? lines fuel rest).map fun (more, rest) => (pattern :: more, rest)
          | _ => none

/-- Reads the branches of a selection up to its last word. -/
def branches? (lines : Nat) : Nat → List Char →
    Option (List (List Word × Command) × List Char)
  | 0, _ => none
  | fuel + 1, text =>
      let text := skipLines text
      match keyword? "esac" text with
      | some rest => some ([], rest)
      | none =>
          let text := match text with
            | '(' :: rest => rest
            | _ => text
          match patterns? lines fuel text with
          | none => none
          | some (patterns, rest) =>
              match list? lines fuel rest with
              | none => none
              | some (body, rest) =>
                  match skipLines rest with
                  | ';' :: ';' :: rest =>
                      (branches? lines fuel rest).map fun (more, rest) =>
                        ((patterns, body) :: more, rest)
                  | rest =>
                      (keyword? "esac" rest).map fun rest => ([(patterns, body)], rest)

/-- Reads words up to the end of a line or a semicolon. -/
def wordsToEnd? (lines : Nat) : Nat → List Char → Option (List Word × List Char)
  | 0, _ => none
  | fuel + 1, text =>
      match skipGaps text with
      | [] => none
      | ';' :: rest => some ([], rest)
      | '\n' :: rest => some ([], rest)
      | text =>
          match word? lines fuel text with
          | none => none
          | some (word, rest) =>
              (wordsToEnd? lines fuel rest).map fun (more, rest) => (word :: more, rest)

/-- Reads the body of a loop between its first and its last word. -/
def body? (lines : Nat) : Nat → List Char → Option (Command × List Char)
  | 0, _ => none
  | fuel + 1, text =>
      match keyword? "do" (skipLines text) with
      | none => none
      | some rest =>
          match list? lines fuel rest with
          | none => none
          | some (body, rest) => (keyword? "done" (skipLines rest)).map (body, ·)

/-- Reads the rest of a loop over words. -/
def forEach? (lines : Nat) (name : List Char) : Nat → List Char → Option (Command × List Char)
  | 0, _ => none
  | fuel + 1, text =>
      match keyword? "in" (skipLines text) with
      | some rest =>
          match wordsToEnd? lines fuel rest with
          | none => none
          | some (words, rest) =>
              (body? lines fuel rest).map fun (body, rest) =>
                (.forEach name (some words) body, rest)
      | none =>
          let rest := match skipGaps text with
            | ';' :: rest => rest
            | rest => rest
          (body? lines fuel rest).map fun (body, rest) => (.forEach name none body, rest)

/-- Reads the rest of a loop with a condition. -/
def loop? (lines : Nat) (while_ : Bool) : Nat → List Char → Option (Command × List Char)
  | 0, _ => none
  | fuel + 1, text =>
      match list? lines fuel text with
      | none => none
      | some (condition, rest) =>
          (body? lines fuel rest).map fun (body, rest) => (.loop while_ condition body, rest)

/-- Reads commands that are joined by bars. -/
def pipeline? (lines : Nat) : Nat → List Char → Option (Command × List Char)
  | 0, _ => none
  | fuel + 1, text =>
      match keyword? "!" text with
      | some rest =>
          (pipeline? lines fuel rest).map fun (command, rest) => (.negate command, rest)
      | none =>
          match command? lines fuel text with
          | none => none
          | some (left, rest) =>
              match skipGaps rest with
              | '|' :: '|' :: _ => some (left, rest)
              | '|' :: rest =>
                  (pipeline? lines fuel (skipLines rest)).map fun (right, rest) =>
                    (.pipe left right, rest)
              | _ => some (left, rest)

/-- Reads further pipelines that are joined to `left` by the conditional operators. -/
def conditionals? (lines : Nat) (left : Command) : Nat → List Char →
    Option (Command × List Char)
  | 0, _ => none
  | fuel + 1, text =>
      match skipGaps text with
      | '&' :: '&' :: rest =>
          match pipeline? lines fuel (skipLines rest) with
          | none => none
          | some (right, rest) => conditionals? lines (.both left right) fuel rest
      | '|' :: '|' :: rest =>
          match pipeline? lines fuel (skipLines rest) with
          | none => none
          | some (right, rest) => conditionals? lines (.either left right) fuel rest
      | _ => some (left, text)

/-- Reads a list of commands up to a word or a parenthesis that ends it. -/
def list? (lines : Nat) : Nat → List Char → Option (Command × List Char)
  | 0, _ => none
  | fuel + 1, text =>
      let text := skipLines text
      if atEnd text then some (.nothing, text)
      else match pipeline? lines fuel text with
        | none => none
        | some (first, rest) =>
            match conditionals? lines first fuel rest with
            | none => none
            | some (first, rest) =>
                match skipGaps rest with
                | ';' :: ';' :: rest => some (first, ';' :: ';' :: rest)
                | ';' :: rest =>
                    (list? lines fuel rest).map fun (more, rest) => (.sequence first more, rest)
                | '\n' :: rest =>
                    (list? lines fuel rest).map fun (more, rest) => (.sequence first more, rest)
                | '&' :: rest =>
                    (list? lines fuel rest).map fun (more, rest) =>
                      (.sequence (.background first) more, rest)
                | rest => if atEnd rest then some (first, rest) else none

/-- Reads a whole script. -/
def script? (lines : Nat) : Nat → List Char → Option Command
  | 0, _ => none
  | fuel + 1, text =>
      match list? lines fuel text with
      | some (command, rest) => if skipLines rest = [] then some command else none
      | none => none

end

/-- The command that a script consists of. -/
def parse? (text : List Char) : Option Command :=
  script? (text.count '\n') (40 * (text.length + 10)) text

/-- The word that a text between double quotes stands for. -/
def parseWord? (text : List Char) : Option Word :=
  (pieces? 0 true false (40 * (text.length + 10)) (text ++ ['"'])).map (·.1)

end Enclave.Shell
