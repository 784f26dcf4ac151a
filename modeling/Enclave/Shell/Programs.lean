import Enclave.Shell.Process

/-! # Programs of the system

The programs that are always there.  A program gets its arguments and gives its exit code; it reads
and writes the streams of its process and the files. -/

namespace Enclave.Shell

/-- The arguments of a program. -/
abbrev Arguments := List (List Char)

namespace Program

open Act

/-- An argument as it is shown in a message. -/
def shown (argument : List Char) : String :=
  Bytes.display (toBytes argument)

/-- The wording of a failure without its number. -/
def words : IoError → String
  | .notFound => "No such file or directory"
  | .permissionDenied => "Permission denied"
  | .alreadyExists => "File exists"
  | .notDirectory => "Not a directory"
  | .isDirectory => "Is a directory"
  | .notEmpty => "Directory not empty"
  | .busy => "Device or resource busy"
  | .invalidArgument => "Invalid argument"
  | .nameTooLong => "File name too long"
  | .tooManyLinks => "Too many levels of symbolic links"
  | other => other.message

/-- Whether an argument is an option. -/
def isOption : List Char → Bool
  | '-' :: _ :: _ => true
  | _ => false

/-- The letters of the options in front, and the other arguments. -/
def splitOptions : Arguments → List Char × Arguments
  | [] => ([], [])
  | argument :: rest =>
      if argument = ['-', '-'] then ([], rest)
      else if isOption argument then
        let (letters, others) := splitOptions rest
        (argument.drop 1 ++ letters, others)
      else
        let (letters, others) := splitOptions rest
        (letters, argument :: others)

/-- Performs an action for every argument; the exit code is 1 if any of them failed. -/
def forAll (act : List Char → Act Bool) : Arguments → Act Nat
  | [] => return 0
  | argument :: rest => do
      let good ← act argument
      let code ← forAll act rest
      return if good then code else 1

/-- Reports the failure of an operation. -/
def check (message : IoError → String) : Except IoError Unit → Act Bool
  | .ok () => return true
  | .error e => do
      complain (message e ++ "\n")
      return false

/-- A natural number. -/
def number? (text : List Char) : Option Nat :=
  if text = [] || !text.all Char.isDigit then none
  else some (text.foldl (fun n c => 10 * n + (c.toNat - 48)) 0)

/-! ### Text -/

/-- The value of an octal number. -/
def octal (digits : List Char) : Nat :=
  digits.foldl (fun n c => 8 * n + (c.toNat - 48)) 0

/-- Whether a character is an octal digit. -/
def isOctal (c : Char) : Bool := '0' ≤ c && c ≤ '7'

/-- The character of a byte. -/
def byteChar (n : Nat) : Char := Char.ofNat (n % 256)

/-- The character that a backslash and a letter denote. -/
def escapeChar? : Char → Option Char
  | 'a' => some '\x07'
  | 'b' => some '\x08'
  | 'f' => some '\x0c'
  | 'n' => some '\n'
  | 'r' => some '\r'
  | 't' => some '\t'
  | 'v' => some '\x0b'
  | '\\' => some '\\'
  | _ => none

/-- Replaces escapes by the characters that they denote.  With `leadingZero` octal numbers start
with a zero.  The flag is off if an escape ended the output. -/
def unescapeUpTo (leadingZero : Bool) : Nat → List Char → List Char × Bool
  | 0, text => (text, true)
  | _ + 1, [] => ([], true)
  | fuel + 1, '\\' :: rest =>
      match rest with
      | [] => (['\\'], true)
      | c :: after =>
          if leadingZero && c == 'c' then ([], false)
          else match escapeChar? c with
            | some d =>
                let (text, more) := unescapeUpTo leadingZero fuel after
                (d :: text, more)
            | none =>
                if isOctal c && (!leadingZero || c == '0') then
                  let digits := if leadingZero then (after.take 3).takeWhile isOctal
                    else (rest.take 3).takeWhile isOctal
                  let left := if leadingZero then after.drop digits.length
                    else rest.drop digits.length
                  let (text, more) := unescapeUpTo leadingZero fuel left
                  (byteChar (octal digits) :: text, more)
                else
                  let (text, more) := unescapeUpTo leadingZero fuel after
                  ('\\' :: c :: text, more)
  | fuel + 1, c :: rest =>
      let (text, more) := unescapeUpTo leadingZero fuel rest
      (c :: text, more)

/-- Replaces escapes by the characters that they denote. -/
def unescape (leadingZero : Bool) (text : List Char) : List Char × Bool :=
  unescapeUpTo leadingZero text.length text

/-- Words with blanks between them. -/
def joined (words : Arguments) : List Char :=
  [' '].intercalate words

/-- Writes its arguments. -/
def echo (arguments : Arguments) : Act Nat := do
  let (newLine, words) := match arguments with
    | ['-', 'n'] :: rest => (false, rest)
    | _ => (true, arguments)
  let (text, more) := unescape true (joined words)
  write 1 (if more && newLine then text ++ ['\n'] else text)
  return 0

/-- A text set to the right, or to the left, in a number of columns. -/
def pad (left zero : Bool) (width : Nat) (text : List Char) : List Char :=
  let fill := List.replicate (width - text.length) (if zero && !left then '0' else ' ')
  if left then text ++ fill else fill ++ text

/-- The value of a numeric argument, which may be a character after a quote. -/
def numericValue (argument : List Char) : Int :=
  match argument with
  | '-' :: digits => -(((number? digits).getD 0 : Nat) : Int)
  | '+' :: digits => ((number? digits).getD 0 : Nat)
  | '\x27' :: c :: _ => c.toNat
  | '"' :: c :: _ => c.toNat
  | digits => ((number? digits).getD 0 : Nat)

/-- One conversion of a format. -/
def convert (kind : Char) (precision : Option Nat) (argument : List Char) : List Char :=
  let value := numericValue argument
  match kind with
  | 's' => match precision with
      | some n => argument.take n
      | none => argument
  | 'b' => (unescape true argument).1
  | 'c' => argument.take 1
  | 'x' => Nat.toDigits 16 value.toNat
  | 'X' => (Nat.toDigits 16 value.toNat).map Char.toUpper
  | 'o' => Nat.toDigits 8 value.toNat
  | 'd' => (toString value).toList
  | 'i' => (toString value).toList
  | 'u' => (toString value).toList
  | _ => []

/-- Writes a format once.  The result is the text, the arguments that are left, and whether any
argument was used. -/
def formatUpTo : Nat → List Char → Arguments → List Char × Arguments × Bool
  | 0, text, arguments => (text, arguments, false)
  | _ + 1, [], arguments => ([], arguments, false)
  | fuel + 1, '%' :: '%' :: rest, arguments =>
      let (text, arguments, used) := formatUpTo fuel rest arguments
      ('%' :: text, arguments, used)
  | fuel + 1, '%' :: rest, arguments =>
      let flags := rest.takeWhile fun c => c == '-' || c == '0' || c == '+' || c == ' '
      let rest := rest.drop flags.length
      let width := rest.takeWhile Char.isDigit
      let rest := rest.drop width.length
      let (precision, rest) := match rest with
        | '.' :: more =>
            (some ((number? (more.takeWhile Char.isDigit)).getD 0), more.dropWhile Char.isDigit)
        | _ => (none, rest)
      match rest with
      | [] => (['%'], arguments, false)
      | kind :: rest =>
          let piece := pad (flags.contains '-') (flags.contains '0') ((number? width).getD 0)
            (convert kind precision (arguments.headD []))
          let (text, arguments, _) := formatUpTo fuel rest (arguments.drop 1)
          (piece ++ text, arguments, true)
  | fuel + 1, c :: rest, arguments =>
      let (text, arguments, used) := formatUpTo fuel rest arguments
      (c :: text, arguments, used)

/-- Writes a format as often as there are arguments for it. -/
def formatAll (format : List Char) : Nat → Arguments → List Char
  | 0, _ => []
  | fuel + 1, arguments =>
      let (text, left, used) := formatUpTo format.length format arguments
      if used && !left.isEmpty then text ++ formatAll format fuel left else text

/-- Writes a format with its arguments. -/
def printf : Arguments → Act Nat
  | [] => do
      complain "printf: usage: printf format [arg ...]\n"
      return 2
  | format :: arguments => do
      let format := (unescape false format).1
      write 1 (formatAll format (arguments.length + 1) arguments)
      return 0

/-! ### Files as text -/

/-- The content of a file, or of the standard input for a dash. -/
def content (program : String) (file : List Char) : Act (Option Bytes) := do
  if file = ['-'] then return some (← readAll)
  else
    let world ← world
    match world.files.readBytes world.base (pathOf file) with
    | .ok bytes => return some bytes
    | .error e =>
        complain s!"{program}: {shown file}: {words e}\n"
        return none

/-- Writes files one after the other. -/
def cat (arguments : Arguments) : Act Nat := do
  let (_, files) := splitOptions arguments
  forAll (fun file => do
    match ← content "cat" file with
    | some bytes =>
        writeBytes 1 bytes
        return true
    | none => return false) (if files.isEmpty then [['-']] else files)

/-- How many bytes or lines are asked for, and the files. -/
def countAndFiles : Nat → Bool → Arguments → Nat × Bool × Arguments
  | count, bytes, [] => (count, bytes, [])
  | count, bytes, argument :: rest =>
      match argument, rest with
      | ['-', 'c'], n :: rest => countAndFiles ((number? n).getD count) true rest
      | ['-', 'n'], n :: rest => countAndFiles ((number? n).getD count) false rest
      | '-' :: 'c' :: n, rest => countAndFiles ((number? n).getD count) true rest
      | '-' :: 'n' :: n, rest => countAndFiles ((number? n).getD count) false rest
      | '-' :: d :: n, rest =>
          match number? (d :: n) with
          | some n => countAndFiles n false rest
          | none => countAndFiles count bytes rest
      | file, rest =>
          let (count, bytes, files) := countAndFiles count bytes rest
          (count, bytes, file :: files)

/-- The first lines of a byte sequence, with their ends. -/
def firstLines : Nat → Bytes → Bytes
  | 0, _ => []
  | count + 1, bytes =>
      match bytes.dropWhile (· != 0x0A) with
      | [] => bytes
      | _ :: rest => bytes.takeWhile (· != 0x0A) ++ 0x0A :: firstLines count rest

/-- The last lines of a byte sequence. -/
def lastLines (count : Nat) (bytes : Bytes) : Bytes :=
  let lines := Bytes.splitOn 0x0A bytes
  let (lines, end_) := if lines.getLast? == some [] then (lines.dropLast, [0x0A]) else (lines, [])
  Bytes.joinWith 0x0A (lines.drop (lines.length - count)) ++ (if lines.isEmpty then [] else end_)

/-- Writes the first part of its input. -/
def head (arguments : Arguments) : Act Nat := do
  let (count, byBytes, files) := countAndFiles 10 false arguments
  forAll (fun file => do
    if file = ['-'] && byBytes then
      writeBytes 1 (← readSome count)
      return true
    else match ← openSource file with
      | .ok .zero =>
          writeBytes 1 (if byBytes then List.replicate count 0 else [])
          return true
      | _ =>
          match ← content "head" file with
          | some bytes =>
              writeBytes 1 (if byBytes then bytes.take count else firstLines count bytes)
              return true
          | none => return false) (if files.isEmpty then [['-']] else files)

/-- Writes the last part of its input. -/
def tail (arguments : Arguments) : Act Nat := do
  let (count, byBytes, files) := countAndFiles 10 false arguments
  forAll (fun file => do
    match ← content "tail" file with
    | some bytes =>
        writeBytes 1 (if byBytes then bytes.drop (bytes.length - count)
          else lastLines count bytes)
        return true
    | none => return false) (if files.isEmpty then [['-']] else files)

/-- The characters of a set of characters with ranges. -/
def charSet (set : List Char) : List Char :=
  let rec expand : Nat → List Char → List Char
    | 0, _ => []
    | fuel + 1, a :: '-' :: b :: rest =>
        (List.range (b.toNat + 1 - a.toNat)).map (fun i => Char.ofNat (a.toNat + i)) ++
          expand fuel rest
    | fuel + 1, a :: rest => a :: expand fuel rest
    | _ + 1, [] => []
  let plain := (unescape false set).1
  expand plain.length plain

/-- Replaces or removes characters of its input. -/
def tr (arguments : Arguments) : Act Nat := do
  let (letters, sets) := splitOptions arguments
  let input := ofBytes (← readAll)
  let old := charSet (sets.headD [])
  if letters.contains 'd' then
    write 1 (input.filter fun c => !old.contains c)
  else
    let new := charSet ((sets.drop 1).headD [])
    write 1 (input.map fun c =>
      match old.idxOf? c with
      | some i => (new[i]? <|> new.getLast?).getD c
      | none => c)
  return 0

/-- Copies its input to its output and to files. -/
def tee (arguments : Arguments) : Act Nat := do
  let (letters, files) := splitOptions arguments
  let bytes ← readAll
  writeBytes 1 bytes
  forAll (fun file => do
    let result ← onFiles fun fs base =>
      if letters.contains 'a' then fs.appendBytes base (pathOf file) bytes
      else fs.writeBytes base (pathOf file) bytes
    check (fun e => s!"tee: {shown file}: {words e}") result) files

/-- Counts the lines, words and bytes of its input. -/
def wc (arguments : Arguments) : Act Nat := do
  let (letters, files) := splitOptions arguments
  let bytes ← match files with
    | [] => do pure (some (← readAll))
    | file :: _ => content "wc" file
  match bytes with
  | none => return 1
  | some bytes =>
      let text := ofBytes bytes
      let wordCount := ((text.splitOnP Char.isWhitespace).filter (· != [])).length
      let counts := (if letters = [] || letters.contains 'l' then [text.count '\n'] else []) ++
        (if letters = [] || letters.contains 'w' then [wordCount] else []) ++
        (if letters = [] || letters.contains 'c' then [text.length] else [])
      let columns := if counts.length = 1 then counts.map fun n => (toString n).toList
        else counts.map fun n => pad false false 7 (toString n).toList
      write 1 (joined (columns ++ files.take 1) ++ ['\n'])
      return 0

/-- Writes its input with the lines sorted. -/
def sort (arguments : Arguments) : Act Nat := do
  let (letters, files) := splitOptions arguments
  let bytes ← match files with
    | [] => do pure (some (← readAll))
    | file :: _ => content "sort" file
  match bytes with
  | none => return 2
  | some bytes =>
      let parts := Bytes.splitOn 0x0A bytes
      let lines := if parts.getLast? == some [] then parts.dropLast else parts
      let sorted := lines.mergeSort fun a b => a ≤ b
      let sorted := if letters.contains 'r' then sorted.reverse else sorted
      let sorted := if letters.contains 'u' then sorted.eraseDups else sorted
      writeBytes 1 (sorted.flatMap (· ++ [0x0A]))
      return 0

/-- Writes the numbers of a range, with steps between them. -/
def seq (arguments : Arguments) : Act Nat := do
  let (first, step, last) := match arguments.map fun text => (number? text).getD 0 with
    | [last] => (1, 1, last)
    | [first, last] => (first, 1, last)
    | first :: step :: last :: _ => (first, max 1 step, last)
    | [] => (1, 1, 0)
  write 1 ((List.range ((last + step - first) / step)).flatMap fun i =>
    (toString (first + step * i)).toList ++ ['\n'])
  return 0

/-! ### Files -/

/-- Creates directories. -/
def mkdir (arguments : Arguments) : Act Nat := do
  let (letters, paths) := splitOptions arguments
  forAll (fun path => do
    let result ← if letters.contains 'p' then do
        let (result, world) := (← world).createDirectories (pathOf path)
        changeWorld fun _ => world
        pure result
      else onFiles fun files base => files.createDirectory base (pathOf path)
    check (fun e => s!"mkdir: cannot create directory '{shown path}': {words e}") result) paths

/-- Removes an empty directory. -/
def removeEmpty (path : Path) (files : FileSystem) (base : Location) :
    Except IoError FileSystem :=
  match files.listDirectory base path with
  | .error e => .error e
  | .ok [] => files.removeTree base path
  | .ok _ => .error .notEmpty

/-- Removes empty directories. -/
def rmdir (arguments : Arguments) : Act Nat := do
  let (_, paths) := splitOptions arguments
  forAll (fun path => do
    let result ← onFiles fun files base => removeEmpty (pathOf path) files base
    check (fun e => s!"rmdir: failed to remove '{shown path}': {words e}") result) paths

/-- Removes files, and directories if asked to. -/
def rm (arguments : Arguments) : Act Nat := do
  let (letters, paths) := splitOptions arguments
  let forced := letters.contains 'f'
  let whole := letters.contains 'r' || letters.contains 'R'
  forAll (fun path => do
    let result ← onFiles fun files base =>
      match files.removeFile base (pathOf path) with
      | .error .isDirectory =>
          if whole then files.removeTree base (pathOf path) else .error .isDirectory
      | other => other
    match result with
    | .error .notFound =>
        if forced then return true
        else check (fun e => s!"rm: cannot remove '{shown path}': {words e}") result
    | _ => check (fun e => s!"rm: cannot remove '{shown path}': {words e}") result) paths

/-- The path at which a copy of a source is put. -/
def targetPath (source target : List Char) : Act (List Char) := do
  match ← stat? target with
  | some (.directory _) =>
      return target ++ '/' :: ofBytes ((pathOf source).fileName?.getD [])
  | _ => return target

/-- Copies a file with its permission. -/
def copyFile (source target : Path) (files : FileSystem) (base : Location) :
    Except IoError FileSystem :=
  match files.find base source with
  | .error e => .error e
  | .ok (_, .directory _) => .error .isDirectory
  | .ok (_, entry) =>
      match files.readBytes base source with
      | .error e => .error e
      | .ok bytes =>
          let isNew := !files.exists? base target
          match files.writeBytes base target bytes with
          | .error e => .error e
          | .ok files =>
              if isNew then files.setExecutable base target entry.isExecutable else .ok files

/-- Copies files. -/
def cp (arguments : Arguments) : Act Nat := do
  let (_, paths) := splitOptions arguments
  let target := paths.getLastD []
  forAll (fun source => do
    match ← stat? source with
    | none =>
        complain s!"cp: cannot stat '{shown source}': No such file or directory\n"
        return false
    | some _ =>
        let path ← targetPath source target
        let result ← onFiles (copyFile (pathOf source) (pathOf path))
        check (fun e => s!"cp: cannot create regular file '{shown path}': {words e}") result)
    paths.dropLast

/-- Renames files. -/
def mv (arguments : Arguments) : Act Nat := do
  let (_, paths) := splitOptions arguments
  let target := paths.getLastD []
  forAll (fun source => do
    let path ← targetPath source target
    let result ← onFiles fun files base => files.rename base (pathOf source) (pathOf path)
    check (fun e => s!"mv: cannot stat '{shown source}': {words e}") result) paths.dropLast

/-- Creates a link. -/
def ln (arguments : Arguments) : Act Nat := do
  let (letters, paths) := splitOptions arguments
  let target := paths.headD []
  let link ← targetPath target ((paths.drop 1).headD [])
  let result ← onFiles fun files base =>
    let files := if letters.contains 'f' then
        match files.removeFile base (pathOf link) with
        | .ok files => files
        | .error _ => files
      else files
    if letters.contains 's' then files.createLink base (pathOf target) (pathOf link)
    else copyFile (pathOf target) (pathOf link) files base
  let good ← check (fun e =>
    s!"ln: failed to create symbolic link '{shown link}': {words e}") result
  return if good then 0 else 1

/-- Creates files that are missing. -/
def touch (arguments : Arguments) : Act Nat := do
  let (_, paths) := splitOptions arguments
  forAll (fun path => do
    match ← stat? path with
    | some _ => return true
    | none =>
        let result ← onFiles fun files base => files.modify base (pathOf path) id
        check (fun e => s!"touch: cannot touch '{shown path}': {words e}") result) paths

/-- Whether a mode makes a file executable, if it says anything about that. -/
def executableMode? (mode : List Char) : Option Bool :=
  if mode.all isOctal then some (mode.any fun c => (c.toNat - 48) % 2 == 1)
  else if mode.contains 'x' then some (mode.contains '+' || mode.contains '=')
  else none

/-- Changes the permission of files. -/
def chmod : Arguments → Act Nat
  | [] => do
      complain "chmod: missing operand\n"
      return 1
  | mode :: paths =>
      forAll (fun path => do
        match executableMode? mode with
        | none => return true
        | some executable =>
            let result ← onFiles fun files base =>
              files.setExecutable base (pathOf path) executable
            check (fun e => s!"chmod: cannot access '{shown path}': {words e}") result) paths

/-- Lists a directory. -/
def ls (arguments : Arguments) : Act Nat := do
  let (letters, paths) := splitOptions arguments
  let code ← forAll (fun path => do
    let world ← world
    match world.files.listDirectory world.base (pathOf path) with
    | .ok names =>
        let names := names.filter fun name => letters.contains 'a' || name.head? != some 0x2E
        writeBytes 1 ((names.mergeSort fun a b => a ≤ b).flatMap (· ++ [0x0A]))
        return true
    | .error .notDirectory =>
        write 1 (path ++ ['\n'])
        return true
    | .error e =>
        complain s!"ls: cannot access '{shown path}': {words e}\n"
        return false) (if paths.isEmpty then [['.']] else paths)
  return if code = 0 then 0 else 2

/-- Writes where links lead. -/
def readlink (arguments : Arguments) : Act Nat := do
  let (_, paths) := splitOptions arguments
  forAll (fun path => do
    let world ← world
    match world.files.resolve world.base (pathOf path) false with
    | .ok (_, some (.link target)) =>
        writeBytes 1 (target.bytes ++ [0x0A])
        return true
    | _ => return false) paths

/-- Writes the last component of a path. -/
def basename : Arguments → Act Nat
  | [] => return 1
  | path :: suffixes => do
      let name := match (pathOf path).fileName? with
        | some name => ofBytes name
        | none => path
      let suffix := suffixes.headD []
      let name := if suffix != [] && suffix.isSuffixOf name && suffix != name then
          name.take (name.length - suffix.length)
        else name
      write 1 (name ++ ['\n'])
      return 0

/-- Writes a path without its last component. -/
def dirname : Arguments → Act Nat
  | [] => return 1
  | path :: _ => do
      let parent := match (pathOf path).parent? with
        | some ⟨[]⟩ => ['.']
        | some parent => ofBytes parent.bytes
        | none => if path.head? = some '/' then ['/'] else ['.']
      write 1 (parent ++ ['\n'])
      return 0

/-- Writes the current directory. -/
def pwd : Act Nat := do
  match (← world).currentDirectory with
  | .ok path =>
      writeBytes 1 (path.bytes ++ [0x0A])
      return 0
  | .error _ => return 1

/-! ### Tests -/

/-- A whole number with an optional sign. -/
def integer? : List Char → Option Int
  | '-' :: digits => (number? digits).map fun n => -(n : Int)
  | digits => (number? digits).map fun n => (n : Int)

/-- A test of a single argument. -/
def unaryTest (operator argument : List Char) : Act (Option Bool) := do
  let entry ← stat? argument
  let world ← world
  match operator with
  | ['-', 'n'] => return some (argument != [])
  | ['-', 'z'] => return some (argument == [])
  | ['-', 'e'] => return some entry.isSome
  | ['-', 'f'] => return some (entry.any Entry.isFile)
  | ['-', 'd'] => return some (entry.any Entry.isDirectory)
  | ['-', 'r'] => return some entry.isSome
  | ['-', 'w'] => return some entry.isSome
  | ['-', 'x'] => return some (entry.any fun e => e.isExecutable || e.isDirectory)
  | ['-', 's'] =>
      return some (entry.any fun e => match e with
        | .file _ content _ => content.size != 0
        | _ => true)
  | ['-', 'L'] =>
      return some (match world.files.resolve world.base (pathOf argument) false with
        | .ok (_, some (.link _)) => true
        | _ => false)
  | ['-', 'h'] =>
      return some (match world.files.resolve world.base (pathOf argument) false with
        | .ok (_, some (.link _)) => true
        | _ => false)
  | _ => return none

/-- A test of two arguments. -/
def binaryTest? (left operator right : List Char) : Option Bool :=
  let compare (test : Int → Int → Bool) : Option Bool :=
    match integer? left, integer? right with
    | some a, some b => some (test a b)
    | _, _ => none
  match String.ofList operator with
  | "=" => some (left == right)
  | "==" => some (left == right)
  | "!=" => some (left != right)
  | "-eq" => compare (· == ·)
  | "-ne" => compare (· != ·)
  | "-lt" => compare (· < ·)
  | "-le" => compare (· ≤ ·)
  | "-gt" => compare (· > ·)
  | "-ge" => compare (· ≥ ·)
  | _ => none

/-- Evaluates a test, or gives `none` for one that is not well-formed. -/
def evaluateTest : Nat → Arguments → Act (Option Bool)
  | 0, _ => return none
  | fuel + 1, arguments => do
      match arguments with
      | [] => return some false
      | [a] => return some (a != [])
      | ['!'] :: rest => return (← evaluateTest fuel rest).map (!·)
      | [a, b] => unaryTest a b
      | [a, b, c] => return binaryTest? a b c
      | _ =>
          match arguments.idxOf? ['-', 'o'], arguments.idxOf? ['-', 'a'] with
          | some i, _ =>
              let left ← evaluateTest fuel (arguments.take i)
              let right ← evaluateTest fuel (arguments.drop (i + 1))
              return (· || ·) <$> left <*> right
          | none, some i =>
              let left ← evaluateTest fuel (arguments.take i)
              let right ← evaluateTest fuel (arguments.drop (i + 1))
              return (· && ·) <$> left <*> right
          | none, none => return none

/-- Tests a condition. -/
def test (name : String) (arguments : Arguments) : Act Nat := do
  match ← evaluateTest (arguments.length + 1) arguments with
  | some true => return 0
  | some false => return 1
  | none =>
      complain s!"sh: 1: {name}: unexpected operator\n"
      return 2

/-- Tests a condition between brackets. -/
def bracketTest (arguments : Arguments) : Act Nat := do
  if arguments.getLast? = some [']'] then test "[" arguments.dropLast
  else
    complain "sh: 1: [: missing ]\n"
    return 2

/-! ### Time and variables -/

/-- A length of time in seconds, with a point and a unit. -/
def duration? (text : List Char) : Option Duration :=
  let whole := text.takeWhile Char.isDigit
  let rest := text.drop whole.length
  let (fraction, rest) := match rest with
    | '.' :: more => (more.takeWhile Char.isDigit, more.dropWhile Char.isDigit)
    | _ => ([], rest)
  let unit? := match rest with
    | [] => some 1
    | ['s'] => some 1
    | ['m'] => some 60
    | ['h'] => some 3600
    | ['d'] => some 86400
    | _ => none
  if whole = [] && fraction = [] then none
  else unit?.map fun unit =>
    let digits := (fraction ++ List.replicate 9 '0').take 9
    ⟨unit * ((number? (whole ++ digits)).getD 0)⟩

/-- Waits. -/
def sleep (arguments : Arguments) : Act Nat := do
  match arguments.mapM duration? with
  | some (first :: more) =>
      Act.sleep (more.foldl Duration.add first)
      return 0
  | some [] =>
      complain "sleep: missing operand\n"
      return 1
  | none =>
      complain s!"sleep: invalid time interval '{shown (arguments.headD [])}'\n"
      return 1

/-- Writes the variables of the process. -/
def printenv (arguments : Arguments) : Act Nat := do
  let environ := (← world).environ
  match arguments with
  | [] =>
      writeBytes 1 (environ.entries.flatMap fun (key, value) =>
        Bytes.ofText key ++ 0x3D :: value ++ [0x0A])
      return 0
  | keys =>
      forAll (fun key => do
        match environ.get? (shown key) with
        | some value =>
            writeBytes 1 (value ++ [0x0A])
            return true
        | none => return false) keys

end Program

/-- What a program of the system does, if there is one with this name that runs no other program. -/
def program? (name : String) (arguments : Arguments) : Option (Act Nat) :=
  match name with
  | "[" => some (Program.bracketTest arguments)
  | "basename" => some (Program.basename arguments)
  | "cat" => some (Program.cat arguments)
  | "chmod" => some (Program.chmod arguments)
  | "cp" => some (Program.cp arguments)
  | "dirname" => some (Program.dirname arguments)
  | "echo" => some (Program.echo arguments)
  | "false" => some (return 1)
  | "head" => some (Program.head arguments)
  | "ln" => some (Program.ln arguments)
  | "ls" => some (Program.ls arguments)
  | "mkdir" => some (Program.mkdir arguments)
  | "mv" => some (Program.mv arguments)
  | "printenv" => some (Program.printenv arguments)
  | "printf" => some (Program.printf arguments)
  | "pwd" => some Program.pwd
  | "readlink" => some (Program.readlink arguments)
  | "rm" => some (Program.rm arguments)
  | "rmdir" => some (Program.rmdir arguments)
  | "seq" => some (Program.seq arguments)
  | "sleep" => some (Program.sleep arguments)
  | "sort" => some (Program.sort arguments)
  | "tail" => some (Program.tail arguments)
  | "tee" => some (Program.tee arguments)
  | "test" => some (Program.test "test" arguments)
  | "touch" => some (Program.touch arguments)
  | "tr" => some (Program.tr arguments)
  | "true" => some (return 0)
  | "wc" => some (Program.wc arguments)
  | _ => none

end Enclave.Shell
