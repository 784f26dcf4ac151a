import Enclave.FileSystem.Basic

/-! # Operations on files

Reading, writing, creating, removing and renaming.  Every operation takes the directory from which
relative paths are seen, and either fails and changes nothing or gives the new file system; only
`createDirectories` can fail after it has created some directories. -/

namespace Enclave.FileSystem

/-- The bytes of the file that a path denotes. -/
def readBytes (fs : FileSystem) (base : Location) (path : Path) : Except IoError Bytes :=
  match fs.find base path with
  | .error e => .error e
  | .ok (_, .file _ content _) => .ok content.bytes
  | .ok (_, .directory _) => .error .isDirectory
  | .ok (_, _) => .ok []

/-- The text of the file that a path denotes. -/
def readText (fs : FileSystem) (base : Location) (path : Path) : Except IoError String :=
  match fs.readBytes base path with
  | .error e => .error e
  | .ok bytes =>
      match bytes.text? with
      | some text => .ok text
      | none => .error .notUtf8

/-- The location above a location at which something new can be put.  Nothing can be put where a
removed directory is, which no name denotes. -/
def checkParent (fs : FileSystem) (location : Location) : Except IoError Unit :=
  if location.getLast?.any (·.contains Path.slash) then .error .notFound
  else match fs.entry? location.dropLast with
  | some (.directory _) => .ok ()
  | some _ => .error .notDirectory
  | none => .error .notFound

/-- Opens a file for writing.  A missing file is created; `change` gives the new content from the
old one. -/
def modify (fs : FileSystem) (base : Location) (path : Path) (change : Content → Content) :
    Except IoError FileSystem :=
  match fs.resolve base path true with
  | .error e => .error e
  | .ok (location, some (.file id content executable)) =>
      .ok (fs.put location (.file id (change content) executable))
  | .ok (_, some (.directory _)) => .error .isDirectory
  | .ok (_, some _) => .ok fs
  | .ok (location, none) =>
      match fs.checkParent location with
      | .error e => .error e
      | .ok () => .ok (fs.putNew location fun id => .file id (change ⟨[], 0⟩) false)

/-- Writes a file, replacing what it held. -/
def writeBytes (fs : FileSystem) (base : Location) (path : Path) (bytes : Bytes) :
    Except IoError FileSystem :=
  fs.modify base path fun _ => ⟨bytes, 0⟩

/-- Writes at the end of a file. -/
def appendBytes (fs : FileSystem) (base : Location) (path : Path) (bytes : Bytes) :
    Except IoError FileSystem :=
  fs.modify base path fun old =>
    if bytes = [] then old
    else if old.zeros = 0 then ⟨old.data ++ bytes, 0⟩
    else ⟨old.bytes ++ bytes, 0⟩

/-- Makes sure that a file exists, and gives its number. -/
def touch (fs : FileSystem) (base : Location) (path : Path) : Except IoError (FileSystem × Nat) :=
  match fs.modify base path id with
  | .error e => .error e
  | .ok fs =>
      match fs.stat? base path with
      | some (.file id _ _) => .ok (fs, id)
      | _ => .ok (fs, 0)

/-- Makes a file executable or not. -/
def setExecutable (fs : FileSystem) (base : Location) (path : Path) (executable : Bool) :
    Except IoError FileSystem :=
  match fs.find base path with
  | .error e => .error e
  | .ok (location, .file id content _) => .ok (fs.put location (.file id content executable))
  | .ok (_, _) => .ok fs

/-- A path without slashes at its end. -/
def withoutFinalSlashes (path : Path) : Path :=
  let kept := (path.bytes.reverse.dropWhile (· == Path.slash)).reverse
  if kept = [] then path else ⟨kept⟩

/-- Creates a directory. -/
def createDirectory (fs : FileSystem) (base : Location) (path : Path) : Except IoError FileSystem :=
  match fs.resolve base (withoutFinalSlashes path) false with
  | .error e => .error e
  | .ok (_, some _) => .error .alreadyExists
  | .ok (location, none) =>
      match fs.checkParent location with
      | .error e => .error e
      | .ok () => .ok (fs.putNew location .directory)

/-- Creates a directory and whatever is missing above it, for a path with at most `fuel`
components.  A directory that exists already is no failure. -/
def createDirectoriesUpTo : Nat → FileSystem → Location → Path → Except IoError Unit × FileSystem
  | fuel, fs, base, path =>
      if path.bytes = [] then (.ok (), fs)
      else match fs.createDirectory base path with
        | .ok fs => (.ok (), fs)
        | .error .notFound =>
            match fuel, path.parent? with
            | 0, _ => (.error .noWholeTree, fs)
            | _, none => (.error .noWholeTree, fs)
            | fuel + 1, some parent =>
                match createDirectoriesUpTo fuel fs base parent with
                | (.error e, fs) => (.error e, fs)
                | (.ok (), fs) =>
                    match fs.createDirectory base path with
                    | .ok fs => (.ok (), fs)
                    | .error e => if fs.isDirectory base path then (.ok (), fs) else (.error e, fs)
        | .error e => if fs.isDirectory base path then (.ok (), fs) else (.error e, fs)

/-- Creates a directory and whatever is missing above it. -/
def createDirectories (fs : FileSystem) (base : Location) (path : Path) :
    Except IoError Unit × FileSystem :=
  createDirectoriesUpTo path.bytes.length fs base path

/-- Removes a file or a link. -/
def removeFile (fs : FileSystem) (base : Location) (path : Path) : Except IoError FileSystem :=
  match fs.resolve base path false with
  | .error e => .error e
  | .ok (_, none) => .error .notFound
  | .ok (_, some (.directory _)) => .error .isDirectory
  | .ok (location, some _) => .ok (fs.prune location)

/-- The file system without what is below a location. -/
def empty (fs : FileSystem) (location : Location) : FileSystem :=
  { fs with entries := fs.entries.filter fun e => e.1 == location || !location.isWithin e.1 }

/-- Why the directory that a path denotes cannot be removed under this path: it ends in dots, or in
the name of a link with slashes after it. -/
def obstacle? (fs : FileSystem) (base : Location) (path : Path) : Option IoError :=
  match (Bytes.splitOn Path.slash path.bytes).reverse.find? (· != []) with
  | none => some .busy
  | some part =>
      if part = Path.dot then some .invalidArgument
      else if part = Path.dotDot then some .notEmpty
      else match fs.resolve base (withoutFinalSlashes path) false with
        | .ok (_, some (.link _)) => some .notDirectory
        | _ => none

/-- Removes a directory with everything below it, or a link without what it points at.  The root is
always in use. -/
def removeTree (fs : FileSystem) (base : Location) (path : Path) : Except IoError FileSystem :=
  match fs.resolve base path false with
  | .error e => .error e
  | .ok (_, none) => .error .notFound
  | .ok ([], _) => .error .busy
  | .ok (location, some (.directory _)) =>
      match fs.obstacle? base path with
      | some e => .error e
      | none => .ok (fs.prune location)
  | .ok (location, some (.link _)) => .ok (fs.prune location)
  | .ok (_, some _) => .error .notDirectory

/-- The file system after a directory could not be removed: it was emptied first. -/
def emptied (fs : FileSystem) (base : Location) (path : Path) : FileSystem :=
  match fs.resolve base path false with
  | .ok (first :: rest, some (.directory _)) => fs.empty (first :: rest)
  | _ => fs

/-- Gives a file another path and replaces a file that was there. -/
def rename (fs : FileSystem) (base : Location) (source target : Path) : Except IoError FileSystem :=
  match fs.resolve base source false, fs.resolve base target false with
  | .error e, _ => .error e
  | .ok (_, none), _ => .error .notFound
  | .ok _, .error e => .error e
  | .ok (_, some (.directory _)), .ok (_, some (.file _ _ _)) => .error .notDirectory
  | .ok (_, some (.directory _)), _ => .error .permissionDenied
  | .ok _, .ok (_, some (.directory _)) => .error .isDirectory
  | .ok (former, some entry), .ok (latter, _) =>
      if former = latter then .ok fs
      else match fs.checkParent latter with
        | .error e => .error e
        | .ok () => .ok ((fs.prune former).put latter entry)

/-- Creates a symbolic link. -/
def createLink (fs : FileSystem) (base : Location) (target path : Path) :
    Except IoError FileSystem :=
  match fs.resolve base path false with
  | .error e => .error e
  | .ok (_, some _) => .error .alreadyExists
  | .ok (location, none) =>
      match fs.checkParent location with
      | .error e => .error e
      | .ok () => .ok (fs.put location (.link target))

/-- The names in the directory that a path denotes. -/
def listDirectory (fs : FileSystem) (base : Location) (path : Path) :
    Except IoError (List Bytes) :=
  match fs.find base path with
  | .error e => .error e
  | .ok (location, .directory _) => .ok (fs.namesIn location)
  | .ok (_, _) => .error .notDirectory

/-- The total size of the files and links below a location.  Links are not followed. -/
def sizeBelow (fs : FileSystem) (location : Location) : Nat :=
  (fs.entries.map fun e =>
    if location.isWithin e.1 && e.1 != location then
      match e.2 with
      | .file _ content _ => content.size
      | .link target => target.bytes.length
      | _ => 0
    else 0).foldl (· + ·) 0

end Enclave.FileSystem
