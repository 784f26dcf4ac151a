import Enclave.Path
import Enclave.IoError

/-! # The file system

A file system maps locations, the names on the way down from the root, to entries: directories,
files, symbolic links, devices and the programs of the system.  `resolve` finds the location that a
path denotes; it follows symbolic links on the way and, if asked, at the end. -/

namespace Enclave

/-- The names from the root down to an entry. -/
abbrev Location := List Bytes

namespace Location

/-- The absolute path of a location. -/
def path (location : Location) : Path :=
  if location = [] then ⟨[Path.slash]⟩ else ⟨location.flatMap (Path.slash :: ·)⟩

/-- The location that the names in a text denote, without looking at any file. -/
def ofText (text : String) : Location :=
  (Bytes.splitOn Path.slash (Bytes.ofText text)).filter (!Path.isTrivial ·)

/-- Whether `location` is `top` or below it. -/
def isWithin (top location : Location) : Bool :=
  top.isPrefixOf location

end Location

/-- What a file holds: some bytes and then a number of zero bytes. -/
structure Content where
  data : Bytes
  zeros : Nat := 0
deriving DecidableEq, Repr, Inhabited

namespace Content

/-- All bytes of a file. -/
def bytes (content : Content) : Bytes :=
  content.data ++ List.replicate content.zeros 0

/-- The number of bytes of a file. -/
def size (content : Content) : Nat :=
  content.data.length + content.zeros

theorem length_bytes (content : Content) : content.bytes.length = content.size := by
  simp [bytes, size]

end Content

/-- The devices that programs read from and write to. -/
inductive Device
  | null
  | zero
deriving DecidableEq, Repr

/-- What stands at a location.  Directories and files have a number that no other entry ever
has. -/
inductive Entry
  | directory (id : Nat)
  | file (id : Nat) (content : Content) (executable : Bool)
  | link (target : Path)
  | device (device : Device)
  | program (name : String)
deriving DecidableEq, Repr

namespace Entry

/-- Whether the entry is a directory. -/
def isDirectory : Entry → Bool
  | directory _ => true
  | _ => false

/-- Whether the entry is a regular file. -/
def isFile : Entry → Bool
  | file _ _ _ => true
  | program _ => true
  | _ => false

/-- Whether the entry is a regular file that may be executed. -/
def isExecutable : Entry → Bool
  | file _ _ executable => executable
  | program _ => true
  | _ => false

end Entry

/-- All entries below the root, and the number for the next new entry. -/
structure FileSystem where
  entries : List (Location × Entry)
  nextId : Nat
deriving Repr, Inhabited

namespace FileSystem

/-- What stands at a location.  The root is always a directory. -/
def entry? (fs : FileSystem) (location : Location) : Option Entry :=
  if location = [] then some (.directory 0) else fs.entries.lookup location

/-- Puts an entry at a location. -/
def put (fs : FileSystem) (location : Location) (entry : Entry) : FileSystem :=
  match fs.entries.lookup location with
  | none => { fs with entries := fs.entries ++ [(location, entry)] }
  | some _ =>
      { fs with entries := fs.entries.map fun e => if e.1 = location then (location, entry) else e }

/-- Removes the entry at a location and everything below it. -/
def prune (fs : FileSystem) (location : Location) : FileSystem :=
  { fs with entries := fs.entries.filter fun e => !location.isWithin e.1 }

/-- Puts a new entry, which gets a number of its own. -/
def putNew (fs : FileSystem) (location : Location) (entry : Nat → Entry) : FileSystem :=
  { fs.put location (entry fs.nextId) with nextId := fs.nextId + 1 }

/-- The greatest number of symbolic links on the way to an entry. -/
def maxLinks : Nat := 40

/-- The greatest length of a name in bytes. -/
def maxNameLength : Nat := 255

/-- The greatest length of a path in bytes. -/
def maxPathLength : Nat := 4095

/-- The parts of a path to walk along.  A slash at the end asks for a directory, as a dot does. -/
def stepsOf (path : Path) : List Bytes :=
  (Bytes.splitOn Path.slash path.bytes).filter (· != []) ++
    if path.bytes.getLast? == some Path.slash then [Path.dot] else []

/-- Walks from a directory along the parts of a path.  The result is a location and what stands
there; only the last part may be missing.  `jump` goes on where a link is followed. -/
def walkWith (fs : FileSystem) (follow : Bool)
    (jump : Location → List Bytes → Except IoError (Location × Option Entry)) (here : Location) :
    List Bytes → Except IoError (Location × Option Entry)
  | [] => .ok (here, fs.entry? here)
  | part :: rest =>
      if part = Path.dot then fs.walkWith follow jump here rest
      else if part = Path.dotDot then fs.walkWith follow jump here.dropLast rest
      else if maxNameLength < part.length then .error .nameTooLong
      else
        let next := here ++ [part]
        match fs.entry? next with
        | none => if rest = [] then .ok (next, none) else .error .notFound
        | some (.link target) =>
            if rest = [] ∧ follow = false then .ok (next, some (.link target))
            else jump (if target.isAbsolute then [] else here) (stepsOf target ++ rest)
        | some entry =>
            if rest = [] then .ok (next, some entry)
            else if entry.isDirectory then fs.walkWith follow jump next rest
            else .error .notDirectory

/-- Walks from a directory along the parts of a path, with some links left to follow. -/
def walk (fs : FileSystem) (follow : Bool) :
    Nat → Location → List Bytes → Except IoError (Location × Option Entry)
  | 0 => fs.walkWith follow fun _ _ => .error .tooManyLinks
  | links + 1 => fs.walkWith follow (fs.walk follow links)

/-- The location that a path denotes when it is seen from a directory, and what stands there. -/
def resolve (fs : FileSystem) (base : Location) (path : Path) (follow : Bool) :
    Except IoError (Location × Option Entry) :=
  if path.bytes.contains 0 then .error .nulInPath
  else if path.bytes = [] then .error .notFound
  else if maxPathLength < path.bytes.length then .error .nameTooLong
  else fs.walk follow maxLinks (if path.isAbsolute then [] else base) (stepsOf path)

/-- What a path denotes, with links followed. -/
def find (fs : FileSystem) (base : Location) (path : Path) : Except IoError (Location × Entry) :=
  match fs.resolve base path true with
  | .error e => .error e
  | .ok (_, none) => .error .notFound
  | .ok (location, some entry) => .ok (location, entry)

/-- The entry that a path denotes, with links followed. -/
def stat? (fs : FileSystem) (base : Location) (path : Path) : Option Entry :=
  (fs.find base path).toOption.map (·.2)

/-- Whether a path denotes anything. -/
def exists? (fs : FileSystem) (base : Location) (path : Path) : Bool :=
  (fs.stat? base path).isSome

/-- Whether a path denotes a regular file. -/
def isFile (fs : FileSystem) (base : Location) (path : Path) : Bool :=
  (fs.stat? base path).any Entry.isFile

/-- Whether a path denotes a directory. -/
def isDirectory (fs : FileSystem) (base : Location) (path : Path) : Bool :=
  (fs.stat? base path).any Entry.isDirectory

/-- Whether a path denotes a regular file that may be executed. -/
def isExecutable (fs : FileSystem) (base : Location) (path : Path) : Bool :=
  (fs.stat? base path).any Entry.isExecutable

/-- The file system with the entries whose own paths are short enough to be looked up. -/
def inReach (fs : FileSystem) : FileSystem :=
  { fs with entries := fs.entries.filter (·.1.path.bytes.length ≤ maxPathLength) }

/-- The path of the location that a path denotes: absolute and free of links and dots.  It is found
name by name, so the path may be of any length, but every location on the way has to be in reach. -/
def canonical? (fs : FileSystem) (base : Location) (path : Path) : Option Path :=
  if path.bytes.contains 0 || path.bytes == [] then none
  else match fs.inReach.walk true maxLinks (if path.isAbsolute then [] else base) (stepsOf path) with
    | .ok (location, some _) => some location.path
    | _ => none

/-- The names in a directory. -/
def namesIn (fs : FileSystem) (location : Location) : List Bytes :=
  fs.entries.filterMap fun e =>
    match e.1.getLast? with
    | some name => if e.1 = location ++ [name] then some name else none
    | none => none

end FileSystem
end Enclave
