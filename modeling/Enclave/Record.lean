import Enclave.Explanation
import Enclave.Fingerprint
import Enclave.Json.Parser
import Enclave.Json.Printer
import Enclave.Layout
import Enclave.Time.Stamp

/-! # Build records

A build record says what the last successful build of an environment was made of.  It is a JSON
object in a file inside the environment.  A record is written to a draft that is then renamed, so a
record is never seen in part; a file that cannot be read as a record, or whose fingerprint is not
well-formed, counts as no record. -/

namespace Enclave

/-- What an environment was built from, when and by which version of the program. -/
structure BuildRecord where
  name : String
  fingerprint : Fingerprint
  interpreter : String
  requirements : List String
  builtAt : Instant
  toolVersion : String
deriving DecidableEq

namespace BuildRecord

open Json (Value)

/-- The version of the program. -/
def currentVersion : String := "0.1.0"

/-- The record of a build that is made now. -/
def make (name interpreter : String) (fingerprint : Fingerprint) (requirements : List String)
    (now : Instant) : BuildRecord :=
  ⟨name, fingerprint, interpreter, requirements, now, currentVersion⟩

/-! ### Form -/

/-- The keys of a record's members in their order. -/
def keys : List String :=
  ["name", "fingerprint", "interpreter", "requirements", "built_at", "tool_version"]

/-- The JSON object of a record. -/
def toJson (record : BuildRecord) : Value :=
  .ofMembers [
    ("name", .ofText record.name),
    ("fingerprint", .ofText record.fingerprint.text),
    ("interpreter", .ofText record.interpreter),
    ("requirements", .ofTexts record.requirements),
    ("built_at", .ofText record.builtAt.text),
    ("tool_version", .ofText record.toolVersion)]

/-- The content of a record's file. -/
def text (record : BuildRecord) : String :=
  Json.pretty record.toJson

/-- The record with the given members.  Requirements and version may be missing, but not be of
another type. -/
def ofMembers? (name fingerprint interpreter requirements builtAt version : Option Value) :
    Option BuildRecord := do
  let name ← (← name).text?
  let fingerprint ← (← fingerprint).text?
  let interpreter ← (← interpreter).text?
  let requirements ← match requirements with
    | some value => value.texts?
    | none => some []
  let builtAt ← Instant.parse? (← (← builtAt).text?)
  let version ← match version with
    | some value => value.text?
    | none => some ""
  return ⟨name, ⟨fingerprint⟩, interpreter, requirements, builtAt, version⟩

/-- Whether every key denotes a text and no key of a record occurs twice. -/
def keysAdmissible (members : List (Option String × Value)) : Bool :=
  members.all (·.1.isSome) && keys.all fun key => (members.filter (·.1 == some key)).length ≤ 1

/-- The record that a JSON value denotes: an object, whose further members do not matter, or an
array with the members' values in their order. -/
def ofJson? : Value → Option BuildRecord
  | .object members =>
      let member (key : String) := members.lookup (some key)
      if keysAdmissible members then
        ofMembers? (member "name") (member "fingerprint") (member "interpreter")
          (member "requirements") (member "built_at") (member "tool_version")
      else none
  | .array items =>
      if items.length ≤ keys.length then
        ofMembers? items[0]? items[1]? items[2]? items[3]? items[4]? items[5]?
      else none
  | _ => none

/-- The record that a text denotes. -/
def parse? (text : String) : Option BuildRecord :=
  (Json.parse? text.toList).bind ofJson?

/-! ### Files -/

/-- Why the file of a record could not be changed. -/
inductive Failure
  | draft (file : Path) (cause : IoError)
  | move (file : Path) (cause : IoError)
  | remove (file : Path) (cause : IoError)
deriving DecidableEq, Repr

/-- The explanation of a failure. -/
def Failure.explanation : Failure → Explanation
  | .draft file cause => ⟨s!"Failed to write build record: {file.display}", [cause.message]⟩
  | .move file cause =>
      ⟨s!"Failed to move build record into place: {file.display}", [cause.message]⟩
  | .remove file cause => ⟨s!"Failed to remove build record: {file.display}", [cause.message]⟩

/-- The report about a file that is not taken as a record. -/
def ignored (file : Path) (why : String) : Event :=
  ⟨.warn, .record, s!"ignoring {why}", [("path", file.display)]⟩

/-- The record in the content of a file, and the report if it is not taken as one. -/
def ofContent (file : Path) (content : String) : Option BuildRecord × List Event :=
  match parse? content with
  | some record =>
      if record.fingerprint.isWellFormed then (some record, [])
      else (none, [ignored file "build record with malformed fingerprint"])
  | none => (none, [ignored file "unreadable build record"])

/-- The record of an environment. -/
def load (world : World) (location : Path) : Option BuildRecord × List Event :=
  match world.readText (Layout.recordFile location) with
  | .ok content => ofContent (Layout.recordFile location) content
  | .error _ => (none, [])

/-- Writes a record to the draft. -/
def writeDraft (record : BuildRecord) (location : Path) (world : World) :
    Except Failure Unit × World :=
  let draft := Layout.recordDraft location
  match world.change fun files base => files.writeBytes base draft (Bytes.ofText record.text) with
  | (.ok (), world) => (.ok (), world)
  | (.error cause, world) => (.error (.draft draft cause), world)

/-- Makes the draft the record. -/
def moveDraft (location : Path) (world : World) : Except Failure Unit × World :=
  let file := Layout.recordFile location
  match world.change fun files base => files.rename base (Layout.recordDraft location) file with
  | (.ok (), world) => (.ok (), world)
  | (.error cause, world) => (.error (.move file cause), world)

/-- Makes a record the record of an environment. -/
def store (record : BuildRecord) (location : Path) (world : World) :
    Except Failure Unit × World :=
  match record.writeDraft location world with
  | (.ok (), world) => moveDraft location world
  | (.error failure, world) => (.error failure, world)

/-- Removes the record of an environment.  A missing one is no failure. -/
def remove (location : Path) (world : World) : Except Failure Unit × World :=
  let file := Layout.recordFile location
  match world.change fun files base => files.removeFile base file with
  | (.ok (), world) => (.ok (), world)
  | (.error .notFound, world) => (.ok (), world)
  | (.error cause, world) => (.error (.remove file cause), world)

end BuildRecord
end Enclave
