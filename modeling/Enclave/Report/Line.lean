import Enclave.Bytes
import Enclave.Event
import Enclave.Json.Printer
import Enclave.Time.Stamp

/-! # Events as lines

An event is shown on one line: as plain text, as coloured text, or as a JSON document. -/

namespace Enclave.Report

/-- The form of a line. -/
inductive LineStyle
  | plain
  | coloured
  | document
deriving DecidableEq, Repr

/-- The moment of an event, with six digits of the second's fraction. -/
def moment (now : Instant) : String :=
  Instant.dateText now.date ++ "T" ++ Instant.clockText now.second ++
    Decimal.padded 2 now.shownSecond ++ "." ++
    Decimal.padded 6 (now.nano % Instant.secondNanos / 1000) ++ "Z"

/-- A character of a message.  Those that control a terminal are shown as escapes. -/
def shownChar (c : Char) : List Char :=
  if ['\x07', '\x08', '\x0c', '\x1b', '\x7f'].contains c then
    '\\' :: 'x' :: Bytes.hexByte (UInt8.ofNat c.toNat)
  else if 0x80 ≤ c.toNat && c.toNat ≤ 0x9f then
    ['\\', 'u', '\x7b'] ++ Bytes.hexByte (UInt8.ofNat c.toNat) ++ ['\x7d']
  else [c]

/-- A message as it is shown. -/
def shownMessage (message : String) : String :=
  String.ofList (message.toList.flatMap shownChar)

/-- The name of a level in five columns. -/
def levelColumn (level : Level) : String :=
  String.ofList (List.replicate (5 - level.label.length) ' ') ++ level.label

/-- The number of a level's colour. -/
def colour : Level → Nat
  | .error => 31
  | .warn => 33
  | .info => 32
  | .debug => 34
  | .trace => 35

/-- A text between the start of a rendition and the end of it. -/
def painted (rendition : Nat) (text : String) : String :=
  s!"\x1b[{rendition}m" ++ text ++ "\x1b[0m"

/-- The rendition of what is less important. -/
def dim : Nat := 2

/-- The rendition of the names of fields. -/
def italic : Nat := 3

/-- An event as plain text. -/
def plainLine (now : Instant) (event : Event) : String :=
  let fields := event.fields.map fun (key, value) => s!" {key}={value.shown}"
  s!"{moment now} {levelColumn event.level} {event.source.target}: {shownMessage event.message}" ++
    String.join fields

/-- An event as coloured text. -/
def colouredLine (now : Instant) (event : Event) : String :=
  let fields := event.fields.map fun (key, value) =>
    " " ++ painted italic key ++ painted dim "=" ++ value.shown
  painted dim (moment now) ++ " " ++ painted (colour event.level) (levelColumn event.level) ++ " " ++
    painted dim event.source.target ++ painted dim ":" ++ " " ++ shownMessage event.message ++
    String.join fields

/-- The value of a field. -/
def fieldJson : FieldValue → Json.Value
  | .text value => .ofText value
  | .number value => .ofNat value

/-- An event as a document. -/
def documentLine (now : Instant) (event : Event) : String :=
  let fields := event.fields.map fun (key, value) => (key, fieldJson value)
  Json.compact (.ofMembers [("timestamp", .ofText (moment now)),
    ("level", .ofText event.level.label),
    ("fields", .ofMembers (("message", .ofText event.message) :: fields)),
    ("target", .ofText event.source.target)])

/-- The line of an event. -/
def line (style : LineStyle) (now : Instant) (event : Event) : String :=
  (match style with
    | .plain => plainLine now event
    | .coloured => colouredLine now event
    | .document => documentLine now event) ++ "\n"

end Enclave.Report
