import Enclave.Shell.Pattern
import Enclave.Shell.Process

/-! # Fields

A word is first replaced by segments, some of which still have to be split at blanks, and the
segments give the fields that become arguments.  A field with special characters is a pattern of
paths. -/

namespace Enclave.Shell

/-- A part of a word after its expansions. -/
inductive Segment
  /-- A text in which characters may be special. -/
  | plain (text : List Char)
  /-- A text in which no character is special.  It makes a field even if it is empty. -/
  | quoted (text : List Char)
  /-- A value that is split at blanks. -/
  | split (text : List Char)
  /-- Separate fields. -/
  | fields (items : List (List Char))
deriving Repr

namespace Segment

/-- The text of a segment that is not split. -/
def text : Segment → List Char
  | plain text => text
  | quoted text => text
  | split text => text
  | fields items => [' '].intercalate items

/-- The characters of a segment as a pattern. -/
def pattern : Segment → List PatternChar
  | plain text => specially text
  | split text => specially text
  | quoted text => literally text
  | fields items => literally ([' '].intercalate items)

/-- The segment of a word that stands for a value. -/
def asValue : Segment → Segment
  | plain text => split text
  | other => other

end Segment

/-- The text of a word that is not split. -/
def textOf (segments : List Segment) : List Char :=
  segments.flatMap Segment.text

/-- The pattern that a word denotes. -/
def patternOf (segments : List Segment) : List PatternChar :=
  segments.flatMap Segment.pattern

/-- Finished fields, and the one that is being built. -/
structure Fields where
  finished : List (List PatternChar) := []
  current : Option (List PatternChar) := none

namespace Fields

/-- Adds characters to the current field. -/
def append (fields : Fields) (text : List PatternChar) : Fields :=
  { fields with current := some (fields.current.getD [] ++ text) }

/-- Ends the current field. -/
def next (fields : Fields) : Fields :=
  ⟨fields.finished ++ fields.current.toList, none⟩

/-- A character at which values are split. -/
def isSeparator (c : Char) : Bool := c == ' ' || c == '\t' || c == '\n'

/-- Adds a segment. -/
def add (fields : Fields) : Segment → Fields
  | .plain text => fields.append (specially text)
  | .quoted text => fields.append (literally text)
  | .split text =>
      text.foldl (fun fields c =>
        if isSeparator c then fields.next else fields.append (specially [c])) fields
  | .fields [] => fields
  | .fields (item :: items) =>
      items.foldl (fun fields item => fields.next.append (literally item))
        (fields.append (literally item))

/-- The fields that segments make. -/
def ofSegments (segments : List Segment) : List (List PatternChar) :=
  (segments.foldl add {}).next.finished

end Fields

/-- The text of a pattern. -/
def patternText (pattern : List PatternChar) : List Char :=
  pattern.map (·.1)

/-- The paths that start with `front` and go on with components that match. -/
def pathsFrom (world : World) : List Char → List (List PatternChar) → List (List Char)
  | front, [] => if world.pathExists (Act.pathOf front) then [front] else []
  | front, component :: rest =>
      let end_ := if rest = [] then [] else ['/']
      if !hasSpecial component then pathsFrom world (front ++ patternText component ++ end_) rest
      else
        let directory := if front = [] then ['.'] else front
        match world.files.listDirectory world.base (Act.pathOf directory) with
        | .error _ => []
        | .ok names =>
            let names := names.filter fun name =>
              isMatch component (ofBytes name) &&
                (name.head? != some 0x2E || component.head?.map (·.1) == some '.')
            (names.mergeSort fun a b => a ≤ b).flatMap fun name =>
              pathsFrom world (front ++ ofBytes name ++ end_) rest

/-- The paths that match a field, or its text if there are none. -/
def matchingPaths (world : World) (field : List PatternChar) : List (List Char) :=
  if !hasSpecial field then [patternText field]
  else match pathsFrom world [] (field.splitOnP fun c => c.1 == '/') with
    | [] => [patternText field]
    | paths => paths

end Enclave.Shell
