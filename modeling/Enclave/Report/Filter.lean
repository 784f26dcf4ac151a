import Enclave.Event
import Enclave.Text.Blank

/-! # Which events are shown

A filter is a list of directives.  A directive lets the events of some sources through up to a
level; of the directives that concern an event, the one with the longest target decides
(`admits_of_decides`).  An event that no directive concerns is not shown. -/

namespace Enclave.Report

/-- Which sources a directive concerns, and what it lets through.  A directive for spans concerns no
event outside of them. -/
structure Directive where
  target : Option (List Char)
  threshold : Threshold
  spansOnly : Bool := false
deriving Repr, DecidableEq

namespace Directive

/-- The threshold that lets everything through. -/
def everything : Threshold := .upTo .trace

/-- The refusal of a text that is no directive. -/
def malformed : String := "invalid filter directive"

/-- The refusal of a text that is no level. -/
def badLevel : String :=
  "error parsing level filter: expected one of \"off\", \"error\", \"warn\", \"info\", \"debug\", " ++
    "\"trace\", or a number 0-5"

/-- Whether a target can start with a character. -/
def startsTarget (c : Char) : Bool :=
  c.isAlphanum || c == '-' || c == ':' || c == '_' || 127 < c.toNat

/-- The directive that the text of a level, or of a target alone, stands for. -/
def ofWord (text : String) : Directive :=
  match Threshold.parse? text with
  | some threshold => ⟨none, threshold, false⟩
  | none => ⟨some text.toList, everything, false⟩

/-- The threshold after an equals sign; without a level everything is let through. -/
def levelAfter (text : String) : Except String Threshold :=
  if text = "" then .ok everything
  else match Threshold.parse? text with
    | some threshold => .ok threshold
    | none => .error badLevel

/-- The directive that a text denotes, or the wording of the refusal. -/
def parse (text : String) : Except String Directive :=
  let chars := text.toList
  match Text.trim chars with
  | [] => .ok ⟨none, everything, false⟩
  | c :: _ =>
      if c = '[' then .ok ⟨none, everything, true⟩
      else if !startsTarget c then .error malformed
      else
        let target := chars.takeWhile fun c => c != '=' && c != '['
        match chars.drop target.length with
        | [] => .ok (ofWord text)
        | '=' :: level =>
            match levelAfter (String.ofList level) with
            | .ok threshold => .ok ⟨some target, threshold, false⟩
            | .error refusal => .error refusal
        | _ => .ok ⟨some target, everything, true⟩

/-- Whether a directive concerns the events of a target. -/
def concerns (directive : Directive) (target : String) : Bool :=
  !directive.spansOnly && (directive.target.getD []).isPrefixOf target.toList

/-- The length of a directive's target; a directive without target concerns all events. -/
def weight (directive : Directive) : Nat :=
  match directive.target with
  | some target => target.length + 1
  | none => 0

end Directive

/-- The directive that decides about a target: the last of those with the longest target. -/
def deciding (target : String) (directives : List Directive) : Option Directive :=
  (directives.filter (·.concerns target)).foldl (fun best directive =>
    match best with
    | some other => if other.weight ≤ directive.weight then some directive else best
    | none => some directive) none

/-- Directives. -/
structure Filter where
  directives : List Directive
deriving Repr, DecidableEq

namespace Filter

/-- The parts of a filter's text. -/
def parts (text : String) : List String :=
  ((text.toList.splitOnP (· == ',')).filter (· != [])).map String.ofList

/-- A filter of directives, or a single threshold if there are none. -/
def ofDirectives (directives : List Directive) (otherwise : Threshold) : Filter :=
  ⟨if directives = [] then [⟨none, otherwise, false⟩] else directives⟩

/-- The filter that a text denotes, if all of its directives are well-formed. -/
def parse? (text : String) : Option Filter :=
  (((parts text).mapM Directive.parse).toOption).map (ofDirectives · .off)

/-- The warning about a directive that is left out. -/
def ignoring (text refusal : String) : String :=
  "ignoring \x60" ++ text ++ "\x60: " ++ refusal ++ "\n"

/-- The filter of the well-formed directives in a text, and the warnings about the others. -/
def parse (text : String) : Filter × List String :=
  let results := (parts text).map fun part => (part, Directive.parse part)
  (ofDirectives (results.filterMap fun (_, result) => result.toOption) (.upTo .error),
    results.filterMap fun (part, result) =>
      match result with
      | .ok _ => none
      | .error refusal => some (ignoring part refusal))

/-- Whether an event is shown. -/
def admits (filter : Filter) (event : Event) : Bool :=
  match deciding event.source.target filter.directives with
  | some directive => directive.threshold.admits event.level
  | none => false

theorem admits_of_decides {filter : Filter} {event : Event} {directive : Directive}
    (h : deciding event.source.target filter.directives = some directive) :
    filter.admits event = directive.threshold.admits event.level := by
  simp [admits, h]

end Filter
end Enclave.Report
