import Enclave.Text.CaseTable

/-! # Lower case

Lower-casing of a text in full Unicode.  Every character is lowered on its own, except that a
capital sigma at the end of a word becomes a final sigma and that the dotted capital I becomes two
characters. -/

namespace Enclave.Text

/-- Whether a character lies in one of the closed ranges. -/
def inRanges (ranges : List (Nat × Nat)) (c : Char) : Bool :=
  ranges.any fun (first, last) => first ≤ c.toNat && c.toNat ≤ last

/-- The lower-case form of a single character that does not depend on its neighbours. -/
def lowerChar (c : Char) : Char :=
  match lowerCaseRules.find? fun (first, last, step, _) =>
      first ≤ c.toNat && c.toNat ≤ last && (c.toNat - first) % step == 0 with
  | some (first, _, _, image) => Char.ofNat (image + (c.toNat - first))
  | none => c

/-- Whether the nearest character that is not skipped has a case. -/
def nextIsCased (text : List Char) : Bool :=
  match text.dropWhile (inRanges caseIgnorableRanges) with
  | [] => false
  | c :: _ => inRanges casedRanges c

/-- The lower-case form of a character between the text before it, nearest character first, and the
text after it. -/
def lowerBetween (before : List Char) (c : Char) (after : List Char) : List Char :=
  if c = 'Σ' then [if nextIsCased before && !nextIsCased after then 'ς' else 'σ']
  else if c = 'İ' then ['i', '\u0307']
  else [lowerChar c]

/-- Lowers a text that follows `before`, whose nearest character comes first. -/
def lowerAfter (before : List Char) : List Char → List Char
  | [] => []
  | c :: after => lowerBetween before c after ++ lowerAfter (c :: before) after

/-- The lower-case form of a text. -/
def lower (text : List Char) : List Char :=
  lowerAfter [] text

/-- The lower-case form of a string. -/
def lowered (text : String) : String :=
  String.ofList (lower text.toList)

/-- Whether two texts are equal once their ASCII letters are lowered. -/
def equalAsciiCase (a b : String) : Bool :=
  a.toList.map Char.toLower == b.toList.map Char.toLower

end Enclave.Text
