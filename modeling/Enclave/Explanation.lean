/-! # Explanations of failures

A failure is explained by a statement and the causes behind it, nearest first.  It can be shown on
one line or as a report of several lines. -/

namespace Enclave

/-- A statement of what went wrong, and why. -/
structure Explanation where
  statement : String
  causes : List String := []
deriving DecidableEq, Repr, Inhabited

namespace Explanation

/-- The statement and its causes on one line. -/
def line (explanation : Explanation) : String :=
  ": ".intercalate (explanation.statement :: explanation.causes)

/-- The explanation of a failure whose cause is the given one. -/
def because (statement : String) (cause : Explanation) : Explanation :=
  ⟨statement, cause.statement :: cause.causes⟩

/-- The number of a cause, set to the right in five columns. -/
def causeNumber (n : Nat) : String :=
  let digits := toString n
  "".pushn ' ' (5 - digits.length) ++ digits ++ ": "

/-- A cause on lines of its own; the lines after the first are indented as far as the first. -/
def causeLines (lead indent cause : String) : String :=
  lead ++ ("\n" ++ indent).intercalate (cause.splitOn "\n")

/-- The causes on lines of their own, with numbers if there are several. -/
def causeText : List String → String
  | [] => ""
  | [cause] => "\n\nCaused by:\n" ++ causeLines "    " "    " cause
  | causes =>
      "\n\nCaused by:\n" ++
        "\n".intercalate (causes.mapIdx fun i cause => causeLines (causeNumber i) "       " cause)

/-- The report of several lines. -/
def report (explanation : Explanation) : String :=
  s!"Error: {explanation.statement}" ++ causeText explanation.causes ++ "\n"

end Explanation
end Enclave
