/-! # Lines

A line ends at a line feed, and a carriage return directly before the line feed belongs to the line
end.  No other character ends a line.  A final line end is not followed by an empty line
(`lines_newline_cons`), and joining lines that hold no line feed gives them back
(`lines_joinLines`). -/

namespace Enclave.Text

/-- The lines of a text, without their line ends. -/
def lines : List Char → List (List Char)
  | [] => []
  | '\n' :: rest => [] :: lines rest
  | '\r' :: '\n' :: rest => [] :: lines rest
  | c :: rest =>
      match lines rest with
      | [] => [[c]]
      | line :: more => (c :: line) :: more

/-- The lines of a string. -/
def linesOf (text : String) : List String :=
  (lines text.toList).map String.ofList

/-- Every line followed by a line feed. -/
def joinLines (parts : List (List Char)) : List Char :=
  parts.flatMap (· ++ ['\n'])

/-! ### Laws -/

@[simp] theorem lines_nil : lines [] = [] := rfl

@[simp] theorem lines_newline_cons (rest : List Char) : lines ('\n' :: rest) = [] :: lines rest :=
  rfl

/-- A line without line feed or carriage return that is followed by a line feed is a line. -/
theorem lines_append_newline {line : List Char} (rest : List Char)
    (h : ∀ c ∈ line, c ≠ '\n' ∧ c ≠ '\r') : lines (line ++ '\n' :: rest) = line :: lines rest := by
  induction line with
  | nil => rfl
  | cons c line ih =>
      have hc := h c List.mem_cons_self
      have ih := ih fun d hd => h d (List.mem_cons_of_mem c hd)
      rw [List.cons_append, lines, ih]
      · exact fun h' => hc.1 h'
      · exact fun _ h' => absurd h' hc.2

/-- Lines without line feed and carriage return come back from their joined form. -/
theorem lines_joinLines {parts : List (List Char)}
    (h : ∀ line ∈ parts, ∀ c ∈ line, c ≠ '\n' ∧ c ≠ '\r') : lines (joinLines parts) = parts := by
  induction parts with
  | nil => rfl
  | cons line parts ih =>
      have e : joinLines (line :: parts) = line ++ '\n' :: joinLines parts := by
        simp [joinLines]
      rw [e, lines_append_newline _ (h line List.mem_cons_self),
        ih fun l hl => h l (List.mem_cons_of_mem line hl)]

end Enclave.Text
