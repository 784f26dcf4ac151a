import Enclave.Proofs.Text
import Enclave.Requirements
import Mathlib.Logic.Relation

/-! # What requirement lines depend on

The requirement lines of a text are its trimmed parts between line feeds without empty ones and
comments (`declarations_eq`).  So the two texts around the end of a line have their own requirement
lines (`declarations_append_feed`), and blank characters at the ends of a text, line feeds among
them, make no difference (`declarations_blanks_append`, `declarations_append_blanks`).

`Edit` lists the changes of a text that keep what it requires: the form of a line end, an end for
the last line, a line that requires nothing, and blank characters around a line.  They lead from
every text to its requirement lines alone (`eqvGen_joinLines`), so two texts have the same
requirement lines exactly if such changes lead from one to the other (`edited_iff`). -/

namespace Enclave.Requirements

open Text

variable {text text' front back blanks line : List Char}

/-! ### Parts of a text -/

/-- Requirement lines are the trimmed parts between line feeds that are neither empty nor
comments. -/
theorem declarations_eq (text : List Char) :
    declarations text = ((text.splitOn '\n').map trim).filter isDeclaration :=
  filter_trim_lines rfl text

theorem declarations_of_not_mem (h : '\n' ∉ line) :
    declarations line = [trim line].filter isDeclaration := by
  rw [declarations_eq, List.splitOn_eq_singleton h, List.map_singleton]

/-- What stands before a line feed and what stands after it have their own requirement lines. -/
theorem declarations_append_feed (front back : List Char) :
    declarations (front ++ '\n' :: back) = declarations front ++ declarations back := by
  simp only [declarations_eq, splitOn_append_feed, List.map_append, List.filter_append]

theorem declarations_append_of_ended (h : IsEnded front) (back : List Char) :
    declarations (front ++ back) = declarations front ++ declarations back := by
  simp only [declarations, lines_append_of_ended h, List.map_append, List.filter_append]

/-! ### Blank characters -/

private theorem declarations_append_spaces (hfeed : '\n' ∉ blanks) (h : ∀ c ∈ blanks, isBlank c)
    (text : List Char) : declarations (text ++ blanks) = declarations text := by
  induction text using lines_induction with
  | last line hline =>
      have hboth : '\n' ∉ line ++ blanks := by simp [hline, hfeed]
      rw [declarations_of_not_mem hboth, declarations_of_not_mem hline, trim_append_blank h]
  | feed line rest _ ih =>
      rw [List.append_assoc, List.cons_append, declarations_append_feed, declarations_append_feed,
        ih]

/-- Blank characters at the end of a text require nothing, line feeds among them or not. -/
theorem declarations_append_blanks (h : ∀ c ∈ blanks, isBlank c) (text : List Char) :
    declarations (text ++ blanks) = declarations text := by
  induction blanks using lines_induction generalizing text with
  | last blanks hblanks => exact declarations_append_spaces hblanks h text
  | feed line rest hline ih =>
      have hspaces : ∀ c ∈ line, isBlank c := fun c hc => h c (by simp [hc])
      have hrest : declarations rest = [] := ih (fun c hc => h c (by simp [hc])) []
      rw [← List.append_assoc, declarations_append_feed, declarations_append_spaces hline hspaces,
        hrest, List.append_nil]

theorem declarations_blanks (h : ∀ c ∈ blanks, isBlank c) : declarations blanks = [] :=
  declarations_append_blanks h []

/-- Blank characters at the front of a text require nothing, line feeds among them or not. -/
theorem declarations_blanks_append (h : ∀ c ∈ blanks, isBlank c) (text : List Char) :
    declarations (blanks ++ text) = declarations text := by
  induction blanks using lines_induction with
  | last blanks hblanks =>
      cases text using lines_induction with
      | last line hline =>
          have hboth : '\n' ∉ blanks ++ text := by simp [hline, hblanks]
          rw [declarations_of_not_mem hboth, declarations_of_not_mem hline, trim_blank_append h]
      | feed line rest hline =>
          have hboth : '\n' ∉ blanks ++ line := by simp [hline, hblanks]
          rw [← List.append_assoc, declarations_append_feed, declarations_append_feed,
            declarations_of_not_mem hboth, declarations_of_not_mem hline, trim_blank_append h]
  | feed line rest _ ih =>
      have hline : declarations line = [] := declarations_blanks fun c hc => h c (by simp [hc])
      rw [List.append_assoc, List.cons_append, declarations_append_feed, hline, List.nil_append,
        ih fun c hc => h c (by simp [hc])]

/-! ### Lines that require nothing -/

/-- Whether a line requires nothing: it is blank, or a comment after blank characters. -/
def IsIgnored (line : List Char) : Prop :=
  '\n' ∉ line ∧ ((∀ c ∈ line, isBlank c) ∨
    ∃ blanks comment, (∀ c ∈ blanks, isBlank c) ∧ line = blanks ++ '#' :: comment)

theorem declarations_of_isIgnored (h : IsIgnored line) : declarations line = [] := by
  obtain ⟨hfeed, hblank | ⟨blanks, comment, hblanks, rfl⟩⟩ := h
  · exact declarations_blanks hblank
  · have htrim : trim (blanks ++ '#' :: comment) = '#' :: trimEnd comment := by
      rw [trim_blank_append hblanks]
      exact trim_append_cons [] (by decide) comment
    have hcomment : isDeclaration ('#' :: trimEnd comment) = false := by simp [isDeclaration]
    rw [declarations_of_not_mem hfeed, htrim, List.filter_singleton, hcomment]
    rfl

/-! ### Requirement lines written out -/

/-- Requirement lines are without line feeds, trimmed, and neither empty nor comments. -/
theorem of_mem_declarations (h : line ∈ declarations text) :
    '\n' ∉ line ∧ trim line = line ∧ isDeclaration line = true := by
  obtain ⟨hmem, hdeclaration⟩ := List.mem_filter.mp h
  obtain ⟨raw, hraw, rfl⟩ := List.mem_map.mp hmem
  refine ⟨fun hfeed => ?_, (isTrimmed_trim raw).trim_eq, hdeclaration⟩
  exact newline_not_mem_lines hraw (mem_of_mem_trim hfeed)

/-- Requirement lines that are joined with line feeds come back. -/
theorem declarations_intercalate (text : List Char) :
    declarations (['\n'].intercalate (declarations text)) = declarations text := by
  by_cases hnone : declarations text = []
  · rw [hnone]
    rfl
  · have htrim : (declarations text).map trim = declarations text :=
      (List.map_congr_left fun line hline => (of_mem_declarations hline).2.1).trans (List.map_id _)
    have hkeep : (declarations text).filter isDeclaration = declarations text :=
      List.filter_eq_self.mpr fun line hline => (of_mem_declarations hline).2.2
    rw [declarations_eq, List.splitOn_intercalate _ _ hnone, htrim, hkeep]
    exact fun line hline => (of_mem_declarations hline).1

/-! ### Changes that keep what a text requires -/

/-- Whether a text starts with a line end or has no character. -/
def EndsLine (text : List Char) : Prop :=
  text = [] ∨ ['\n'] <+: text ∨ ['\r', '\n'] <+: text

/-- One change of a text that keeps what it requires. -/
inductive Edit : List Char → List Char → Prop
  /-- A line feed becomes a carriage return and a line feed. -/
  | lineEnd (front back : List Char) : Edit (front ++ '\n' :: back) (front ++ '\r' :: '\n' :: back)
  /-- The text gets a final line end. -/
  | finalEnd (text : List Char) : Edit text (text ++ ['\n'])
  /-- A blank line or a comment is put in. -/
  | ignored {front line : List Char} (back : List Char) (hfront : IsEnded front)
      (hline : IsIgnored line) : Edit (front ++ back) (front ++ line ++ '\n' :: back)
  /-- Blank characters are put before a line. -/
  | spacesBefore {front blanks : List Char} (back : List Char) (hfront : IsEnded front)
      (hblanks : ∀ c ∈ blanks, isBlank c) : Edit (front ++ back) (front ++ blanks ++ back)
  /-- Blank characters are put after a line. -/
  | spacesAfter {blanks back : List Char} (front : List Char)
      (hblanks : ∀ c ∈ blanks, isBlank c) (hback : EndsLine back) :
      Edit (front ++ back) (front ++ blanks ++ back)

/-- Blank characters before the end of a line require nothing. -/
theorem declarations_append_blanks_append (hblanks : ∀ c ∈ blanks, isBlank c)
    (hback : EndsLine back) (front : List Char) :
    declarations (front ++ blanks ++ back) = declarations (front ++ back) := by
  rcases hback with rfl | ⟨rest, rfl⟩ | ⟨rest, rfl⟩
  · rw [List.append_nil, List.append_nil, declarations_append_blanks hblanks]
  · rw [List.singleton_append, declarations_append_feed, declarations_append_feed,
      declarations_append_blanks hblanks]
  · have hreturn : ∀ c ∈ blanks ++ ['\r'], isBlank c :=
      List.forall_mem_append.mpr ⟨hblanks, isBlank_return⟩
    have hleft : front ++ blanks ++ (['\r', '\n'] ++ rest) =
        (front ++ (blanks ++ ['\r'])) ++ '\n' :: rest := by simp
    have hright : front ++ (['\r', '\n'] ++ rest) = (front ++ ['\r']) ++ '\n' :: rest := by simp
    rw [hleft, hright, declarations_append_feed, declarations_append_feed,
      declarations_append_blanks hreturn, declarations_append_blanks isBlank_return]

/-- One change keeps the requirement lines. -/
theorem declarations_eq_of_edit (h : Edit text text') : declarations text' = declarations text := by
  cases h with
  | lineEnd front back =>
      have hsplit : front ++ '\r' :: '\n' :: back = (front ++ ['\r']) ++ '\n' :: back := by simp
      rw [hsplit, declarations_append_feed, declarations_append_feed,
        declarations_append_blanks isBlank_return]
  | finalEnd => exact declarations_append_blanks isBlank_feed text
  | ignored back hfront hline =>
      rw [List.append_assoc, declarations_append_of_ended hfront, declarations_append_feed,
        declarations_of_isIgnored hline, List.nil_append, declarations_append_of_ended hfront]
  | spacesBefore back hfront hblanks =>
      rw [List.append_assoc, declarations_append_of_ended hfront,
        declarations_blanks_append hblanks, declarations_append_of_ended hfront]
  | spacesAfter front hblanks hback =>
      exact declarations_append_blanks_append hblanks hback front

/-- Whether any number of changes, made or undone, lead from one text to another. -/
def Edited (text text' : String) : Prop :=
  Relation.EqvGen Edit text.toList text'.toList

theorem declarations_eq_of_eqvGen (h : Relation.EqvGen Edit text text') :
    declarations text' = declarations text := by
  induction h with
  | rel _ _ hedit => exact declarations_eq_of_edit hedit
  | refl => rfl
  | symm _ _ _ ih => exact ih.symm
  | trans _ _ _ _ _ ihfirst ihsecond => exact ihsecond.trans ihfirst

/-! ### Whole texts -/

/-- A text with a carriage return before every line feed. -/
def withReturns (text : String) : String :=
  .ofList (text.toList.flatMap fun c => if c = '\n' then ['\r', '\n'] else [c])

private theorem eqvGen_withReturns (front text : List Char) :
    Relation.EqvGen Edit (front ++ text)
      (front ++ text.flatMap fun c => if c = '\n' then ['\r', '\n'] else [c]) := by
  induction text generalizing front with
  | nil => exact .refl _
  | cons c text ih =>
      rw [List.flatMap_cons]
      by_cases hfeed : c = '\n'
      · subst hfeed
        have hrest := ih (front ++ ['\r', '\n'])
        rw [List.append_assoc, List.append_assoc] at hrest
        exact .trans _ _ _ (.rel _ _ (.lineEnd front text)) hrest
      · have hrest := ih (front ++ [c])
        rw [List.append_assoc, List.append_assoc] at hrest
        rwa [if_neg hfeed]

/-- All line ends can be given a carriage return. -/
theorem edited_withReturns (text : String) : Edited text (withReturns text) := by
  rw [Edited, withReturns, String.toList_ofList]
  exact eqvGen_withReturns [] text.toList

/-! ### Requirement lines alone -/

theorem isIgnored_of_not_isDeclaration (hfeed : '\n' ∉ line)
    (h : isDeclaration (trim line) = false) : IsIgnored line := by
  refine ⟨hfeed, ?_⟩
  obtain ⟨before, after, hbefore, _, hline⟩ := exists_trim line
  cases htrim : trim line with
  | nil => exact .inl fun c hc => isBlank_of_trim_eq_nil htrim hc
  | cons c comment =>
      have hhash : c = '#' := by simpa [isDeclaration, htrim] using h
      refine .inr ⟨before, comment ++ after, hbefore, ?_⟩
      rw [htrim, hhash] at hline
      simpa using hline

/-- Changes lead from a line that requires something to the line without blank characters. -/
theorem eqvGen_trim_line (hfront : IsEnded front) (line rest : List Char) :
    Relation.EqvGen Edit (front ++ (line ++ '\n' :: rest))
      (front ++ (trim line ++ '\n' :: rest)) := by
  obtain ⟨before, after, hbefore, hafter, hline⟩ := exists_trim line
  have hstart : Edit (front ++ (trim line ++ '\n' :: rest))
      (front ++ before ++ (trim line ++ '\n' :: rest)) := .spacesBefore _ hfront hbefore
  have hend : Edit (front ++ before ++ trim line ++ '\n' :: rest)
      (front ++ before ++ trim line ++ after ++ '\n' :: rest) :=
    .spacesAfter _ hafter (.inr (.inl ⟨rest, rfl⟩))
  have hboth : front ++ (line ++ '\n' :: rest) =
      front ++ before ++ trim line ++ after ++ '\n' :: rest := by
    conv_lhs => rw [hline]
    simp only [List.append_assoc]
  rw [hboth]
  refine .trans _ _ _ (.symm _ _ (.rel _ _ hend)) (.symm _ _ (.rel _ _ ?_))
  simpa only [List.append_assoc] using hstart

/-- Changes lead from a line and what follows it to their requirement lines, if they do so for what
follows. -/
theorem eqvGen_joinLines_feed {rest : List Char} (hline : '\n' ∉ line)
    (hrest : ∀ {front}, IsEnded front →
      Relation.EqvGen Edit (front ++ rest) (front ++ joinLines (declarations rest)))
    (hfront : IsEnded front) :
    Relation.EqvGen Edit (front ++ (line ++ '\n' :: rest))
      (front ++ joinLines (declarations (line ++ '\n' :: rest))) := by
  rw [declarations_append_feed, declarations_of_not_mem hline, List.filter_singleton]
  cases hdeclaration : isDeclaration (trim line) with
  | false =>
      have hignored := isIgnored_of_not_isDeclaration hline hdeclaration
      have hput : Edit (front ++ rest) (front ++ (line ++ '\n' :: rest)) := by
        rw [← List.append_assoc]
        exact .ignored rest hfront hignored
      exact .trans _ _ _ (.symm _ _ (.rel _ _ hput)) (hrest hfront)
  | true =>
      have hended : IsEnded (front ++ (trim line ++ ['\n'])) := by
        intro c hc
        rw [← List.append_assoc, List.getLast?_concat] at hc
        exact (Option.some.inj hc).symm
      have hnext := hrest hended
      refine .trans _ _ _ (eqvGen_trim_line hfront line rest) ?_
      simpa [joinLines] using hnext

/-- Changes lead from every text to its requirement lines, one on each line. -/
theorem eqvGen_joinLines (text : List Char) (hfront : IsEnded front) :
    Relation.EqvGen Edit (front ++ text) (front ++ joinLines (declarations text)) := by
  induction text using lines_induction generalizing front with
  | last line hline =>
      have hend : Edit (front ++ line) (front ++ (line ++ ['\n'])) := by
        rw [← List.append_assoc]
        exact .finalEnd _
      have hsame : declarations (line ++ ['\n']) = declarations line :=
        declarations_append_blanks isBlank_feed line
      have hnil : ∀ {front : List Char}, IsEnded front →
          Relation.EqvGen Edit (front ++ []) (front ++ joinLines (declarations [])) :=
        fun _ => .refl _
      rw [← hsame]
      exact .trans _ _ _ (.rel _ _ hend) (eqvGen_joinLines_feed hline hnil hfront)
  | feed line rest hline ih => exact eqvGen_joinLines_feed hline ih hfront

/-- Two texts have the same requirement lines exactly if changes lead from one to the other. -/
theorem edited_iff {text text' : String} :
    Edited text text' ↔ parseLines text' = parseLines text := by
  constructor
  · exact fun h => congrArg (List.map String.ofList) (declarations_eq_of_eqvGen h)
  · intro h
    have hsame : declarations text'.toList = declarations text.toList :=
      List.map_injective_iff.mpr (fun _ _ => String.ofList_injective) h
    have hnil : IsEnded [] := nofun
    have hleft := eqvGen_joinLines text.toList hnil
    have hright := eqvGen_joinLines text'.toList hnil
    rw [hsame] at hright
    exact .trans _ _ _ hleft (.symm _ _ hright)

/-- Requirement lines that are written out with line feeds between them come back. -/
theorem parseLines_intercalate (text : String) :
    parseLines ("\n".intercalate (parseLines text)) = parseLines text := by
  have hchars : ("\n".intercalate (parseLines text)).toList =
      ['\n'].intercalate (declarations text.toList) := by
    rw [String.toList_intercalate, parseLines, List.map_map]
    simp [Function.comp_def]
  rw [parseLines, hchars, declarations_intercalate, parseLines]

end Enclave.Requirements
