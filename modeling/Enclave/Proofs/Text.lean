import Enclave.Text.Blank
import Enclave.Text.Lines
import Mathlib.Data.List.Basic

/-! # Trimmed texts and lines

Every text is its trimmed form between blank characters (`exists_trim`), and a text that neither
starts nor ends with a blank character is the trimmed form of every such text (`trim_between`).  Of
a text without line feeds that is followed by a line feed, the line is all but a carriage return at
its end (`exists_lines_append`), and trimmed lines come back from their joined form
(`lines_joinLines_of_isTrimmed`).  What is appended to a text whose last line has an end has its own
lines (`lines_append_of_ended`), and giving the last line an end changes nothing but blank
characters (`map_trim_lines_closed_append`).  But for empty ones, the trimmed lines of a text are
its trimmed parts between line feeds (`filter_trim_lines`). -/

namespace Enclave.Text

variable {text front back : List Char} {c : Char}

/-! ### Blank characters at the ends -/

/-- Whether a text neither starts nor ends with a blank character. -/
structure IsTrimmed (text : List Char) : Prop where
  head : ∀ c ∈ text.head?, isBlank c = false
  last : ∀ c ∈ text.getLast?, isBlank c = false

theorem isTrimmed_of_any (hhead : text.head?.any isBlank = false)
    (hlast : text.getLast?.any isBlank = false) : IsTrimmed text :=
  ⟨fun c hc => by simpa [Option.mem_def.mp hc] using hhead,
    fun c hc => by simpa [Option.mem_def.mp hc] using hlast⟩

theorem trimStart_append (h : ∀ c ∈ front, isBlank c) :
    trimStart (front ++ text) = trimStart text :=
  List.dropWhile_append_of_pos h

theorem trimEnd_append (h : ∀ c ∈ back, isBlank c) : trimEnd (text ++ back) = trimEnd text := by
  rw [trimEnd_eq, trimEnd_eq, List.reverse_append, trimStart_append]
  exact fun c hc => h c (List.mem_reverse.mp hc)

theorem trimStart_of_head (h : ∀ c ∈ text.head?, isBlank c = false) : trimStart text = text := by
  cases text with
  | nil => rfl
  | cons c text => exact List.dropWhile_cons_of_neg (by simp [h c rfl])

theorem trimEnd_of_last (h : ∀ c ∈ text.getLast?, isBlank c = false) : trimEnd text = text := by
  rw [trimEnd_eq, trimStart_of_head, List.reverse_reverse]
  rwa [List.head?_reverse]

theorem IsTrimmed.trim_eq (h : IsTrimmed text) : trim text = text := by
  rw [trim, trimStart_of_head h.head, trimEnd_of_last h.last]

/-- A text that starts and ends with characters that are not blank is all that trimming leaves. -/
theorem trim_between (hfront : ∀ c ∈ front, isBlank c) (h : IsTrimmed text)
    (hback : ∀ c ∈ back, isBlank c) : trim (front ++ text ++ back) = text := by
  by_cases hne : text = []
  · subst hne
    rw [List.append_nil, trim, trimStart_append hfront, ← List.append_nil back,
      trimStart_append hback]
    rfl
  · obtain ⟨c, rest, rfl⟩ := List.exists_cons_of_ne_nil hne
    rw [trim, List.append_assoc, trimStart_append hfront, trimStart_of_head (by simpa using h.head),
      trimEnd_append hback, trimEnd_of_last h.last]

/-- What trimming at the front removes is blank. -/
theorem exists_trimStart (text : List Char) :
    ∃ front, (∀ c ∈ front, isBlank c) ∧ text = front ++ trimStart text :=
  ⟨text.takeWhile isBlank, fun c hc => List.all_eq_true.mp List.all_takeWhile c hc,
    List.takeWhile_append_dropWhile.symm⟩

/-- What trimming at the end removes is blank. -/
theorem exists_trimEnd (text : List Char) :
    ∃ back, (∀ c ∈ back, isBlank c) ∧ text = trimEnd text ++ back := by
  obtain ⟨front, hfront, htext⟩ := exists_trimStart text.reverse
  refine ⟨front.reverse, fun c hc => hfront c (List.mem_reverse.mp hc), ?_⟩
  rw [trimEnd_eq, ← List.reverse_append, ← htext, List.reverse_reverse]

theorem isTrimmed_trim (text : List Char) : IsTrimmed (trim text) := by
  obtain ⟨back, _, htext⟩ := exists_trimEnd (trimStart text)
  constructor
  · intro c hc
    obtain ⟨rest, hrest⟩ := List.head?_eq_some_iff.mp hc
    rw [trim] at hrest
    rw [hrest] at htext
    exact head_trimStart htext
  · intro c hc
    have hne : trimEnd (trimStart text) ≠ [] := fun hnil => by simp [trim, hnil] at hc
    rw [trim, List.getLast?_eq_some_getLast hne] at hc
    exact Option.some.inj hc ▸ isBlank_getLast_trimEnd hne

instance : Decidable (IsTrimmed text) :=
  decidable_of_iff (trim text = text) ⟨fun h => h ▸ isTrimmed_trim text, IsTrimmed.trim_eq⟩

/-- Only the ends of a text matter. -/
theorem IsTrimmed.append (hfront : IsTrimmed front) (hne : front ≠ []) (middle : List Char)
    (hback : IsTrimmed back) (hne' : back ≠ []) : IsTrimmed (front ++ middle ++ back) := by
  constructor
  · rw [List.append_assoc, List.head?_append_of_ne_nil _ hne]
    exact hfront.head
  · rw [List.getLast?_append_of_ne_nil _ hne']
    exact hback.last

/-- Every text is its trimmed form between blank characters. -/
theorem exists_trim (text : List Char) :
    ∃ front back, (∀ c ∈ front, isBlank c) ∧ (∀ c ∈ back, isBlank c) ∧
      text = front ++ trim text ++ back := by
  obtain ⟨front, hfront, hstart⟩ := exists_trimStart text
  obtain ⟨back, hback, hend⟩ := exists_trimEnd (trimStart text)
  exact ⟨front, back, hfront, hback, by rw [List.append_assoc, trim, ← hend, ← hstart]⟩

/-- Nothing is left of a text by trimming only if all its characters are blank. -/
theorem isBlank_of_trim_eq_nil (h : trim text = []) (hc : c ∈ text) : isBlank c := by
  obtain ⟨front, back, hfront, hback, htext⟩ := exists_trim text
  rw [htext, h, List.append_nil] at hc
  exact (List.mem_append.mp hc).elim (hfront c) (hback c)

theorem trim_append_blank (h : ∀ c ∈ back, isBlank c) : trim (text ++ back) = trim text := by
  obtain ⟨before, after, hbefore, hafter, htext⟩ := exists_trim text
  rw [htext, List.append_assoc (before ++ trim text), trim_between hbefore (isTrimmed_trim text),
    trim_between hbefore (isTrimmed_trim text) hafter]
  intro c hc
  exact (List.mem_append.mp hc).elim (hafter c) (h c)

theorem isBlank_feed : ∀ c ∈ ['\n'], isBlank c :=
  List.forall_mem_singleton.mpr (by decide)

theorem isBlank_return : ∀ c ∈ ['\r'], isBlank c :=
  List.forall_mem_singleton.mpr (by decide)

theorem trim_blank_append (h : ∀ c ∈ front, isBlank c) : trim (front ++ text) = trim text := by
  rw [trim, trim, trimStart_append h]

theorem trim_trimEnd (text : List Char) : trim (trimEnd text) = trim text := by
  obtain ⟨back, hback, htext⟩ := exists_trimEnd text
  conv_rhs => rw [htext, trim_append_blank hback]

/-- A character that is not blank keeps what stands before it. -/
theorem trimEnd_append_cons (front : List Char) (hc : isBlank c = false) (back : List Char) :
    trimEnd (front ++ c :: back) = front ++ c :: trimEnd back := by
  obtain ⟨after, hafter, hback⟩ := exists_trimEnd back
  have hlast : ∀ d ∈ (front ++ c :: trimEnd back).getLast?, isBlank d = false := by
    intro d hd
    rw [List.getLast?_append, List.getLast?_cons] at hd
    obtain rfl := Option.some.inj hd
    cases hend : (trimEnd back).getLast? with
    | none => exact hc
    | some last =>
        have hne : trimEnd back ≠ [] := fun hnil => by simp [hnil] at hend
        rw [List.getLast?_eq_some_getLast hne] at hend
        exact Option.some.inj hend ▸ isBlank_getLast_trimEnd hne
  have happend : front ++ c :: back = (front ++ c :: trimEnd back) ++ after := by
    conv_lhs => rw [hback]
    simp
  rw [happend, trimEnd_append hafter, trimEnd_of_last hlast]

theorem trimStart_append_cons (front : List Char) (hc : isBlank c = false) (back : List Char) :
    trimStart (front ++ c :: back) = trimStart front ++ c :: back := by
  rw [trimStart, List.dropWhile_append, List.dropWhile_cons_of_neg (by simp [hc])]
  split
  · next hnil => rw [trimStart, List.isEmpty_iff.mp hnil, List.nil_append]
  · rfl

theorem trim_append_cons (front : List Char) (hc : isBlank c = false) (back : List Char) :
    trim (front ++ c :: back) = trimStart front ++ c :: trimEnd back := by
  rw [trim, trimStart_append_cons front hc, trimEnd_append_cons _ hc]

theorem mem_of_mem_trim (h : c ∈ trim text) : c ∈ text := by
  obtain ⟨front, back, _, _, htext⟩ := exists_trim text
  rw [htext]
  simp [h]

/-! ### Lines -/

/-- A text without line feeds that a line feed follows is a line, up to a carriage return at its
end. -/
theorem exists_lines_append (h : '\n' ∉ text) (rest : List Char) :
    ∃ line, (line = text ∨ text = line ++ ['\r']) ∧
      lines (text ++ '\n' :: rest) = line :: lines rest := by
  induction text with
  | nil => exact ⟨[], .inl rfl, rfl⟩
  | cons c text ih =>
      rw [List.mem_cons, not_or] at h
      obtain ⟨line, hline, hlines⟩ := ih h.2
      by_cases hend : c = '\r' ∧ text = []
      · obtain ⟨rfl, rfl⟩ := hend
        exact ⟨[], .inr rfl, rfl⟩
      · refine ⟨c :: line, hline.imp (congrArg _) (congrArg _), ?_⟩
        rw [List.cons_append, lines, hlines]
        · exact fun hc => h.1 hc.symm
        · rintro more rfl hmore
          cases text with
          | nil => exact hend ⟨rfl, rfl⟩
          | cons d text =>
              refine h.2 ?_
              rw [(List.cons.inj hmore).1]
              exact List.mem_cons_self

/-- Trimmed lines come back from their joined form. -/
theorem lines_joinLines_of_isTrimmed {parts : List (List Char)}
    (h : ∀ line ∈ parts, '\n' ∉ line ∧ IsTrimmed line) : lines (joinLines parts) = parts := by
  induction parts with
  | nil => rfl
  | cons line parts ih =>
      obtain ⟨hfeed, htrimmed⟩ := h line List.mem_cons_self
      have hjoin : joinLines (line :: parts) = line ++ '\n' :: joinLines parts := by
        simp [joinLines]
      obtain ⟨shown, hshown, hlines⟩ := exists_lines_append hfeed (joinLines parts)
      rw [hjoin, hlines, ih fun other hother => h other (List.mem_cons_of_mem line hother)]
      rcases hshown with rfl | rfl
      · rfl
      · -- A trimmed line has no carriage return at its end.
        have hreturn := htrimmed.last '\r' List.getLast?_concat
        rw [isBlank_return '\r' List.mem_cons_self] at hreturn
        cases hreturn

/-- Trimmed, the line is the text before the line feed. -/
theorem exists_trim_lines_append (h : '\n' ∉ text) (rest : List Char) :
    ∃ line, trim line = trim text ∧ lines (text ++ '\n' :: rest) = line :: lines rest := by
  obtain ⟨line, hline, hlines⟩ := exists_lines_append h rest
  refine ⟨line, ?_, hlines⟩
  rcases hline with rfl | rfl
  · rfl
  · exact (trim_append_blank isBlank_return).symm

theorem lines_of_not_mem (h : '\n' ∉ text) (hne : text ≠ []) : lines text = [text] := by
  induction text with
  | nil => exact absurd rfl hne
  | cons c text ih =>
      rw [List.mem_cons, not_or] at h
      cases text with
      | nil =>
          rw [lines]
          · rfl
          · exact fun hc => h.1 hc.symm
          · intro more _ hmore
            cases hmore
      | cons d text =>
          rw [lines, ih h.2 (List.cons_ne_nil d text)]
          · exact fun hc => h.1 hc.symm
          · rintro more rfl hmore
            exact h.2 ((List.cons.inj hmore).1 ▸ List.mem_cons_self)

/-- A line holds no other characters than the text. -/
theorem mem_of_mem_lines {line : List Char} (hline : line ∈ lines text) (hc : c ∈ line) :
    c ∈ text := by
  fun_induction lines text generalizing line with
  | case1 => cases hline
  | case2 rest ih =>
      rcases List.mem_cons.mp hline with rfl | hline
      · cases hc
      · exact List.mem_cons_of_mem _ (ih hline hc)
  | case3 rest ih =>
      rcases List.mem_cons.mp hline with rfl | hline
      · cases hc
      · exact List.mem_cons_of_mem _ (List.mem_cons_of_mem _ (ih hline hc))
  | case4 d rest _ _ hlines ih =>
      rw [List.mem_singleton] at hline
      subst hline
      exact List.mem_singleton.mp hc ▸ List.mem_cons_self
  | case5 d rest _ _ first more hlines ih =>
      rw [hlines] at ih
      rcases List.mem_cons.mp hline with rfl | hline
      · rcases List.mem_cons.mp hc with rfl | hc
        · exact List.mem_cons_self
        · exact List.mem_cons_of_mem _ (ih List.mem_cons_self hc)
      · exact List.mem_cons_of_mem _ (ih (List.mem_cons_of_mem _ hline) hc)

/-- No line holds a line feed. -/
theorem newline_not_mem_lines {line : List Char} (h : line ∈ lines text) : '\n' ∉ line := by
  fun_induction lines text generalizing line with
  | case1 => simp at h
  | case2 rest ih =>
      rcases List.mem_cons.mp h with rfl | h
      · simp
      · exact ih h
  | case3 rest ih =>
      rcases List.mem_cons.mp h with rfl | h
      · simp
      · exact ih h
  | case4 c rest hfeed _ hlines ih =>
      rw [List.mem_singleton] at h
      simpa [h] using fun heq : '\n' = c => hfeed heq.symm
  | case5 c rest hfeed _ first more hlines ih =>
      rw [hlines] at ih
      rcases List.mem_cons.mp h with rfl | h
      · have hne : '\n' ≠ c := fun heq => hfeed heq.symm
        simpa [hne] using ih List.mem_cons_self
      · exact ih (List.mem_cons_of_mem first h)

theorem lines_ne_nil (h : text ≠ []) : lines text ≠ [] := by
  fun_induction lines text <;> simp_all

/-- A character that ends no line stands at the front of the first one. -/
theorem lines_cons (hfeed : c ≠ '\n') (hreturn : ∀ rest, c = '\r' → text ≠ '\n' :: rest) :
    lines (c :: text) = (c :: (lines text).headD []) :: (lines text).tail := by
  rw [lines]
  · cases lines text <;> rfl
  · exact hfeed
  · exact hreturn

/-- A line feed ends a line, whatever follows it. -/
theorem lines_append_feed (text rest : List Char) :
    lines (text ++ '\n' :: rest) = lines (text ++ ['\n']) ++ lines rest := by
  induction text using lines.induct with
  | case1 => rfl
  | case2 text ih => simp only [List.cons_append, lines, ih]
  | case3 text ih => simp only [List.cons_append, lines, ih]
  | case4 c text hfeed _ hlines _ =>
      have hnil : text = [] := by
        by_contra hne
        exact lines_ne_nil hne hlines
      subst hnil
      by_cases hreturn : c = '\r'
      · subst hreturn
        rfl
      · have hcons : ∀ rest, lines (c :: '\n' :: rest) = [c] :: lines rest := fun rest =>
          lines_cons hfeed fun _ hc => absurd hc hreturn
        simp only [List.cons_append, List.nil_append, hcons, lines_nil]
  | case5 c text hfeed hreturn first more hlines ih =>
      have hcons : ∀ rest, lines (c :: (text ++ '\n' :: rest)) =
          (c :: (lines (text ++ '\n' :: rest)).headD []) :: (lines (text ++ '\n' :: rest)).tail := by
        refine fun rest => lines_cons hfeed fun more hc htext => ?_
        cases text with
        | nil => cases hlines
        | cons d text => exact hreturn text hc (congrArg (· :: text) (List.cons.inj htext).1)
      have hne : lines (text ++ ['\n']) ≠ [] := lines_ne_nil (by simp)
      obtain ⟨line, others, hsplit⟩ := List.exists_cons_of_ne_nil hne
      rw [List.cons_append, List.cons_append, hcons, hcons, ih, hsplit]
      rfl

/-! ### Texts in order -/

/-- Sorting by texts puts these in order. -/
theorem pairwise_mergeSort_by {α : Type} (key : α → String) (items : List α) :
    (items.mergeSort fun a b => key a ≤ key b).Pairwise fun a b => key a ≤ key b := by
  refine (List.pairwise_mergeSort (fun a b c hab hbc => ?_) (fun a b => ?_) items).imp
    of_decide_eq_true
  · exact decide_eq_true (String.le_trans (of_decide_eq_true hab) (of_decide_eq_true hbc))
  · rw [Bool.or_eq_true, decide_eq_true_iff, decide_eq_true_iff]
    exact String.le_total _ _

/-! ### Texts one after the other -/

/-- Whether the last line of a text has an end. -/
def IsEnded (text : List Char) : Prop := ∀ c ∈ text.getLast?, c = '\n'

theorem lines_append_of_ended (h : IsEnded text) (rest : List Char) :
    lines (text ++ rest) = lines text ++ lines rest := by
  rcases List.eq_nil_or_concat' text with rfl | ⟨front, last, rfl⟩
  · rfl
  · obtain rfl : last = '\n' := h last List.getLast?_concat
    rw [List.append_assoc]
    exact lines_append_feed front rest

/-- A text is its lines that have an end, with what stands after them. -/
theorem exists_ended_append (text : List Char) :
    ∃ front last, text = front ++ last ∧ IsEnded front ∧ '\n' ∉ last := by
  induction text with
  | nil => exact ⟨[], [], rfl, nofun, List.not_mem_nil⟩
  | cons c text ih =>
      obtain ⟨front, last, rfl, hfront, hlast⟩ := ih
      by_cases hkeep : front = [] ∧ c ≠ '\n'
      · obtain ⟨rfl, hne⟩ := hkeep
        exact ⟨[], c :: last, rfl, nofun, by simp [hlast, hne.symm]⟩
      · refine ⟨c :: front, last, rfl, fun d hd => ?_, hlast⟩
        rw [List.getLast?_cons] at hd
        obtain rfl := Option.some.inj hd
        cases hend : front.getLast? with
        | some d => exact hfront d hend
        | none => exact not_not.mp (not_and.mp hkeep (List.getLast?_eq_none_iff.mp hend))

/-- A text whose last line has an end. -/
def closed (text : List Char) : List Char :=
  if text.getLast?.all (· == '\n') then text else text ++ ['\n']

/-- An end for the last line changes no line but for blank characters, and what follows it has its
own lines. -/
theorem map_trim_lines_closed_append (text rest : List Char) :
    (lines (closed text ++ rest)).map trim = (lines text ++ lines rest).map trim := by
  rw [closed]
  split
  · next hall =>
      have hended : IsEnded text := fun c hc => by
        rw [Option.mem_def.mp hc] at hall
        simpa using hall
      rw [lines_append_of_ended hended]
  · next hall =>
      obtain ⟨front, last, rfl, hfront, hlast⟩ := exists_ended_append text
      have hne : last ≠ [] := by
        rintro rfl
        rw [List.append_nil, Option.all_eq_true] at hall
        exact hall fun c hc => beq_iff_eq.mpr (hfront c hc)
      obtain ⟨line, htrim, hlines⟩ := exists_trim_lines_append hlast rest
      rw [List.append_assoc, List.append_assoc, List.singleton_append, lines_append_of_ended hfront,
        lines_append_of_ended hfront, hlines, lines_of_not_mem hlast hne]
      simp [htrim]

/-! ### Parts between line feeds -/

/-- A text is a line without an end, or a line and the text after its end. -/
theorem lines_induction {motive : List Char → Prop} (last : ∀ line, '\n' ∉ line → motive line)
    (feed : ∀ line rest, '\n' ∉ line → motive rest → motive (line ++ '\n' :: rest))
    (text : List Char) : motive text := by
  induction h : text.count '\n' generalizing text with
  | zero => exact last text (List.count_eq_zero.mp h)
  | succ n ih =>
      have hmem : '\n' ∈ text := List.count_pos_iff.mp (by omega)
      obtain ⟨line, rest, rfl, hline⟩ := List.eq_append_cons_of_mem hmem
      have hnone : line.count '\n' = 0 := List.count_eq_zero.mpr hline
      rw [List.count_append, List.count_cons_self, hnone] at h
      exact feed line rest hline (ih rest (by omega))

theorem splitOn_append_feed (front back : List Char) :
    (front ++ '\n' :: back).splitOn '\n' = front.splitOn '\n' ++ back.splitOn '\n' :=
  List.splitOnP_append_cons front back (beq_self_eq_true '\n')

/-- Trimmed lines are the trimmed parts between line feeds, but for empty ones. -/
theorem filter_trim_lines {p : List Char → Bool} (hnil : p [] = false) (text : List Char) :
    ((lines text).map trim).filter p = ((text.splitOn '\n').map trim).filter p := by
  induction text using lines_induction with
  | last line hline =>
      rw [List.splitOn_eq_singleton hline]
      by_cases hne : line = []
      · subst hne
        simp [hnil]
      · rw [lines_of_not_mem hline hne]
  | feed line rest hline ih =>
      obtain ⟨shown, htrim, hlines⟩ := exists_trim_lines_append hline rest
      rw [hlines, splitOn_append_feed, List.splitOn_eq_singleton hline, List.singleton_append,
        List.map_cons, List.map_cons, htrim, List.filter_cons, List.filter_cons, ih]

end Enclave.Text
