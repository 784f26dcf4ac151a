import Enclave.Context.Use
import Enclave.Shell.Builtins
import Mathlib.Data.List.Forall2
import Mathlib.Data.List.TakeWhile

/-! # Reading simple commands

`Spells source word` says that a text is read as a word whatever follows.  Characters that mean
nothing to a shell spell themselves (`exists_spells_inert`), and a quoted text spells the text,
whatever its characters are (`exists_spells_quoted`).  From a name and such an argument on a line a
simple command is read, one function of the reader after the other (`IsSetter.simple?_eq` up to
`list?_lines`), so a script of such lines is the sequence of these calls (`parse?_lines`). -/

namespace Enclave.Shell

open ResolutionContext (quoted)

/-! ### Words -/

/-- Whether a text is read as a word, whatever comes after it. -/
structure Spells (source : List Char) (word : Word) : Prop where
  length_le : word.length ≤ source.length
  read : ∀ lines fuel rest, pieces? lines false false (fuel + word.length) (source ++ rest) =
    (pieces? lines false false fuel rest).map fun (more, rest) => (word ++ more, rest)

theorem spells_nil : Spells [] [] := ⟨Nat.le_refl 0, fun lines fuel rest => by simp⟩

theorem Spells.append {a b : List Char} {u v : Word} (ha : Spells a u) (hb : Spells b v) :
    Spells (a ++ b) (u ++ v) := by
  constructor
  · rw [List.length_append, List.length_append]
    exact Nat.add_le_add ha.length_le hb.length_le
  · intro lines fuel rest
    rw [List.length_append, Nat.add_comm u.length, ← Nat.add_assoc, List.append_assoc, ha.read,
      hb.read, Option.map_map]
    congr 1
    funext ⟨more, rest⟩
    simp

/-- Whether a character stands for itself in a word outside quotes. -/
structure IsPlain (c : Char) : Prop where
  ne_backslash : c ≠ '\\'
  ne_dollar : c ≠ '$'
  ne_backquote : c ≠ '\x60'
  ne_quote : c ≠ '\x27'
  ne_doubleQuote : c ≠ '"'
  not_isMeta : isMeta c = false

theorem spells_plain {c : Char} (h : IsPlain c) : Spells [c] [.plain [c]] := by
  refine ⟨Nat.le_refl 1, fun lines fuel rest => ?_⟩
  simp [pieces?, h.ne_backslash, h.ne_dollar, h.ne_backquote, h.ne_quote, h.ne_doubleQuote,
    h.not_isMeta]

theorem spells_escaped {c : Char} (h : c ≠ '\n') : Spells ['\\', c] [.quoted [c]] := by
  refine ⟨Nat.le_succ 1, fun lines fuel rest => ?_⟩
  simp [pieces?]

theorem singleQuoted?_append {text : List Char} (h : '\x27' ∉ text) (rest : List Char) :
    singleQuoted? (text ++ '\x27' :: rest) = some (text, rest) := by
  have hbefore : ∀ c ∈ text, (c != '\x27') = true := fun c hc => by
    simpa using fun heq : c = '\x27' => h (heq ▸ hc)
  rw [singleQuoted?, List.dropWhile_append_of_pos hbefore, List.takeWhile_append_of_pos hbefore]
  simp

theorem spells_singleQuoted {text : List Char} (h : '\x27' ∉ text) :
    Spells ('\x27' :: text ++ ['\x27']) [.quoted text] := by
  refine ⟨by simp, fun lines fuel rest => ?_⟩
  have hquoted := singleQuoted?_append h rest
  simp [pieces?, hquoted]

/-! ### Literal words -/

/-- Whether a word is nothing but a text: no part of it is expanded, split or a pattern. -/
inductive Literal : Word → List Char → Prop
  | nil : Literal [] []
  | plain {c : Char} {word : Word} {text : List Char} :
      c ≠ '*' → c ≠ '?' → c ≠ '[' → Literal word text → Literal (.plain [c] :: word) (c :: text)
  | quoted {part : List Char} {word : Word} {text : List Char} :
      Literal word text → Literal (.quoted part :: word) (part ++ text)

theorem Literal.append {u v : Word} {a b : List Char} (ha : Literal u a) (hb : Literal v b) :
    Literal (u ++ v) (a ++ b) := by
  induction ha with
  | nil => exact hb
  | plain hstar hmark hbracket _ ih => exact .plain hstar hmark hbracket ih
  | quoted _ ih =>
      rw [List.append_assoc]
      exact .quoted ih

/-- Whether a character of a word means nothing to a shell. -/
structure IsInert (c : Char) : Prop extends IsPlain c where
  ne_star : c ≠ '*'
  ne_mark : c ≠ '?'
  ne_bracket : c ≠ '['

/-- Characters that mean nothing spell themselves. -/
theorem exists_spells_inert {text : List Char} (h : ∀ c ∈ text, IsInert c) :
    ∃ word, Spells text word ∧ Literal word text ∧ (text ≠ [] → word ≠ []) := by
  induction text with
  | nil => exact ⟨[], spells_nil, .nil, fun h => absurd rfl h⟩
  | cons c text ih =>
      obtain ⟨word, hspells, hliteral, _⟩ := ih fun d hd => h d (List.mem_cons_of_mem c hd)
      have hc := h c List.mem_cons_self
      exact ⟨.plain [c] :: word, (spells_plain hc.toIsPlain).append hspells,
        .plain hc.ne_star hc.ne_mark hc.ne_bracket hliteral, fun _ => List.cons_ne_nil _ _⟩

/-- A quoted text with a front that was read already: single quotes end and start again around every
escaped one. -/
private theorem exists_spells_quotedTail (text : List Char) :
    ∀ front : List Char, '\x27' ∉ front → ∃ word, word ≠ [] ∧ Literal word (front ++ text) ∧
      Spells ('\x27' :: front ++ (quoted text).tail) word := by
  induction text with
  | nil =>
      intro front hfront
      refine ⟨[.quoted front], List.cons_ne_nil _ _, .quoted .nil, ?_⟩
      exact spells_singleQuoted hfront
  | cons c text ih =>
      intro front hfront
      by_cases hc : c = '\x27'
      · -- the quotation ends, the quote stands escaped, and another quotation has an empty front
        subst hc
        obtain ⟨word, _, hliteral, hspells⟩ := ih [] (List.not_mem_nil)
        refine ⟨[.quoted front] ++ ([.quoted ['\x27']] ++ word), List.cons_ne_nil _ _, ?_, ?_⟩
        · exact .quoted (.quoted hliteral)
        · have hsplit : '\x27' :: front ++ (quoted ('\x27' :: text)).tail =
              ('\x27' :: front ++ ['\x27']) ++ (['\\', '\x27'] ++ ('\x27' :: [] ++
                (quoted text).tail)) := by
            simp [quoted]
          rw [hsplit]
          exact (spells_singleQuoted hfront).append ((spells_escaped (by decide)).append hspells)
      · obtain ⟨word, hne, hliteral, hspells⟩ := ih (front ++ [c]) (by simp [hfront, Ne.symm hc])
        refine ⟨word, hne, by simpa using hliteral, ?_⟩
        have hsame : '\x27' :: front ++ (quoted (c :: text)).tail =
            '\x27' :: (front ++ [c]) ++ (quoted text).tail := by
          simp [quoted, hc]
        rwa [hsame]

/-- A quoted text spells the text, whatever its characters are. -/
theorem exists_spells_quoted (text : List Char) :
    ∃ word, word ≠ [] ∧ Literal word text ∧ Spells (quoted text) word :=
  exists_spells_quotedTail text [] List.not_mem_nil

/-! ### Names -/

theorem isInert_of_isNameInner {c : Char} (h : isNameInner c = true) : IsInert c := by
  have hne : ∀ {d : Char}, isNameInner d = false → c ≠ d := by
    rintro d hd rfl
    rw [h] at hd
    cases hd
  refine ⟨⟨hne (by decide), hne (by decide), hne (by decide), hne (by decide), hne (by decide), ?_⟩,
    hne (by decide), hne (by decide), hne (by decide)⟩
  simp only [isMeta, isGap, Bool.or_eq_false_iff, beq_eq_false_iff_ne]
  refine ⟨⟨⟨⟨⟨⟨⟨⟨⟨?_, ?_⟩, ?_⟩, ?_⟩, ?_⟩, ?_⟩, ?_⟩, ?_⟩, ?_⟩, ?_⟩
  all_goals exact hne (by decide)

theorem isNameStart_iff {c : Char} : isNameStart c = true ↔
    ((65 ≤ c.val ∧ c.val ≤ 90) ∨ 97 ≤ c.val ∧ c.val ≤ 122) ∨ c = '_' := by
  change (decide (c.val ≥ 'A'.val ∧ c.val ≤ 'Z'.val) ||
    (decide (c.val ≥ 'a'.val) && decide (c.val ≤ 'z'.val)) || c == '_') = true ↔ _
  simp only [Bool.or_eq_true, Bool.and_eq_true, decide_eq_true_iff, beq_iff_eq]
  rfl

theorem isDigit_iff {c : Char} : c.isDigit = true ↔ 48 ≤ c.val ∧ c.val ≤ 57 := by
  change (decide (c.val ≥ '0'.val) && decide (c.val ≤ '9'.val)) = true ↔ _
  rw [Bool.and_eq_true, decide_eq_true_iff, decide_eq_true_iff]
  rfl

theorem isNameInner_iff {c : Char} :
    isNameInner c = true ↔ isNameStart c = true ∨ c.isDigit = true := by
  change (c.isAlpha || c.isDigit || c == '_') = true ↔ (c.isAlpha || c == '_') = true ∨ _
  rw [Bool.or_eq_true, Bool.or_eq_true, Bool.or_eq_true, or_right_comm]

theorem isNameInner_of_isNameStart {c : Char} (h : isNameStart c = true) : isNameInner c = true :=
  isNameInner_iff.mpr (.inl h)

theorem isDigit_of_isNameStart {c : Char} (h : isNameStart c = true) : c.isDigit = false := by
  rw [Bool.eq_false_iff]
  intro hdigit
  obtain ⟨_, hhigh⟩ := isDigit_iff.mp hdigit
  rcases isNameStart_iff.mp h with (hupper | hlower) | rfl
  · grind
  · grind
  · exact absurd hdigit (by decide)

theorem isVariableName_iff {text : List Char} :
    isVariableName text = true ↔
      ∃ c rest, text = c :: rest ∧ isNameStart c = true ∧ ∀ d ∈ rest, isNameInner d = true := by
  cases text with
  | nil => simp [isVariableName, nameOf]
  | cons c rest =>
      by_cases hc : isNameStart c = true
      · have hname : isVariableName (c :: rest) = true ↔ rest.dropWhile isNameInner = [] := by
          rw [isVariableName, nameOf, if_pos hc]
          cases rest.dropWhile isNameInner <;> simp
        rw [hname, List.dropWhile_eq_nil_iff]
        refine ⟨fun h => ⟨c, rest, rfl, hc, h⟩, ?_⟩
        rintro ⟨_, _, heq, _, h⟩
        obtain ⟨rfl, rfl⟩ := List.cons.inj heq
        exact h
      · simp [isVariableName, nameOf, hc]

/-- A name is split off up to the next character that cannot be in it. -/
theorem nameOf_append {name : List Char} (h : isVariableName name = true) {c : Char}
    (hc : isNameInner c = false) (rest : List Char) :
    nameOf (name ++ c :: rest) = (name, c :: rest) := by
  obtain ⟨first, inner, rfl, hfirst, hinner⟩ := isVariableName_iff.mp h
  rw [List.cons_append, nameOf, if_pos hfirst, List.takeWhile_append_of_pos hinner,
    List.dropWhile_append_of_pos hinner]
  simp [hc]

theorem isNameInner_of_mem {name : List Char} (h : isVariableName name = true) :
    ∀ c ∈ name, isNameInner c = true := by
  obtain ⟨first, inner, rfl, hfirst, hinner⟩ := isVariableName_iff.mp h
  rw [List.forall_mem_cons]
  exact ⟨isNameInner_of_isNameStart hfirst, hinner⟩

theorem isInert_of_mem {name : List Char} (h : isVariableName name = true) :
    ∀ c ∈ name, IsInert c :=
  fun c hc => isInert_of_isNameInner (isNameInner_of_mem h c hc)

/-! ### Lines -/

theorem skipGaps_cons {c : Char} (h : IsInert c) (hne : c ≠ '#') (rest : List Char) :
    skipGaps (c :: rest) = c :: rest := by
  have hgap : isGap c = false := by
    have hmeta := h.not_isMeta
    simp only [isMeta, Bool.or_eq_false_iff] at hmeta
    exact hmeta.1.1.1.1.1.1.1.1
  simp [skipGaps, h.ne_backslash, hgap, hne]

theorem skipGaps_space (rest : List Char) : skipGaps (' ' :: rest) = skipGaps rest := by
  simp [skipGaps, isGap]

/-- A word ends at a blank or at the end of its line. -/
theorem pieces?_end {c : Char} (h : c = ' ' ∨ c = '\n') (lines fuel : Nat) (rest : List Char) :
    pieces? lines false false (fuel + 1) (c :: rest) = some ([], c :: rest) := by
  rcases h with rfl | rfl <;> simp [pieces?, isMeta, isGap]

theorem word?_of_spells {source : List Char} {word : Word} (h : Spells source word)
    (hne : word ≠ []) {c : Char} (hc : c = ' ' ∨ c = '\n') {lines fuel : Nat} {rest : List Char}
    (hstart : skipGaps (source ++ c :: rest) = source ++ c :: rest)
    (hfuel : source.length + 2 ≤ fuel) :
    word? lines fuel (source ++ c :: rest) = some (word, c :: rest) := by
  have hlength := h.length_le
  obtain ⟨left, rfl⟩ : ∃ left, fuel = left + 1 + word.length + 1 :=
    ⟨fuel - word.length - 2, by omega⟩
  rw [word?, hstart, h.read, pieces?_end hc]
  cases word with
  | nil => exact absurd rfl hne
  | cons piece word => simp

/-- No redirection starts with a character that means nothing, unless it is a digit. -/
theorem direction?_cons {c : Char} (h : IsInert c) (hdigit : c.isDigit = false)
    (rest : List Char) : direction? (c :: rest) = none := by
  have hmeta := h.not_isMeta
  simp only [isMeta, Bool.or_eq_false_iff, beq_eq_false_iff_ne] at hmeta
  simp [direction?, hdigit, hmeta]

/-- Whether a command does nothing but call its first word, with literal words. -/
inductive Calls : Command → List (List Char) → Prop
  | intro {line : Nat} {words : List Word} {texts : List (List Char)} :
      [] ∉ words → List.Forall₂ Literal words texts → Calls (.simple line [] words []) texts

/-- The two commands that change which variables are passed on. -/
inductive IsSetter : List Char → Prop
  | export_ : IsSetter ['e', 'x', 'p', 'o', 'r', 't']
  | unset : IsSetter ['u', 'n', 's', 'e', 't']

section

variable {command argument text : List Char} {word : Word} {c : Char}

theorem IsSetter.isVariableName (h : IsSetter command) : isVariableName command = true := by
  cases h <;> decide

/-- No other kind of command starts like a setter. -/
theorem IsSetter.keyword?_eq (h : IsSetter command) (tail : List Char) :
    ∀ word ∈ ["\x7b", "if", "case", "for", "while", "until", "!"],
      keyword? word (command ++ ' ' :: tail) = none := by
  intro word hword
  simp only [List.mem_cons, List.not_mem_nil, or_false] at hword
  cases h <;> rcases hword with rfl | rfl | rfl | rfl | rfl | rfl | rfl <;> rfl

theorem IsSetter.atEnd_eq (h : IsSetter command) (tail : List Char) :
    atEnd (command ++ ' ' :: tail) = false := by
  cases h <;> rfl

theorem IsSetter.skipGaps_eq (h : IsSetter command) (tail : List Char) :
    skipGaps (command ++ ' ' :: tail) = command ++ ' ' :: tail := by
  cases h <;> exact skipGaps_cons (isInert_of_isNameInner (by decide)) (by decide) _

theorem IsSetter.direction?_eq (h : IsSetter command) (tail : List Char) :
    direction? (command ++ ' ' :: tail) = none := by
  cases h <;> exact direction?_cons (isInert_of_isNameInner (by decide)) (by decide) _

/-- What is read as one argument: it starts like a name. -/
structure IsArgument (argument : List Char) (word : Word) : Prop extends Spells argument word where
  ne_nil : word ≠ []
  start : ∃ c tail, argument = c :: tail ∧ isNameStart c = true

/-- The next word of a simple command is read if no redirection and no assignment comes first. -/
theorem simple?_of_word? {lines line fuel : Nat} {hasWord : Bool} {source tail rest : List Char}
    (hskip : skipGaps source = c :: tail) (hinert : IsInert c)
    (hdirection : direction? (c :: tail) = none)
    (hname : hasWord = true ∨ ∀ name value, nameOf (c :: tail) ≠ (name, '=' :: value))
    (hword : word? lines fuel (c :: tail) = some (word, rest)) :
    simple? lines line hasWord (fuel + 1) source =
      (simple? lines line true fuel rest).map fun ((assigned, words, redirected), rest) =>
        ((assigned, word :: words, redirected), rest) := by
  rw [simple?.eq_def]
  simp only [hskip, hdirection, hinert.not_isMeta, Bool.false_eq_true, if_false]
  split
  · next d name value heq =>
      rcases hname with h | h
      · cases h
      · exact absurd heq (h _ _)
  · rw [hword]

theorem skipGaps_newline (rest : List Char) : skipGaps ('\n' :: rest) = '\n' :: rest := by
  simp [skipGaps, isGap]

theorem direction?_newline (rest : List Char) : direction? ('\n' :: rest) = none := by
  simp [direction?, Char.isDigit]

/-- A simple command ends at the end of its line. -/
theorem simple?_newline {lines line fuel : Nat} {hasWord : Bool} (rest : List Char) :
    simple? lines line hasWord (fuel + 1) ('\n' :: rest) = some (([], [], []), '\n' :: rest) := by
  rw [simple?.eq_def]
  simp [skipGaps_newline, direction?_newline, isMeta]

/-- The last word of a simple command. -/
theorem IsArgument.simple?_eq (h : IsArgument argument word) {lines line fuel : Nat}
    (hfuel : argument.length + 4 ≤ fuel) (rest : List Char) :
    simple? lines line true fuel (' ' :: (argument ++ '\n' :: rest)) =
      some (([], [word], []), '\n' :: rest) := by
  obtain ⟨c, tail, rfl, hc⟩ := h.start
  have hinert := isInert_of_isNameInner (isNameInner_of_isNameStart hc)
  have hhash : c ≠ '#' := by
    rintro rfl
    cases hc
  have hstart : skipGaps (c :: tail ++ '\n' :: rest) = c :: tail ++ '\n' :: rest :=
    skipGaps_cons hinert hhash _
  have hskip := (skipGaps_space _).trans hstart
  obtain ⟨fuel, rfl⟩ : ∃ left, fuel = left + 2 := ⟨fuel - 2, by omega⟩
  have hword : word? lines (fuel + 1) (c :: tail ++ '\n' :: rest) = some (word, '\n' :: rest) :=
    word?_of_spells h.toSpells h.ne_nil (.inr rfl) hstart (by omega)
  rw [simple?_of_word? hskip hinert (direction?_cons hinert (isDigit_of_isNameStart hc) _)
    (.inl rfl) hword, simple?_newline]
  rfl

/-- A setter with one argument, on a line of its own. -/
theorem IsSetter.simple?_eq (h : IsSetter command) (ha : IsArgument argument word)
    (lines line : Nat) {fuel : Nat} (hfuel : command.length + argument.length + 5 ≤ fuel)
    (rest : List Char) :
    ∃ name, name ≠ [] ∧ Literal name command ∧
      simple? lines line false fuel (command ++ ' ' :: (argument ++ '\n' :: rest)) =
        some (([], [name, word], []), '\n' :: rest) := by
  obtain ⟨name, hspells, hliteral, hne⟩ := exists_spells_inert (isInert_of_mem h.isVariableName)
  obtain ⟨fuel, rfl⟩ : ∃ left, fuel = left + 1 := ⟨fuel - 1, by omega⟩
  obtain ⟨c, tail, rfl, hc, _⟩ := isVariableName_iff.mp h.isVariableName
  refine ⟨name, hne (List.cons_ne_nil _ _), hliteral, ?_⟩
  have hinert := isInert_of_isNameInner (isNameInner_of_isNameStart hc)
  have hskip := h.skipGaps_eq (argument ++ '\n' :: rest)
  have hname := nameOf_append h.isVariableName (c := ' ') (by decide) (argument ++ '\n' :: rest)
  have hword : word? lines fuel (c :: tail ++ ' ' :: (argument ++ '\n' :: rest)) =
      some (name, ' ' :: (argument ++ '\n' :: rest)) :=
    word?_of_spells hspells (hne (List.cons_ne_nil _ _)) (.inl rfl) hskip (by omega)
  have hassigns : ∀ assigned value, nameOf (c :: tail ++ ' ' :: (argument ++ '\n' :: rest)) ≠
      (assigned, '=' :: value) := by
    rw [hname]
    intro assigned value heq
    cases heq
  rw [simple?_of_word? hskip hinert (h.direction?_eq _) (.inr hassigns) hword,
    ha.simple?_eq (by omega)]
  rfl

theorem redirections?_newline {lines fuel : Nat} (rest : List Char) :
    redirections? lines (fuel + 1) ('\n' :: rest) = some ([], '\n' :: rest) := by
  rw [redirections?.eq_def]
  simp [skipGaps_newline, direction?_newline]

/-- A setter with one argument is no compound command and no definition. -/
theorem IsSetter.plainCommand?_eq (h : IsSetter command) (ha : IsArgument argument word)
    (lines : Nat) {fuel : Nat} (hfuel : command.length + argument.length + 6 ≤ fuel)
    (rest : List Char) :
    ∃ line name, name ≠ [] ∧ Literal name command ∧
      plainCommand? lines fuel (command ++ ' ' :: (argument ++ '\n' :: rest)) =
        some (.simple line [] [name, word] [], '\n' :: rest) := by
  obtain ⟨fuel, rfl⟩ : ∃ left, fuel = left + 1 := ⟨fuel - 1, by omega⟩
  have hlist := h.keyword?_eq (argument ++ '\n' :: rest)
  simp only [List.forall_mem_cons] at hlist
  obtain ⟨hbrace, hif, hcase, hfor, hwhile, huntil, _⟩ := hlist
  have hskip := h.skipGaps_eq (argument ++ '\n' :: rest)
  have hname := nameOf_append h.isVariableName (c := ' ') (by decide) (argument ++ '\n' :: rest)
  obtain ⟨name, hne, hliteral, hsimple⟩ := h.simple?_eq ha lines
    (lineOf lines (command ++ ' ' :: (argument ++ '\n' :: rest))) (by omega : _ ≤ fuel) rest
  refine ⟨lineOf lines (command ++ ' ' :: (argument ++ '\n' :: rest)), name, hne,
    hliteral, ?_⟩
  rw [plainCommand?.eq_def]
  simp only [hskip]
  split
  · next heq => cases h <;> cases heq
  · simp only [hbrace, hif, hcase, hfor, hwhile, huntil, hname, hsimple]
    split
    · next heq => cases heq
    · rfl

/-- A setter with one argument is a whole command. -/
theorem IsSetter.pipeline?_eq (h : IsSetter command) (ha : IsArgument argument word)
    (lines : Nat) {fuel : Nat} (hfuel : command.length + argument.length + 8 ≤ fuel)
    (rest : List Char) :
    ∃ line name, name ≠ [] ∧ Literal name command ∧
      pipeline? lines fuel (command ++ ' ' :: (argument ++ '\n' :: rest)) =
        some (.simple line [] [name, word] [], '\n' :: rest) := by
  obtain ⟨fuel, rfl⟩ : ∃ left, fuel = left + 2 := ⟨fuel - 2, by omega⟩
  obtain ⟨line, name, hne, hliteral, hplain⟩ :=
    h.plainCommand?_eq ha lines (by omega : _ ≤ fuel) rest
  have hkeyword := h.keyword?_eq (argument ++ '\n' :: rest) "!" (by decide)
  refine ⟨line, name, hne, hliteral, ?_⟩
  have hcommand : command? lines (fuel + 1) (command ++ ' ' :: (argument ++ '\n' :: rest)) =
      some (.simple line [] [name, word] [], '\n' :: rest) := by
    obtain ⟨fuel, rfl⟩ : ∃ left, fuel = left + 1 := ⟨fuel - 1, by omega⟩
    rw [command?.eq_def]
    simp only [hplain, redirections?_newline]
  rw [pipeline?.eq_def]
  simp only [hkeyword, hcommand, skipGaps_newline]
  rfl

/-! ### Scripts -/

/-- Whether a text is a setter with one argument on a line, and which words it stands for. -/
inductive IsLine : List Char → List (List Char) → Prop
  | intro {command argument text : List Char} {word : Word} :
      IsSetter command → IsArgument argument word → Literal word text →
      IsLine (command ++ ' ' :: (argument ++ ['\n'])) [command, text]

/-- Commands one after the other. -/
def inSequence (commands : List Command) : Command :=
  commands.foldr .sequence .nothing

theorem conditionals?_newline {lines fuel : Nat} (left : Command) (rest : List Char) :
    conditionals? lines left (fuel + 1) ('\n' :: rest) = some (left, '\n' :: rest) := by
  rw [conditionals?.eq_def]
  simp only [skipGaps_newline]
  rfl

theorem IsSetter.skipLines_eq (h : IsSetter command) (tail : List Char) :
    skipLines (command ++ ' ' :: tail) = command ++ ' ' :: tail := by
  have hskip := h.skipGaps_eq tail
  rw [skipLines]
  cases h <;> simp [skipLinesUpTo] at hskip ⊢ <;> simp [hskip]

/-- Lines with setters are read as the sequence of their calls. -/
theorem list?_lines {sources : List (List Char)} {texts : List (List (List Char))}
    (h : List.Forall₂ IsLine sources texts) (lines : Nat) {fuel : Nat}
    (hfuel : sources.flatten.length + 10 ≤ fuel) :
    ∃ commands, List.Forall₂ Calls commands texts ∧
      list? lines fuel sources.flatten = some (inSequence commands, []) := by
  induction h generalizing fuel with
  | nil =>
      obtain ⟨fuel, rfl⟩ : ∃ left, fuel = left + 1 := ⟨fuel - 1, by omega⟩
      refine ⟨[], .nil, ?_⟩
      rw [list?.eq_def]
      rfl
  | @cons source texts sources rest hline _ ih =>
      -- one line is a pipeline of a single command; its line end leads on to the other lines
      cases hline with
      | @intro command argument text word hsetter hargument hliteral =>
          obtain ⟨fuel, rfl⟩ : ∃ left, fuel = left + 1 := ⟨fuel - 1, by omega⟩
          have hsource : (command ++ ' ' :: (argument ++ ['\n'])) ++ sources.flatten =
              command ++ ' ' :: (argument ++ '\n' :: sources.flatten) := by simp
          rw [List.flatten_cons, hsource] at hfuel ⊢
          simp only [List.length_append, List.length_cons] at hfuel
          obtain ⟨commands, hcalls, hmore⟩ := ih (by omega : _ ≤ fuel)
          obtain ⟨line, name, hne, hname, hpipeline⟩ :=
            hsetter.pipeline?_eq hargument lines (by omega : _ ≤ fuel) sources.flatten
          have hwords : [] ∉ [name, word] := by simp [hne.symm, hargument.ne_nil.symm]
          refine ⟨.simple line [] [name, word] [] :: commands,
            .cons (.intro hwords (.cons hname (.cons hliteral .nil))) hcalls, ?_⟩
          rw [list?.eq_def]
          obtain ⟨fuel, rfl⟩ : ∃ left, fuel = left + 1 := ⟨fuel - 1, by omega⟩
          simp only [hsetter.skipLines_eq, hsetter.atEnd_eq, hpipeline, conditionals?_newline,
            skipGaps_newline, Bool.false_eq_true, if_false, hmore]
          rfl

/-- A script of setters, each with one argument on a line of its own, is read as the sequence of
their calls. -/
theorem parse?_lines {sources : List (List Char)} {texts : List (List (List Char))}
    (h : List.Forall₂ IsLine sources texts) :
    ∃ commands, List.Forall₂ Calls commands texts ∧
      parse? sources.flatten = some (inSequence commands) := by
  obtain ⟨fuel, hfuel⟩ : ∃ left, 40 * (sources.flatten.length + 10) = left + 1 :=
    ⟨40 * (sources.flatten.length + 10) - 1, by omega⟩
  obtain ⟨commands, hcalls, hlist⟩ := list?_lines h (sources.flatten.count '\n')
    (by omega : _ ≤ fuel)
  refine ⟨commands, hcalls, ?_⟩
  rw [parse?, hfuel, script?.eq_def]
  simp only [hlist]
  rfl

end

end Enclave.Shell
