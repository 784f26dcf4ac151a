import Enclave.Dotenv
import Enclave.Proofs.Text

/-! # What a line assigns

A line assigns to its key what its value says, whatever blank characters stand at its ends and
whether or not `export` stands before the key (`parseLine_assignment`).  A value in quotes is what
stands between the quotes, whatever that is (`valueOf_quoted`).  A comment after a value without
quotes is dropped, but after a value in quotes it stays (`parseLine_commented`). -/

namespace Enclave.Dotenv

open Text

variable {key text value inner comment : List Char} {quote : Char}

/-! ### Keys -/

/-- Whether a text is read back as a key. -/
structure IsKey (key : List Char) : Prop where
  ne_nil : key ≠ []
  trimmed : IsTrimmed key
  equals_not_mem : '=' ∉ key
  head_ne : key.head? ≠ some '#'
  not_exported : ¬ exportWord <+: key

theorem dropExportUpTo_of_not_prefix (h : ¬ exportWord <+: text) :
    ∀ fuel, dropExportUpTo fuel text = text
  | 0 => rfl
  | fuel + 1 => by
      rw [dropExportUpTo, if_neg]
      rwa [List.isPrefixOf_iff_prefix]

theorem IsKey.keyOf_eq (h : IsKey key) : keyOf key = key := by
  rw [keyOf, h.trimmed.trim_eq, dropExport, dropExportUpTo_of_not_prefix h.not_exported,
    h.trimmed.trim_eq]

theorem IsKey.keyOf_exported (h : IsKey key) : keyOf (exportWord ++ key) = key := by
  have hword : exportWord = "export".toList ++ [' '] := rfl
  have htrimmed : IsTrimmed (exportWord ++ key) := by
    rw [hword]
    exact IsTrimmed.append (isTrimmed_of_any (by decide) (by decide)) (by decide) [' '] h.trimmed
      h.ne_nil
  have hlength : (exportWord ++ key).length = (exportWord ++ key).length - 1 + 1 := by
    rw [List.length_append]
    have : exportWord.length = 7 := rfl
    omega
  rw [keyOf, htrimmed.trim_eq, dropExport, hlength, dropExportUpTo, if_pos, List.drop_left,
    dropExportUpTo_of_not_prefix h.not_exported, h.trimmed.trim_eq]
  rw [List.isPrefixOf_iff_prefix]
  exact List.prefix_append exportWord key

theorem dropExportUpTo_suffix : ∀ (fuel : Nat) (text : List Char), dropExportUpTo fuel text <:+ text
  | 0, text => List.suffix_rfl
  | fuel + 1, text => by
      rw [dropExportUpTo]
      split
      · exact (dropExportUpTo_suffix fuel _).trans (List.drop_suffix _ _)
      · exact List.suffix_rfl

theorem mem_of_mem_keyOf {c : Char} (h : c ∈ keyOf text) : c ∈ text :=
  mem_of_mem_trim ((dropExportUpTo_suffix _ _).subset (mem_of_mem_trim h))

/-! ### Lines -/

theorem parseLine_append_blank {back : List Char} (line : List Char) (h : ∀ c ∈ back, isBlank c) :
    parseLine (line ++ back) = parseLine line := by
  rw [parseLine, parseLine, trim_append_blank h]

theorem valueOf_trimEnd (text : List Char) : valueOf (trimEnd text) = valueOf text := by
  rw [valueOf, valueOf, trim_trimEnd]

private theorem parseLine_equals {indent front : List Char} (hindent : ∀ c ∈ indent, isBlank c)
    (hne : front ≠ []) (hhead : ∀ c ∈ front.head?, isBlank c = false ∧ c ≠ '#')
    (hequals : '=' ∉ front) (hkey : keyOf front ≠ []) (rest : List Char) :
    parseLine (indent ++ front ++ '=' :: rest) = some (keyOf front, valueOf rest) := by
  obtain ⟨c, front, rfl⟩ := List.exists_cons_of_ne_nil hne
  obtain ⟨hblank, hhash⟩ := hhead c rfl
  have htrim : trim (indent ++ (c :: front) ++ '=' :: rest) =
      (c :: front) ++ '=' :: trimEnd rest := by
    rw [trim_append_cons _ (by decide), trimStart_append hindent, trimStart_of_head]
    rintro _ ⟨⟩
    exact hblank
  have hkeep : ∀ d ∈ c :: front, (d != '=') = true := by
    intro d hd
    rw [bne_iff_ne]
    rintro rfl
    exact hequals hd
  have htake : (c :: front ++ '=' :: trimEnd rest).takeWhile (· != '=') = c :: front := by
    rw [List.takeWhile_append_of_pos hkeep, List.takeWhile_cons_of_neg (by decide), List.append_nil]
  have hdrop : (c :: front ++ '=' :: trimEnd rest).dropWhile (· != '=') = '=' :: trimEnd rest := by
    rw [List.dropWhile_append_of_pos hkeep, List.dropWhile_cons_of_neg (by decide)]
  rw [parseLine, htrim]
  dsimp only
  rw [htake, hdrop, if_neg, if_neg hkey, List.tail_cons, valueOf_trimEnd]
  simp [hhash]

theorem IsKey.head (h : IsKey key) : ∀ c ∈ key.head?, isBlank c = false ∧ c ≠ '#' := by
  refine fun c hc => ⟨h.trimmed.head c hc, ?_⟩
  rintro rfl
  exact h.head_ne hc

/-- A key, with the word `export` before it or not. -/
def declared (exported : Bool) (key : List Char) : List Char :=
  if exported then exportWord ++ key else key

theorem IsKey.keyOf_declared (h : IsKey key) : ∀ exported, keyOf (declared exported key) = key
  | true => h.keyOf_exported
  | false => h.keyOf_eq

/-- What stands before the equals sign tells the key, and what stands after it the value. -/
theorem IsKey.parseLine_assignment {indent : List Char} (h : IsKey key)
    (hindent : ∀ c ∈ indent, isBlank c) (exported : Bool) (rest : List Char) :
    parseLine (indent ++ declared exported key ++ '=' :: rest) = some (key, valueOf rest) := by
  have hne : declared exported key ≠ [] := by
    cases exported
    · exact h.ne_nil
    · exact List.cons_ne_nil _ _
  have hhead : ∀ c ∈ (declared exported key).head?, isBlank c = false ∧ c ≠ '#' := by
    cases exported
    · exact h.head
    · rintro _ ⟨⟩
      decide
  have hequals : '=' ∉ declared exported key := by
    cases exported
    · exact h.equals_not_mem
    · rw [declared, if_pos rfl, List.mem_append, not_or]
      exact ⟨by decide, h.equals_not_mem⟩
  have hkey : keyOf (declared exported key) ≠ [] := by
    rw [h.keyOf_declared]
    exact h.ne_nil
  rw [parseLine_equals hindent hne hhead hequals hkey, h.keyOf_declared]

theorem IsKey.parseLine_eq (h : IsKey key) (rest : List Char) :
    parseLine (key ++ '=' :: rest) = some (key, valueOf rest) := by
  have hnone : ∀ c ∈ ([] : List Char), isBlank c := nofun
  exact h.parseLine_assignment hnone false rest

/-- The key of an assignment is neither empty nor has it an equals sign. -/
theorem of_parseLine {line : List Char} (h : parseLine line = some (key, value)) :
    key ≠ [] ∧ '=' ∉ key := by
  rw [parseLine] at h
  dsimp only at h
  split at h
  · cases h
  · split at h
    · cases h
    · next hne =>
        obtain ⟨rfl, _⟩ := Prod.mk.inj (Option.some.inj h)
        refine ⟨hne, fun hequals => ?_⟩
        have hkept := List.all_eq_true.mp List.all_takeWhile _ (mem_of_mem_keyOf hequals)
        exact absurd hkept (by decide)

/-! ### Values -/

/-- Whether a character is one of the two quotes. -/
def IsQuote (quote : Char) : Prop := quote = doubleQuote ∨ quote = singleQuote

/-- A value in quotes. -/
def quoted (quote : Char) (inner : List Char) : List Char := quote :: inner ++ [quote]

theorem IsQuote.isBlank_eq (h : IsQuote quote) : isBlank quote = false := by
  rcases h with rfl | rfl <;> decide

theorem dropComment_of_quote (h : IsQuote quote) (rest : List Char) :
    dropComment (quote :: rest) = quote :: rest := by
  rw [dropComment]
  split
  · have hhash : (quote != '#') = true := by rcases h with rfl | rfl <;> decide
    have hbefore : trimEnd ((quote :: rest).takeWhile (· != '#')) =
        quote :: trimEnd (rest.takeWhile (· != '#')) := by
      rw [List.takeWhile_cons, if_pos hhash]
      exact trimEnd_append_cons [] h.isBlank_eq _
    rw [hbefore, if_pos]
    rcases h with rfl | rfl <;> simp
  · rfl

theorem valueOf_quoted (h : IsQuote quote) (inner : List Char) :
    valueOf (quoted quote inner) = inner := by
  have htrimmed : IsTrimmed (quoted quote inner) := by
    constructor
    · rintro _ ⟨⟩
      exact h.isBlank_eq
    · intro c hc
      rw [quoted, List.getLast?_concat] at hc
      exact Option.some.inj hc ▸ h.isBlank_eq
  have henclosed : isEnclosed quote (quoted quote inner) = true := by
    have hlast : (quoted quote inner).getLast? = some quote := List.getLast?_concat
    simp [isEnclosed, hlast]
    simp [quoted]
  rw [valueOf, htrimmed.trim_eq, quoted, List.cons_append, dropComment_of_quote h,
    ← List.cons_append, ← quoted, dropQuotes, if_pos]
  · exact List.dropLast_concat
  · rcases h with rfl | rfl
    · rw [henclosed, Bool.true_or]
    · rw [henclosed, Bool.or_true]

/-! ### Comments -/

/-- Whether a value has neither quotes nor the sign of a comment. -/
structure IsPlain (value : List Char) : Prop where
  hash_not_mem : '#' ∉ value
  doubleQuote_not_mem : doubleQuote ∉ value
  singleQuote_not_mem : singleQuote ∉ value

/-- A text with a comment after it. -/
def commented (text comment : List Char) : List Char := text ++ ' ' :: '#' :: ' ' :: comment

theorem IsPlain.dropQuotes_trim (h : IsPlain value) : dropQuotes (trim value) = trim value := by
  have hnot : ∀ quote, quote ∉ value → isEnclosed quote (trim value) = false := by
    intro quote hquote
    have hhead : ((trim value).head? == some quote) = false := by
      rw [beq_eq_false_iff_ne]
      exact fun hhead => hquote (mem_of_mem_trim (List.mem_of_mem_head? hhead))
    simp [isEnclosed, hhead]
  rw [dropQuotes, hnot _ h.doubleQuote_not_mem, hnot _ h.singleQuote_not_mem]
  rfl

theorem IsPlain.valueOf_eq (h : IsPlain value) : valueOf value = trim value := by
  have hhash : (trim value).contains '#' = false := by
    rw [← Bool.not_eq_true, List.contains_iff_mem]
    exact fun hmem => h.hash_not_mem (mem_of_mem_trim hmem)
  rw [valueOf, dropComment, hhash]
  exact h.dropQuotes_trim

/-- A comment after a value without quotes is dropped. -/
theorem IsPlain.valueOf_commented (h : IsPlain value) (comment : List Char) :
    valueOf (commented value comment) = trim value := by
  have hsplit : commented value comment = (value ++ [' ']) ++ '#' :: ' ' :: comment := by
    simp [commented]
  have hbefore : trimEnd (trimStart (value ++ [' '])) = trim value :=
    trim_append_blank (List.all_eq_true.mp (by decide))
  have hkeep : ∀ c ∈ trimStart (value ++ [' ']), (c != '#') = true := by
    intro c hc
    rw [bne_iff_ne]
    rintro rfl
    have hmem := (List.dropWhile_sublist isBlank).subset hc
    simp [h.hash_not_mem] at hmem
  have hnot : ∀ quote, quote ∉ value → (trim value).contains quote = false := by
    intro quote hquote
    rw [← Bool.not_eq_true, List.contains_iff_mem]
    exact fun hmem => hquote (mem_of_mem_trim hmem)
  rw [valueOf, hsplit, trim_append_cons _ (by decide), dropComment, if_pos (by simp)]
  dsimp only
  rw [List.takeWhile_append_of_pos hkeep, List.takeWhile_cons_of_neg (by decide), List.append_nil,
    hbefore, hnot _ h.doubleQuote_not_mem, hnot _ h.singleQuote_not_mem]
  exact h.dropQuotes_trim

/-- A comment after a value in quotes stays, and so do the quotes, unless the comment ends in the
quote. -/
theorem valueOf_commented_quoted (h : IsQuote quote) (inner comment : List Char) :
    valueOf (commented (quoted quote inner) comment) =
      dropQuotes (quoted quote inner ++ ' ' :: '#' :: trimEnd (' ' :: comment)) := by
  have hsplit : commented (quoted quote inner) comment =
      [] ++ quote :: (inner ++ quote :: ([' '] ++ '#' :: ' ' :: comment)) := by
    simp [commented, quoted]
  rw [valueOf, hsplit, trim_append_cons _ h.isBlank_eq, trimEnd_append_cons _ h.isBlank_eq,
    trimEnd_append_cons _ (by decide), trimStart_nil, List.nil_append, dropComment_of_quote h]
  simp [quoted]

theorem length_le_dropQuotes (value : List Char) :
    value.length ≤ (dropQuotes value).length + 2 := by
  rw [dropQuotes]
  split
  · rw [List.length_dropLast, List.length_tail]
    omega
  · omega

theorem valueOf_commented_quoted_ne (h : IsQuote quote) (inner comment : List Char) :
    valueOf (commented (quoted quote inner) comment) ≠ inner := by
  intro hsame
  have hlength :=
    length_le_dropQuotes (quoted quote inner ++ ' ' :: '#' :: trimEnd (' ' :: comment))
  rw [← valueOf_commented_quoted h, hsame] at hlength
  simp only [quoted, List.length_append, List.length_cons, List.length_nil] at hlength
  omega

/-- A comment after a value without quotes changes nothing.  After a value in quotes, where a hash
belongs to the value, it becomes part of the value. -/
theorem parseLine_commented (h : IsKey key) (comment : List Char) :
    (∀ value, IsPlain value →
      parseLine (key ++ '=' :: value) = some (key, trim value) ∧
        parseLine (key ++ '=' :: commented value comment) = parseLine (key ++ '=' :: value)) ∧
    (∀ quote, IsQuote quote → ∀ inner,
      parseLine (key ++ '=' :: quoted quote inner) = some (key, inner) ∧
        parseLine (key ++ '=' :: commented (quoted quote inner) comment) =
          some (key, dropQuotes (quoted quote inner ++ ' ' :: '#' :: trimEnd (' ' :: comment))) ∧
        parseLine (key ++ '=' :: commented (quoted quote inner) comment) ≠
          parseLine (key ++ '=' :: quoted quote inner)) := by
  refine ⟨fun value hvalue => ?_, fun quote hquote inner => ?_⟩
  · rw [h.parseLine_eq, h.parseLine_eq, hvalue.valueOf_eq, hvalue.valueOf_commented]
    exact ⟨rfl, rfl⟩
  · rw [h.parseLine_eq, h.parseLine_eq, valueOf_quoted hquote, valueOf_commented_quoted hquote]
    refine ⟨rfl, rfl, fun hsame => ?_⟩
    rw [← valueOf_commented_quoted hquote] at hsame
    exact valueOf_commented_quoted_ne hquote inner comment (Prod.mk.inj (Option.some.inj hsame)).2

theorem parseLine_commented_port : IsKey "PORT".toList ∧
    parseLine "PORT=80 # open".toList = parseLine "PORT=80".toList := by
  have hkey : IsKey "PORT".toList :=
    ⟨by decide, isTrimmed_of_any (by decide) (by decide), by decide, by decide, by decide⟩
  exact ⟨hkey, ((parseLine_commented hkey "open".toList).1 "80".toList
    ⟨by decide, by decide, by decide⟩).2⟩

/-- A comment after a value in quotes can change an assignment. -/
theorem not_parseLine_commented :
    ¬ ∀ (key inner comment : List Char) (quote : Char), IsKey key → IsQuote quote →
      quote ∉ inner → '\n' ∉ comment →
      parseLine (key ++ '=' :: commented (quoted quote inner) comment) =
        parseLine (key ++ '=' :: quoted quote inner) := by
  intro h
  have hsame := h ['K'] ['v'] ['c'] doubleQuote
    ⟨by decide, isTrimmed_of_any (by decide) (by decide), by decide, by decide, by decide⟩
    (.inl rfl) (by decide) (by decide)
  revert hsame
  decide

end Enclave.Dotenv
