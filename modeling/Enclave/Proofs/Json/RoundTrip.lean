import Enclave.Json.Parser
import Enclave.Json.Printer

/-! # Reading what was written

A string that is written between quotes is read as the same string (`string?_encode`).  A value is
`Readable` when it is read back from its indented form whatever follows; strings are, and arrays and
objects are when their parts are (`readable_string`, `readable_array`, `readable_object`).  So a
readable value comes back from its text (`parse?_pretty`). -/

namespace Enclave.Json

/-! ### Strings -/

private theorem hexNumber?_hexDigit :
    ∀ n < 32, hexNumber? '0' '0' (hexDigit (n / 16)) (hexDigit (n % 16)) = some n := by decide

theorem units_backslash {e : Char} {n : Nat} (h : unescape? e = some n) (hu : e ≠ 'u')
    (rest : List Char) :
    units ('\\' :: e :: rest) = (units rest).map fun (text, after) => (n :: text, after) := by
  rw [units, h]
  · cases units rest <;> rfl
  · intros; simp_all

theorem units_plain {c : Char} (hquote : c ≠ '"') (hslash : c ≠ '\\') (h : ¬ c.toNat < 0x20) (rest : List Char) :
    units (c :: rest) = (units rest).map fun (text, after) => (c.toNat :: text, after) := by
  rw [units, if_neg h]
  · cases units rest <;> rfl
  all_goals simp_all

theorem units_escape (c : Char) (rest : List Char) :
    units (escape c ++ rest) = (units rest).map fun (text, after) => (c.toNat :: text, after) := by
  unfold escape
  split
  · exact units_backslash rfl (by decide) rest
  · exact units_backslash rfl (by decide) rest
  · exact units_backslash rfl (by decide) rest
  · exact units_backslash rfl (by decide) rest
  · exact units_backslash rfl (by decide) rest
  · next hquote hslash _ _ _ =>
      split
      · next h => exact h ▸ units_backslash rfl (by decide) rest
      split
      · next h => exact h ▸ units_backslash rfl (by decide) rest
      split
      · next h =>
          simp only [List.cons_append, List.nil_append, units, hexNumber?_hexDigit c.toNat (by omega)]
          cases units rest <;> rfl
      · next h => exact units_plain hquote hslash h rest

theorem units_encode (text rest : List Char) :
    units (text.flatMap escape ++ '"' :: rest) = some (text.map Char.toNat, rest) := by
  induction text with
  | nil => rfl
  | cons c text ih =>
      rw [List.flatMap_cons, List.append_assoc, units_escape, ih]
      rfl

private theorem not_half (c : Char) : isHighHalf c.toNat = false ∧ isLowHalf c.toNat = false := by
  have hscalar : c.toNat < 0xD800 ∨ 0xDFFF < c.toNat ∧ c.toNat < 0x110000 := c.valid
  simp only [isHighHalf, isLowHalf, Bool.and_eq_false_iff, decide_eq_false_iff_not]
  omega

theorem unitsText?_toNat (text : List Char) : unitsText? (text.map Char.toNat) = some text := by
  induction text with
  | nil => rfl
  | cons c text ih =>
      obtain ⟨hhigh, hlow⟩ := not_half c
      cases text with
      | nil => simp [unitsText?, hhigh, hlow, Char.ofNat_toNat]
      | cons d text =>
          rw [List.map_cons] at ih
          rw [List.map_cons, List.map_cons, unitsText?, hhigh, hlow, Bool.false_and,
            if_neg Bool.false_ne_true, Bool.false_or, if_neg Bool.false_ne_true, ih,
            Char.ofNat_toNat]
          rfl

/-- A string that is written between quotes is read as the same string. -/
theorem string?_encode (text : String) (rest : List Char) :
    string? (text.toList.flatMap escape ++ '"' :: rest) = some (some text, rest) := by
  rw [string?, units_encode]
  simp only [Option.map_some, unitsText?_toNat, String.ofList_toList]

/-! ### Values -/

/-- Whether a value is read back from its indented form, whatever follows it. -/
structure Readable (value : Value) : Prop where
  head : ∀ level, ∃ c rest, prettyAt level value = c :: rest ∧ isSpace c = false ∧ c ≠ ']'
  reads : ∀ level fuel rest, (prettyAt level value).length < fuel →
    value? fuel (prettyAt level value ++ rest) = some (value, rest)

theorem skipSpace_newLine (level : Nat) (text : List Char) :
    skipSpace (newLine level ++ text) = skipSpace text := by
  rw [skipSpace, skipSpace, newLine, List.cons_append, List.dropWhile_cons_of_pos rfl]
  exact List.dropWhile_append_of_pos fun c hc => by
    rw [List.eq_of_mem_replicate hc]
    rfl

theorem skipSpace_cons {c : Char} (h : isSpace c = false) (text : List Char) :
    skipSpace (c :: text) = c :: text :=
  List.dropWhile_cons_of_neg (by simp [h])

theorem value?_congr (fuel : Nat) {text text' : List Char} (h : skipSpace text = skipSpace text') :
    value? fuel text = value? fuel text' := by
  cases fuel with
  | zero => rw [value?, value?]
  | succ fuel => rw [value?, value?, h]

theorem readable_string (text : String) : Readable (.ofText text) := by
  have hform : ∀ level, prettyAt level (.ofText text) =
      '"' :: (text.toList.flatMap escape ++ ['"']) := fun level => by
    rw [Value.ofText, prettyAt, stringChars, encode]
    rfl
  have hquote : ∀ fuel rest, value? (fuel + 1) ('"' :: rest) =
      (string? rest).map fun read => (.string read.1, read.2) := fun fuel rest => by
    rw [value?, skipSpace_cons rfl]
    rfl
  refine ⟨fun level => ⟨'"', _, hform level, rfl, by decide⟩, fun level fuel rest hfuel => ?_⟩
  cases fuel with
  | zero => cases hfuel
  | succ fuel =>
      rw [hform, List.cons_append, hquote, List.append_assoc, List.singleton_append,
        string?_encode]
      rfl

/-! ### Arrays -/

theorem value?_bracket (fuel : Nat) {rest after : List Char} {c : Char}
    (h : skipSpace rest = c :: after) (hc : c ≠ ']') :
    value? (fuel + 1) ('[' :: rest) =
      (items? fuel rest).map fun (items, rest) => (.array items, rest) := by
  rw [value?, skipSpace_cons rfl]
  simp only [h]
  split
  · next heq => exact absurd (List.cons.inj heq).1 hc
  · rfl

theorem prettyItems_cons (level : Nat) (item : Value) (items : List Value) :
    prettyItems level (item :: items) =
      ',' :: (newLine level ++ (prettyAt level item ++ prettyItems level items)) := by
  rw [prettyItems, List.cons_append, List.cons_append, List.append_assoc]

/-- The items of an array are read up to the closing bracket. -/
theorem items?_pretty {items : List Value} (hne : items ≠ []) (h : ∀ item ∈ items, Readable item)
    (level below fuel : Nat) (rest : List Char) (hfuel : (prettyItems level items).length ≤ fuel) :
    items? fuel ((prettyItems level items).tail ++ (newLine below ++ ']' :: rest)) =
      some (items, rest) := by
  induction items generalizing fuel with
  | nil => exact absurd rfl hne
  | cons item items ih =>
      have hline : 0 < (newLine level).length := by simp [newLine]
      rw [prettyItems_cons, List.length_cons, List.length_append, List.length_append] at hfuel
      obtain ⟨fuel, rfl⟩ : ∃ n, fuel = n + 1 := ⟨fuel - 1, by omega⟩
      have hitem : ∀ rest, value? fuel (newLine level ++ (prettyAt level item ++ rest)) =
          some (item, rest) := fun rest => by
        rw [value?_congr fuel (skipSpace_newLine level _)]
        exact (h item List.mem_cons_self).reads level fuel rest (by omega)
      rw [prettyItems_cons, List.tail_cons, List.append_assoc, List.append_assoc, items?, hitem]
      cases items with
      | nil =>
          rw [prettyItems, List.nil_append]
          simp only [skipSpace_newLine, @skipSpace_cons ']' rfl]
      | cons next items =>
          have ih := ih (List.cons_ne_nil next items)
            (fun value hvalue => h value (List.mem_cons_of_mem item hvalue)) fuel (by omega)
          rw [prettyItems_cons, List.tail_cons] at ih
          rw [prettyItems_cons, List.cons_append]
          simp only [@skipSpace_cons ',' rfl, ih]
          rfl

theorem readable_array {items : List Value} (h : ∀ item ∈ items, Readable item) :
    Readable (.array items) := by
  cases items with
  | nil =>
      refine ⟨fun level => ⟨'[', _, by rw [prettyAt]; rfl, rfl, by decide⟩,
        fun level fuel rest hfuel => ?_⟩
      cases fuel with
      | zero => cases hfuel
      | succ fuel =>
          rw [prettyAt, value?]
          rfl
  | cons item items =>
      have hform : ∀ level, prettyAt level (.array (item :: items)) =
          '[' :: ((prettyItems (level + 1) (item :: items)).tail ++ (newLine level ++ [']'])) := by
        intro level
        rw [prettyAt, prettyItems_cons, List.tail_cons]
        simp only [List.cons_append, List.append_assoc]
      refine ⟨fun level => ⟨'[', _, hform level, rfl, by decide⟩, fun level fuel rest hfuel => ?_⟩
      obtain ⟨c, after, hitem, hspace, hbracket⟩ := (h item List.mem_cons_self).head (level + 1)
      rw [hform, List.length_cons] at hfuel
      obtain ⟨fuel, rfl⟩ : ∃ n, fuel = n + 1 := ⟨fuel - 1, by omega⟩
      have hfirst : ∀ rest, ∃ after,
          skipSpace ((prettyItems (level + 1) (item :: items)).tail ++ rest) = c :: after := by
        intro rest
        rw [prettyItems_cons, List.tail_cons, hitem, List.append_assoc, skipSpace_newLine,
          List.cons_append, List.cons_append, skipSpace_cons hspace]
        exact ⟨_, rfl⟩
      obtain ⟨after', hfirst⟩ := hfirst (newLine level ++ ([']'] ++ rest))
      have hitems := items?_pretty (List.cons_ne_nil item items) h (level + 1) level fuel rest
        (by
          rw [List.length_append, List.length_append, List.length_singleton] at hfuel
          rw [prettyItems_cons, List.tail_cons] at hfuel
          rw [prettyItems_cons, List.length_cons]
          omega)
      rw [hform, List.cons_append, List.append_assoc, List.append_assoc,
        value?_bracket fuel hfirst hbracket, List.singleton_append, hitems]
      rfl

/-! ### Objects -/

/-- Members whose keys are texts. -/
abbrev textMembers (members : List (String × Value)) : List (Option String × Value) :=
  members.map fun (key, value) => (some key, value)

theorem value?_brace (fuel : Nat) {rest after : List Char} {c : Char}
    (h : skipSpace rest = c :: after) (hc : c ≠ '\x7d') :
    value? (fuel + 1) ('\x7b' :: rest) =
      (members? fuel rest).map fun (members, rest) => (.object members, rest) := by
  rw [value?, skipSpace_cons rfl]
  simp only [h]
  split
  · next heq => exact absurd (List.cons.inj heq).1 hc
  · rfl

theorem prettyMembers_cons (level : Nat) (key : String) (value : Value)
    (members : List (Option String × Value)) :
    prettyMembers level ((some key, value) :: members) =
      ',' :: (newLine level ++ ('"' :: (key.toList.flatMap escape ++ ('"' :: ':' :: ' ' ::
        (prettyAt level value ++ prettyMembers level members))))) := by
  rw [prettyMembers, stringChars, encode]
  simp only [List.cons_append, List.append_assoc, Option.getD_some]
  rfl

/-- The members of an object are read up to the closing brace. -/
theorem members?_pretty {members : List (String × Value)} (hne : members ≠ [])
    (h : ∀ member ∈ members, Readable member.2) (level below fuel : Nat) (rest : List Char)
    (hfuel : (prettyMembers level (textMembers members)).length ≤ fuel) :
    members? fuel ((prettyMembers level (textMembers members)).tail ++
      (newLine below ++ '\x7d' :: rest)) = some (textMembers members, rest) := by
  induction members generalizing fuel with
  | nil => exact absurd rfl hne
  | cons member members ih =>
      obtain ⟨key, value⟩ := member
      rw [textMembers, List.map_cons, prettyMembers_cons] at hfuel ⊢
      rw [List.length_cons, List.length_append, List.length_cons, List.length_append,
        List.length_cons, List.length_cons, List.length_cons, List.length_append] at hfuel
      obtain ⟨fuel, rfl⟩ : ∃ n, fuel = n + 1 := ⟨fuel - 1, by omega⟩
      have hreadable : Readable value := h (key, value) List.mem_cons_self
      have hvalue : ∀ rest, value? fuel (' ' :: (prettyAt level value ++ rest)) =
          some (value, rest) := fun rest => by
        rw [value?_congr fuel (List.dropWhile_cons_of_pos rfl)]
        exact hreadable.reads level fuel rest (by omega)
      rw [List.tail_cons, members?]
      simp only [List.append_assoc, List.cons_append, skipSpace_newLine, @skipSpace_cons '"' rfl,
        string?_encode, @skipSpace_cons ':' rfl, hvalue]
      cases members with
      | nil =>
          rw [List.map_nil, prettyMembers, List.nil_append]
          simp only [skipSpace_newLine, @skipSpace_cons '\x7d' rfl]
      | cons next members =>
          have ih := ih (List.cons_ne_nil next members)
            (fun member hmember => h member (List.mem_cons_of_mem _ hmember)) fuel
            (by rw [textMembers]; omega)
          rw [textMembers, List.map_cons, prettyMembers_cons, List.tail_cons] at ih
          rw [List.map_cons, prettyMembers_cons, List.cons_append]
          simp only [@skipSpace_cons ',' rfl, ih]
          rfl

theorem readable_object {members : List (String × Value)}
    (h : ∀ member ∈ members, Readable member.2) : Readable (.ofMembers members) := by
  cases members with
  | nil =>
      refine ⟨fun level => ⟨'\x7b', _, by rw [Value.ofMembers, List.map_nil, prettyAt], rfl,
        by decide⟩, fun level fuel rest hfuel => ?_⟩
      cases fuel with
      | zero => cases hfuel
      | succ fuel =>
          rw [Value.ofMembers, List.map_nil, prettyAt, value?]
          rfl
  | cons member members =>
      have hform : ∀ level, prettyAt level (.ofMembers (member :: members)) =
          '\x7b' :: ((prettyMembers (level + 1) (textMembers (member :: members))).tail ++
            (newLine level ++ ['\x7d'])) := by
        intro level
        rw [Value.ofMembers, List.map_cons, prettyAt, textMembers, List.map_cons,
          prettyMembers_cons, List.tail_cons, stringChars, encode]
        simp only [List.cons_append, List.append_assoc, Option.getD_some]
        rfl
      refine ⟨fun level => ⟨'\x7b', _, hform level, rfl, by decide⟩,
        fun level fuel rest hfuel => ?_⟩
      rw [hform, List.length_cons] at hfuel
      obtain ⟨fuel, rfl⟩ : ∃ n, fuel = n + 1 := ⟨fuel - 1, by omega⟩
      have hfirst : ∀ rest, ∃ after, skipSpace
          ((prettyMembers (level + 1) (textMembers (member :: members))).tail ++ rest) =
            '"' :: after := by
        intro rest
        rw [textMembers, List.map_cons, prettyMembers_cons, List.tail_cons, List.append_assoc,
          skipSpace_newLine, List.cons_append, @skipSpace_cons '"' rfl]
        exact ⟨_, rfl⟩
      obtain ⟨after, hfirst⟩ := hfirst (newLine level ++ (['\x7d'] ++ rest))
      have hmembers := members?_pretty (List.cons_ne_nil member members) h (level + 1) level fuel
        rest (by
          rw [List.length_append, List.length_append, List.length_singleton] at hfuel
          rw [textMembers, List.map_cons, prettyMembers_cons, List.tail_cons] at hfuel
          rw [textMembers, List.map_cons, prettyMembers_cons, List.length_cons]
          omega)
      rw [hform, List.cons_append, List.append_assoc, List.append_assoc,
        value?_brace fuel hfirst (by decide), List.singleton_append, hmembers]
      rfl

/-- A readable value comes back from its text. -/
theorem parse?_pretty {value : Value} (h : Readable value) :
    parse? (pretty value).toList = some value := by
  rw [parse?, pretty, String.toList_ofList]
  have hreads := h.reads 0 ((prettyAt 0 value).length + 1) [] (Nat.lt_succ_self _)
  rw [List.append_nil] at hreads
  rw [hreads]
  rfl

end Enclave.Json
