import Enclave.Proofs.Json.RoundTrip

/-! # Reading what was cut off

A reader that splits a part off the front of a text has seen its end, unless it stopped where the
text does.  So whatever is put behind the text, the same part is split off (`Local`).  A number may
go on; strings, arrays and objects end with a character of their own, so a value that is no number
is always split off in the same way (`extends_all`).  Hence no part of the written form of a value
is itself the form of a value, if that is to be no number (`eq_nil_of_parse?`). -/

namespace Enclave.Json

variable {text rest more : List Char}

/-! ### Readers that have seen the end -/

/-- Whether a reader splits off the same part when a text goes on, if it has not read all of it. -/
structure Local (read : List Char → Option (List Char × List Char)) : Prop where
  nil : ∀ part rest, read [] = some (part, rest) → rest = []
  append : ∀ text part rest, read text = some (part, rest) → rest ≠ [] →
    ∀ more, read (text ++ more) = some (part, rest ++ more)

/-- A reader that has left something was given something. -/
theorem Local.ne_nil {read : List Char → Option (List Char × List Char)} (h : Local read)
    {part : List Char} (hread : read text = some (part, rest)) (hrest : rest ≠ []) : text ≠ [] := by
  rintro rfl
  exact hrest (h.nil part rest hread)

theorem dropWhile_append_of_ne_nil {p : Char → Bool} (h : text.dropWhile p ≠ [])
    (more : List Char) : (text ++ more).dropWhile p = text.dropWhile p ++ more := by
  rw [List.dropWhile_append, if_neg]
  simpa using h

theorem takeWhile_append_of_ne_nil {p : Char → Bool} (h : text.dropWhile p ≠ [])
    (more : List Char) : (text ++ more).takeWhile p = text.takeWhile p := by
  have hlength : (text.takeWhile p).length + (text.dropWhile p).length = text.length := by
    rw [← List.length_append, List.takeWhile_append_dropWhile]
  have hpos := List.length_pos_iff.mpr h
  rw [List.takeWhile_append, if_neg (by omega)]

theorem local_digits? : Local digits? := by
  constructor
  · intro part rest h
    cases h
  · intro text part rest h hrest more
    unfold digits? at h ⊢
    split at h
    · cases h
    · next hdigits =>
        obtain ⟨rfl, rfl⟩ := Prod.mk.inj (Option.some.inj h)
        rw [takeWhile_append_of_ne_nil hrest, dropWhile_append_of_ne_nil hrest]
        split
        · next hnil => exact absurd hnil hdigits
        · rfl

/-! ### Numbers -/

theorem local_wholePart? : Local wholePart? := by
  have hdigits : ∀ {text part rest}, wholePart? text = some (part, rest) →
      digits? text = some (part, rest) ∧ ∀ next others, part ≠ '0' :: next :: others := by
    intro text part rest h
    unfold wholePart? at h
    split at h
    · cases h
    · next hplain =>
        refine ⟨h, fun next others hzero => ?_⟩
        exact hplain next others rest (hzero ▸ h)
  constructor
  · intro part rest h
    exact local_digits?.nil part rest (hdigits h).1
  · intro text part rest h hrest more
    obtain ⟨hread, hplain⟩ := hdigits h
    have hmore := local_digits?.append text part rest hread hrest more
    unfold wholePart?
    rw [hmore]
    split
    · next hzero =>
        obtain ⟨hpart, _⟩ := Prod.mk.inj (Option.some.inj hzero)
        exact absurd hpart (hplain _ _)
    · rfl

theorem local_fractionPart? : Local fractionPart? := by
  constructor
  · intro part rest h
    exact (Prod.mk.inj (Option.some.inj h)).2.symm
  · intro text part rest h hrest more
    unfold fractionPart? at h
    split at h
    · next after =>
        obtain ⟨⟨digits, left⟩, hdigits, hpart⟩ := Option.map_eq_some_iff.mp h
        obtain ⟨rfl, rfl⟩ := Prod.mk.inj hpart
        rw [List.cons_append, fractionPart?,
          local_digits?.append after digits left hdigits hrest more]
        rfl
    · next hpoint =>
        obtain ⟨rfl, rfl⟩ := Prod.mk.inj (Option.some.inj h)
        obtain ⟨c, after, rfl⟩ := List.exists_cons_of_ne_nil hrest
        unfold fractionPart?
        split
        · next heq => exact absurd (by rw [(List.cons.inj heq).1]) (hpoint after)
        · rfl

theorem exponentSign_append (h : text ≠ []) (more : List Char) :
    exponentSign (text ++ more) = ((exponentSign text).1, (exponentSign text).2 ++ more) := by
  obtain ⟨c, after, rfl⟩ := List.exists_cons_of_ne_nil h
  unfold exponentSign
  split <;> simp_all

theorem exponentPart?_cons (e : Char) (after : List Char) :
    exponentPart? (e :: after) = if e = 'e' ∨ e = 'E' then
      (digits? (exponentSign after).2).map fun read =>
        (e :: (exponentSign after).1 ++ read.1, read.2)
      else some ([], e :: after) := rfl

theorem local_exponentPart? : Local exponentPart? := by
  constructor
  · intro part rest h
    exact (Prod.mk.inj (Option.some.inj h)).2.symm
  · intro text part rest h hrest more
    cases text with
    | nil => exact absurd (Prod.mk.inj (Option.some.inj h)).2.symm hrest
    | cons e after =>
        rw [exponentPart?_cons] at h
        rw [List.cons_append, exponentPart?_cons]
        split at h
        · next he =>
            obtain ⟨⟨digits, left⟩, hdigits, hpart⟩ := Option.map_eq_some_iff.mp h
            obtain ⟨rfl, rfl⟩ := Prod.mk.inj hpart
            have hafter : after ≠ [] := by
              rintro rfl
              cases hdigits
            have hmore := local_digits?.append _ digits left hdigits hrest more
            rw [if_pos he, exponentSign_append hafter, hmore]
            rfl
        · next he =>
            obtain ⟨rfl, rfl⟩ := Prod.mk.inj (Option.some.inj h)
            rw [if_neg he, List.cons_append]

/-- The sign that may stand before a number. -/
def numberSign (text : List Char) : List Char × List Char :=
  match text with
  | '-' :: rest => (['-'], rest)
  | _ => ([], text)

theorem numberSign_append (h : text ≠ []) (more : List Char) :
    numberSign (text ++ more) = ((numberSign text).1, (numberSign text).2 ++ more) := by
  obtain ⟨c, after, rfl⟩ := List.exists_cons_of_ne_nil h
  unfold numberSign
  split <;> simp_all

/-- The parts of a number that is split off. -/
theorem number?_eq_some_iff {literal : List Char} :
    number? text = some (literal, rest) ↔ ∃ whole fraction exponent afterWhole afterFraction,
      wholePart? (numberSign text).2 = some (whole, afterWhole) ∧
        fractionPart? afterWhole = some (fraction, afterFraction) ∧
        exponentPart? afterFraction = some (exponent, rest) ∧
        (numberSign text).1 ++ whole ++ fraction ++ exponent = literal := by
  have hform : number? text = (wholePart? (numberSign text).2).bind fun read =>
      (fractionPart? read.2).bind fun read' => (exponentPart? read'.2).bind fun read'' =>
        some ((numberSign text).1 ++ read.1 ++ read'.1 ++ read''.1, read''.2) := by
    unfold number? numberSign
    rfl
  rw [hform]
  simp only [Option.bind_eq_some_iff, Option.some.injEq, Prod.mk.injEq, Prod.exists]
  constructor
  · rintro ⟨whole, afterWhole, hwhole, fraction, afterFraction, hfraction, exponent, _, hexponent,
      hliteral, rfl⟩
    exact ⟨whole, fraction, exponent, afterWhole, afterFraction, hwhole, hfraction, hexponent,
      hliteral⟩
  · rintro ⟨whole, fraction, exponent, afterWhole, afterFraction, hwhole, hfraction, hexponent,
      hliteral⟩
    exact ⟨whole, afterWhole, hwhole, fraction, afterFraction, hfraction, exponent, rest, hexponent,
      hliteral, rfl⟩

/-- A number behind which something stands is read to its end. -/
theorem local_number? : Local number? := by
  constructor
  · intro part rest h
    cases h
  · intro text literal rest h hrest more
    obtain ⟨whole, fraction, exponent, afterWhole, afterFraction, hwhole, hfraction, hexponent,
      hliteral⟩ := number?_eq_some_iff.mp h
    have hne₂ := local_exponentPart?.ne_nil hexponent hrest
    have hne₁ := local_fractionPart?.ne_nil hfraction hne₂
    have hne : text ≠ [] := by
      rintro rfl
      cases h
    have hsign := numberSign_append hne more
    refine number?_eq_some_iff.mpr ⟨whole, fraction, exponent, afterWhole ++ more,
      afterFraction ++ more, ?_, ?_, ?_, ?_⟩
    · rw [hsign]
      exact local_wholePart?.append _ _ _ hwhole hne₁ more
    · exact local_fractionPart?.append _ _ _ hfraction hne₂ more
    · exact local_exponentPart?.append _ _ _ hexponent hrest more
    · rw [hsign]
      exact hliteral

/-! ### Words and strings -/

theorem word?_append {word : List Char} (h : word? word text = some rest) (more : List Char) :
    word? word (text ++ more) = some (rest ++ more) := by
  induction word generalizing text with
  | nil =>
      obtain rfl := Option.some.inj h
      rfl
  | cons c word ih =>
      cases text with
      | nil => cases h
      | cons d text =>
          rw [word?] at h
          rw [List.cons_append, word?]
          split at h
          · next hcd =>
              rw [if_pos hcd]
              exact ih h
          · cases h

theorem map_word?_append {word : List Char} {result value : Value}
    (h : (word? word text).map (result, ·) = some (value, rest)) (more : List Char) :
    (word? word (text ++ more)).map (result, ·) = some (value, rest ++ more) := by
  obtain ⟨after, hword, hread⟩ := Option.map_eq_some_iff.mp h
  obtain ⟨rfl, rfl⟩ := Prod.mk.inj hread
  rw [word?_append hword more]
  rfl

/-- A string ends with its closing quote. -/
theorem units_append {read : List Nat} (h : units text = some (read, rest)) (more : List Char) :
    units (text ++ more) = some (read, rest ++ more) := by
  fun_induction units text generalizing read rest with
  | case1 => cases h
  | case2 after =>
      obtain ⟨rfl, rfl⟩ := Prod.mk.inj (Option.some.inj h)
      rw [List.cons_append, units]
  | case3 a b c d after n inner last hinner hnumber ih =>
      obtain ⟨rfl, rfl⟩ := Prod.mk.inj (Option.some.inj h)
      simp only [List.cons_append, units, hnumber, ih hinner]
  | case4 => cases h
  | case5 e after hlong n inner last hinner hescape ih =>
      obtain ⟨rfl, rfl⟩ := Prod.mk.inj (Option.some.inj h)
      have hu : e ≠ 'u' := by
        rintro rfl
        cases hescape
      rw [List.cons_append, List.cons_append, units_backslash hescape hu, ih hinner]
      rfl
  | case6 => cases h
  | case7 => cases h
  | case8 c after hquote hlong hshort hcontrol inner last hinner ih =>
      obtain ⟨rfl, rfl⟩ := Prod.mk.inj (Option.some.inj h)
      have hslash : c ≠ '\\' := by
        rintro rfl
        cases after with
        | nil => cases hinner
        | cons e after => exact hshort e after rfl rfl
      rw [List.cons_append, units_plain hquote hslash hcontrol, ih hinner]
      rfl
  | case9 => cases h

theorem string?_append {read : Option String} (h : string? text = some (read, rest))
    (more : List Char) : string? (text ++ more) = some (read, rest ++ more) := by
  obtain ⟨⟨inner, after⟩, hunits, hread⟩ := Option.map_eq_some_iff.mp h
  obtain ⟨rfl, rfl⟩ := Prod.mk.inj hread
  unfold string?
  rw [units_append hunits]
  rfl

/-! ### Values -/

theorem skipSpace_append {c : Char} {after : List Char} (h : skipSpace text = c :: after)
    (more : List Char) : skipSpace (text ++ more) = c :: (after ++ more) := by
  unfold skipSpace at h ⊢
  rw [dropWhile_append_of_ne_nil (by simp [h]), h, List.cons_append]

theorem isSpace_of_skipSpace {c : Char} {after : List Char} (h : skipSpace text = c :: after) :
    isSpace c = false := by
  have hhead := List.head?_dropWhile_not isSpace text
  unfold skipSpace at h
  rw [h] at hhead
  exact hhead

/-- What can be seen of a value where its text stops: a number may go on. -/
def IsClosed (value : Value) (rest : List Char) : Prop :=
  ∀ literal, value = .number literal → rest ≠ []

/-- Whether everything that is read with some fuel is read in the same way with more, where the text
goes on. -/
structure Extends (fuel : Nat) : Prop where
  value : ∀ {text value rest}, value? fuel text = some (value, rest) → IsClosed value rest →
    ∀ {fuel'}, fuel ≤ fuel' → ∀ more, value? fuel' (text ++ more) = some (value, rest ++ more)
  items : ∀ {text items rest}, items? fuel text = some (items, rest) →
    ∀ {fuel'}, fuel ≤ fuel' → ∀ more, items? fuel' (text ++ more) = some (items, rest ++ more)
  members : ∀ {text members rest}, members? fuel text = some (members, rest) →
    ∀ {fuel'}, fuel ≤ fuel' → ∀ more, members? fuel' (text ++ more) = some (members, rest ++ more)

variable {fuel : Nat}

theorem Extends.items_succ (h : Extends fuel) {items : List Value}
    (hitems : items? (fuel + 1) text = some (items, rest)) (more : List Char) {fuel' : Nat}
    (hfuel : fuel ≤ fuel') : items? (fuel' + 1) (text ++ more) = some (items, rest ++ more) := by
  rw [items?] at hitems ⊢
  cases hvalue : value? fuel text with
  | none => simp [hvalue] at hitems
  | some read =>
      obtain ⟨item, after⟩ := read
      simp only [hvalue] at hitems
      -- Something stands behind the item, so it is read to its end.
      have hclosed : IsClosed item after := by
        rintro _ _ rfl
        cases hitems
      simp only [h.value hvalue hclosed hfuel more]
      split at hitems
      · next hend =>
          obtain ⟨rfl, rfl⟩ := Prod.mk.inj (Option.some.inj hitems)
          simp only [skipSpace_append hend]
      · next hend =>
          obtain ⟨⟨others, last⟩, hothers, hread⟩ := Option.map_eq_some_iff.mp hitems
          obtain ⟨rfl, rfl⟩ := Prod.mk.inj hread
          simp only [skipSpace_append hend, h.items hothers hfuel more]
          rfl
      · cases hitems

theorem Extends.members_succ (h : Extends fuel) {members : List (Option String × Value)}
    (hmembers : members? (fuel + 1) text = some (members, rest)) (more : List Char) {fuel' : Nat}
    (hfuel : fuel ≤ fuel') :
    members? (fuel' + 1) (text ++ more) = some (members, rest ++ more) := by
  rw [members?] at hmembers ⊢
  split at hmembers
  · next quoted hquoted =>
      simp only [skipSpace_append hquoted]
      cases hkey : string? quoted with
      | none => simp [hkey] at hmembers
      | some read =>
          obtain ⟨key, afterKey⟩ := read
          simp only [hkey] at hmembers
          simp only [string?_append hkey]
          split at hmembers
          · next behind hcolon =>
              simp only [skipSpace_append hcolon]
              cases hvalue : value? fuel behind with
              | none => simp [hvalue] at hmembers
              | some read =>
                  obtain ⟨value, after⟩ := read
                  simp only [hvalue] at hmembers
                  have hclosed : IsClosed value after := by
                    rintro _ _ rfl
                    cases hmembers
                  simp only [h.value hvalue hclosed hfuel more]
                  split at hmembers
                  · next hend =>
                      obtain ⟨rfl, rfl⟩ := Prod.mk.inj (Option.some.inj hmembers)
                      simp only [skipSpace_append hend]
                  · next hend =>
                      obtain ⟨⟨others, last⟩, hothers, hread⟩ := Option.map_eq_some_iff.mp hmembers
                      obtain ⟨rfl, rfl⟩ := Prod.mk.inj hread
                      simp only [skipSpace_append hend, h.members hothers hfuel more]
                      rfl
                  · cases hmembers
          · cases hmembers
  · cases hmembers

/-- What a value starts with that is no number. -/
def valueMarks : List Char := ['n', 't', 'f', '"', '[', '\x7b']

/-- What starts with nothing else is read as a number. -/
theorem value?_number {c : Char} {after : List Char} (h : skipSpace text = c :: after)
    (hc : c ∉ valueMarks) : value? (fuel + 1) text =
      (number? (c :: after)).map fun read => (.number (String.ofList read.1), read.2) := by
  simp only [valueMarks, List.mem_cons, List.not_mem_nil, or_false, not_or] at hc
  rw [value?, h]
  split <;> simp_all

theorem skipSpace_ne_nil_of_items? {items : List Value}
    (h : items? fuel text = some (items, rest)) : skipSpace text ≠ [] := by
  intro hnil
  cases fuel with
  | zero => simp [items?] at h
  | succ fuel =>
      have hvalue : value? fuel text = none := by
        cases fuel with
        | zero => rw [value?]
        | succ fuel => rw [value?, hnil]
      rw [items?, hvalue] at h
      cases h

theorem skipSpace_ne_nil_of_members? {members : List (Option String × Value)}
    (h : members? fuel text = some (members, rest)) : skipSpace text ≠ [] := by
  intro hnil
  cases fuel with
  | zero => simp [members?] at h
  | succ fuel =>
      rw [members?, hnil] at h
      cases h

/-- A value in front of other text is read behind the same blanks. -/
theorem value?_append {c : Char} {after : List Char} (h : skipSpace text = c :: after) (fuel : Nat)
    (more : List Char) : value? fuel (text ++ more) = value? fuel (c :: (after ++ more)) := by
  refine value?_congr fuel ?_
  rw [skipSpace_append h, skipSpace_cons (isSpace_of_skipSpace h)]

theorem Extends.array_succ (h : Extends fuel) {value : Value} {inside : List Char}
    (hfront : skipSpace text = '[' :: inside)
    (hvalue : value? (fuel + 1) text = some (value, rest)) (more : List Char) {fuel' : Nat}
    (hfuel : fuel ≤ fuel') : value? (fuel' + 1) (text ++ more) = some (value, rest ++ more) := by
  rw [value?] at hvalue
  simp only [hfront] at hvalue
  split at hvalue
  · next hend =>
      obtain ⟨rfl, rfl⟩ := Prod.mk.inj (Option.some.inj hvalue)
      rw [value?, skipSpace_append hfront]
      simp only [skipSpace_append hend]
  · next hsome =>
      obtain ⟨⟨items, after⟩, hitems, hread⟩ := Option.map_eq_some_iff.mp hvalue
      obtain ⟨rfl, rfl⟩ := Prod.mk.inj hread
      obtain ⟨c, others, hinside⟩ := List.exists_cons_of_ne_nil (skipSpace_ne_nil_of_items? hitems)
      have hc : c ≠ ']' := fun hc => hsome others (hc ▸ hinside)
      rw [value?_append hfront, value?_bracket fuel' (skipSpace_append hinside more) hc,
        h.items hitems hfuel more]
      rfl

theorem Extends.object_succ (h : Extends fuel) {value : Value} {inside : List Char}
    (hfront : skipSpace text = '\x7b' :: inside)
    (hvalue : value? (fuel + 1) text = some (value, rest)) (more : List Char) {fuel' : Nat}
    (hfuel : fuel ≤ fuel') : value? (fuel' + 1) (text ++ more) = some (value, rest ++ more) := by
  rw [value?] at hvalue
  simp only [hfront] at hvalue
  split at hvalue
  · next hend =>
      obtain ⟨rfl, rfl⟩ := Prod.mk.inj (Option.some.inj hvalue)
      rw [value?, skipSpace_append hfront]
      simp only [skipSpace_append hend]
  · next hsome =>
      obtain ⟨⟨members, after⟩, hmembers, hread⟩ := Option.map_eq_some_iff.mp hvalue
      obtain ⟨rfl, rfl⟩ := Prod.mk.inj hread
      obtain ⟨c, others, hinside⟩ :=
        List.exists_cons_of_ne_nil (skipSpace_ne_nil_of_members? hmembers)
      have hc : c ≠ '\x7d' := fun hc => hsome others (hc ▸ hinside)
      rw [value?_append hfront, value?_brace fuel' (skipSpace_append hinside more) hc,
        h.members hmembers hfuel more]
      rfl

theorem Extends.value_succ (h : Extends fuel) {value : Value}
    (hvalue : value? (fuel + 1) text = some (value, rest)) (hclosed : IsClosed value rest)
    (more : List Char) {fuel' : Nat} (hfuel : fuel ≤ fuel') :
    value? (fuel' + 1) (text ++ more) = some (value, rest ++ more) := by
  have hwhole := hvalue
  rw [value?] at hvalue
  split at hvalue
  · cases hvalue
  · next hfront =>
      rw [value?, skipSpace_append hfront]
      exact map_word?_append hvalue more
  · next hfront =>
      rw [value?, skipSpace_append hfront]
      exact map_word?_append hvalue more
  · next hfront =>
      rw [value?, skipSpace_append hfront]
      exact map_word?_append hvalue more
  · next hfront =>
      obtain ⟨⟨content, after⟩, hstring, hread⟩ := Option.map_eq_some_iff.mp hvalue
      obtain ⟨rfl, rfl⟩ := Prod.mk.inj hread
      rw [value?, skipSpace_append hfront]
      simp only [string?_append hstring more, Option.map_some]
  · next hfront => exact h.array_succ hfront hwhole more hfuel
  · next hfront => exact h.object_succ hfront hwhole more hfuel
  · next hnil hn ht hf hquote hbracket hbrace =>
      obtain ⟨⟨literal, after⟩, hnumber, hread⟩ := Option.map_eq_some_iff.mp hvalue
      obtain ⟨rfl, rfl⟩ := Prod.mk.inj hread
      obtain ⟨c, others, hfront⟩ := List.exists_cons_of_ne_nil hnil
      have hc : c ∉ valueMarks := by
        intro hmem
        simp only [valueMarks, List.mem_cons, List.not_mem_nil, or_false] at hmem
        rcases hmem with rfl | rfl | rfl | rfl | rfl | rfl
        · exact hn others hfront
        · exact ht others hfront
        · exact hf others hfront
        · exact hquote others hfront
        · exact hbracket others hfront
        · exact hbrace others hfront
      rw [hfront] at hnumber
      have hmore := local_number?.append _ literal after hnumber (hclosed _ rfl) more
      rw [value?_number (skipSpace_append hfront more) hc, ← List.cons_append, hmore]
      rfl

/-- **Reading does not depend on what stands behind.**  What is read of a text is read of every text
that goes on from there, unless it is a number that has not ended yet. -/
theorem extends_all (fuel : Nat) : Extends fuel := by
  induction fuel with
  | zero =>
      refine ⟨fun h => ?_, fun h => ?_, fun h => ?_⟩
      · simp [value?] at h
      · simp [items?] at h
      · simp [members?] at h
  | succ fuel ih =>
      have hsucc : ∀ {fuel'}, fuel + 1 ≤ fuel' → ∃ n, fuel' = n + 1 ∧ fuel ≤ n := fun {fuel'} h =>
        ⟨fuel' - 1, by omega, by omega⟩
      refine ⟨fun h hclosed _ hfuel more => ?_, fun h _ hfuel more => ?_, fun h _ hfuel more => ?_⟩
      · obtain ⟨n, rfl, hn⟩ := hsucc hfuel
        exact ih.value_succ h hclosed more hn
      · obtain ⟨n, rfl, hn⟩ := hsucc hfuel
        exact ih.items_succ h more hn
      · obtain ⟨n, rfl, hn⟩ := hsucc hfuel
        exact ih.members_succ h more hn

/-- The front of the written form of a value holds no value but a number, unless it is all of it. -/
theorem eq_nil_of_parse? {front : List Char} {written value : Value} (hwritten : Readable written)
    (htext : (pretty written).toList = front ++ more) (hvalue : parse? front = some value)
    (hnumber : ∀ literal, value ≠ .number literal) : more = [] := by
  unfold parse? at hvalue
  split at hvalue
  · next read rest hread =>
      have hread' : value? (front.length + 1) front = some (value, rest) := by
        split at hvalue
        · rw [hread, Option.some.inj hvalue]
        · cases hvalue
      have hclosed : IsClosed value rest := fun literal hliteral =>
        absurd hliteral (hnumber literal)
      have hlength : front.length + 1 ≤ (front ++ more).length + 1 := by simp
      have hextended := (extends_all _).value hread' hclosed hlength more
      rw [pretty, String.toList_ofList] at htext
      have hwhole := hwritten.reads 0 ((front ++ more).length + 1) [] (by rw [htext]; omega)
      rw [List.append_nil, htext, hextended] at hwhole
      have hrest : rest ++ more = [] := (Prod.mk.inj (Option.some.inj hwhole)).2
      exact (List.append_eq_nil_iff.mp hrest).2
  · cases hvalue

end Enclave.Json
