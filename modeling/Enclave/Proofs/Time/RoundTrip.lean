import Enclave.Time.Stamp
import Mathlib.Algebra.Group.Nat.Defs

/-! # Reading time stamps

Numbers that are written with leading zeros are read as the same numbers (`digitsValue_padded`), and
so the text of a point in time is read as that point (`parse?_text`): leap seconds, all fractions and
years of any sign and size included. -/

namespace Enclave.Instant

open Text Decimal

/-! ### Numbers -/

theorem toList_padded (width n : Nat) :
    (padded width n).toList =
      List.replicate (width - (Nat.toDigits 10 n).length) '0' ++ Nat.toDigits 10 n := by
  rw [padded, String.toList_ofList]

theorem digitsValue_padded (width n : Nat) : digitsValue (padded width n).toList = n := by
  have hvalue : ∀ digits, digitsValue digits = Nat.ofDigitChars 10 digits 0 := fun _ => rfl
  rw [hvalue, toList_padded, Nat.ofDigitChars_append, Nat.ofDigitChars_replicate_zero,
    Nat.mul_zero, Nat.ofDigitChars_ten_toDigits]

theorem isDigit_padded {width n : Nat} {c : Char} (h : c ∈ (padded width n).toList) :
    c.isDigit = true := by
  rw [toList_padded, List.mem_append] at h
  rcases h with h | h
  · rw [List.eq_of_mem_replicate h]
    rfl
  · exact Nat.isDigit_of_mem_toDigits (by decide) (by decide) h

theorem padded_ne_nil (width n : Nat) : (padded width n).toList ≠ [] := by
  rw [toList_padded]
  exact List.append_ne_nil_of_right_ne_nil _ Nat.toDigits_ne_nil

theorem length_padded {width n : Nat} (hwidth : 0 < width) (h : n < 10 ^ width) :
    (padded width n).toList.length = width := by
  have hlength := (Nat.length_toDigits_le_iff (by decide) hwidth).mpr h
  rw [toList_padded, List.length_append, List.length_replicate]
  omega

theorem isBlank_of_isDigit {c : Char} (h : c.isDigit = true) : isBlank c = false := by
  have hc : c.val.toNat = c.toNat := rfl
  simp only [Char.isDigit, Bool.and_eq_true, decide_eq_true_eq, ge_iff_le,
    UInt32.le_iff_toNat_le, Char.reduceVal, UInt32.reduceToNat] at h
  simp only [isBlank, Bool.or_eq_false_iff, Bool.and_eq_false_iff, decide_eq_false_iff_not,
    beq_eq_false_iff_ne]
  omega

theorem trimStart_cons {c : Char} (h : isBlank c = false) (rest : List Char) :
    trimStart (c :: rest) = c :: rest :=
  List.dropWhile_cons_of_neg (by simp [h])

theorem trimStart_padded (width n : Nat) (rest : List Char) :
    trimStart ((padded width n).toList ++ rest) = (padded width n).toList ++ rest := by
  obtain ⟨c, digits, hdigits⟩ := List.exists_cons_of_ne_nil (padded_ne_nil width n)
  have hc : c.isDigit = true := isDigit_padded (hdigits ▸ List.mem_cons_self)
  rw [hdigits, List.cons_append, trimStart_cons (isBlank_of_isDigit hc)]

/-- Digits are split off up to the greatest number of digits or up to the next character that is
none. -/
theorem digits?_append {most : Nat} {digits rest : List Char} (hall : ∀ c ∈ digits, c.isDigit = true)
    (hne : digits ≠ []) (hmost : digits.length ≤ most)
    (hend : digits.length = most ∨ ∀ c ∈ rest.head?, c.isDigit = false) :
    digits? most (digits ++ rest) = some (digits, rest) := by
  have htake : ((digits ++ rest).take most).takeWhile Char.isDigit = digits := by
    rw [List.take_append, List.take_of_length_le hmost, List.takeWhile_append_of_pos hall]
    rcases hend with hlength | hhead
    · rw [hlength, Nat.sub_self, List.take_zero, List.takeWhile_nil, List.append_nil]
    · cases rest with
      | nil => simp
      | cons c rest =>
          have hc := hhead c (by simp)
          cases most - digits.length with
          | zero => simp
          | succ n => simp [hc]
  rw [digits?]
  simp only [htake, if_neg hne, List.drop_left]

theorem digits?_padded {width n most : Nat} {rest : List Char}
    (hmost : (padded width n).toList.length ≤ most)
    (hend : (padded width n).toList.length = most ∨ ∀ c ∈ rest.head?, c.isDigit = false) :
    digits? most ((padded width n).toList ++ rest) = some ((padded width n).toList, rest) :=
  digits?_append (fun _ => isDigit_padded) (padded_ne_nil width n) hmost hend

/-- A number of two digits is read as it was written. -/
theorem number?_padded {n : Nat} (h : n < 100) (rest : List Char) :
    number? ((padded 2 n).toList ++ rest) = some (n, rest) := by
  have hlength := length_padded (by decide : 0 < 2) h
  rw [number?, trimStart_padded, digits?_padded (Nat.le_of_eq hlength) (Or.inl hlength)]
  simp only [Option.map_some, digitsValue_padded]

theorem mark?_cons {mark : Char} (h : isBlank mark = false) (rest : List Char) :
    mark? mark (mark :: rest) = some rest := by
  rw [mark?, trimStart_cons h]
  simp

/-! ### Dates -/

theorem year?_yearText (year : Int) (rest : List Char) :
    year? ((yearText year).toList ++ '-' :: rest) = some (year, '-' :: rest) := by
  have hdash : ∀ c ∈ ('-' :: rest).head?, c.isDigit = false := by
    rintro c hc
    obtain rfl := Option.mem_some.mp hc
    rfl
  have hlong : ∀ n : Nat, digits? ((padded 4 n).toList ++ '-' :: rest).length
      ((padded 4 n).toList ++ '-' :: rest) = some ((padded 4 n).toList, '-' :: rest) :=
    fun n => digits?_padded (by simp) (Or.inr hdash)
  rw [yearText]
  split
  · next h =>
      have hlength : (padded 4 year.toNat).toList.length = 4 :=
        length_padded (by decide) (by omega)
      have hread : digits? 4 ((padded 4 year.toNat).toList ++ '-' :: rest) =
          some ((padded 4 year.toNat).toList, '-' :: rest) :=
        digits?_padded (Nat.le_of_eq hlength) (Or.inl hlength)
      have hyear : (year.toNat : Int) = year := Int.toNat_of_nonneg h.1
      obtain ⟨c, digits, hdigits⟩ := List.exists_cons_of_ne_nil (padded_ne_nil 4 year.toNat)
      have hc : c.isDigit = true := isDigit_padded (hdigits ▸ List.mem_cons_self)
      rw [year?, trimStart_padded]
      split
      · next heq =>
          rw [hdigits] at heq
          rw [(List.cons.inj heq).1] at hc
          cases hc
      · next heq =>
          rw [hdigits] at heq
          rw [(List.cons.inj heq).1] at hc
          cases hc
      · rw [hread]
        simp only [Option.map_some, digitsValue_padded, hyear]
  split
  · next h =>
      have hyear : (year.toNat : Int) = year := Int.toNat_of_nonneg h
      have hread : year? ('+' :: ((padded 4 year.toNat).toList ++ '-' :: rest)) =
          some (year, '-' :: rest) := by
        rw [year?, trimStart_cons (by decide)]
        simp only [hlong, Option.map_some, digitsValue_padded, hyear]
      rw [String.toList_append, List.append_assoc]
      exact hread
  · next h _ =>
      have hyear : -((-year).toNat : Int) = year := by omega
      have hread : year? ('-' :: ((padded 4 (-year).toNat).toList ++ '-' :: rest)) =
          some (year, '-' :: rest) := by
        rw [year?, trimStart_cons (by decide)]
        simp only [hlong, Option.map_some, digitsValue_padded, hyear]
      rw [String.toList_append, List.append_assoc]
      exact hread

theorem date?_dateText (date : Date) (rest : List Char) :
    date? ((dateText date).toList ++ rest) = some (date, rest) := by
  obtain ⟨_, ⟨_, hmonth⟩, _, hday⟩ := date.isDate
  have hdays : Date.daysIn date.year date.month ≤ 31 := by
    rw [Date.daysIn]
    split
    · split <;> decide
    · split <;> decide
  have hform : (dateText date).toList ++ rest = (yearText date.year).toList ++
      '-' :: ((padded 2 date.month).toList ++ '-' :: ((padded 2 date.day).toList ++ rest)) := by
    simp [dateText]
  have hparts : Date.ofParts? date.year date.month date.day = some date :=
    Date.ofParts?_eq_some_iff.mpr ⟨rfl, rfl, rfl⟩
  simp [date?, hform, year?_yearText, mark?_cons (show isBlank '-' = false by decide),
    number?_padded (show date.month < 100 by omega), number?_padded (show date.day < 100 by omega),
    hparts]

/-! ### Times of day -/

theorem fraction?_fractionText {nano : Nat} (h : nano < secondNanos) (rest : List Char) :
    fraction? ((fractionText nano).toList ++ 'Z' :: rest) = some (nano, 'Z' :: rest) := by
  have hnanos : secondNanos = 1000000000 := rfl
  have hpoint : ∀ {places n : Nat}, 0 < places → places ≤ 9 → n < 10 ^ places →
      fraction? ('.' :: ((padded places n).toList ++ 'Z' :: rest)) =
        some (n * 10 ^ (9 - places), 'Z' :: rest) := by
    intro places n hpos hplaces hn
    have hlength := length_padded hpos hn
    have hread : digits? 9 ((padded places n).toList ++ 'Z' :: rest) =
        some ((padded places n).toList, 'Z' :: rest) :=
      digits?_padded (by omega) (Or.inr (by simp))
    simp only [fraction?, hread, Option.map_some, digitsValue_padded, hlength]
    rfl
  rw [fractionText]
  split
  · next hzero =>
      rw [hzero]
      rfl
  split
  · next hmillis =>
      rw [String.toList_append, List.append_assoc]
      refine (hpoint (by decide) (by decide) (by omega)).trans ?_
      have hscale : 10 ^ (9 - 3) = 1000000 := rfl
      rw [hscale, Nat.div_mul_cancel (Nat.dvd_of_mod_eq_zero hmillis)]
  split
  · next hmicros =>
      rw [String.toList_append, List.append_assoc]
      refine (hpoint (by decide) (by decide) (by omega)).trans ?_
      have hscale : 10 ^ (9 - 6) = 1000 := rfl
      rw [hscale, Nat.div_mul_cancel (Nat.dvd_of_mod_eq_zero hmicros)]
  · rw [String.toList_append, List.append_assoc]
    refine (hpoint (by decide) (by decide) (by omega)).trans ?_
    rw [Nat.sub_self, Nat.pow_zero, Nat.mul_one]

theorem timeOfDay?_parts {second nano : Nat} (h : Exists second nano) :
    timeOfDay? (second / 3600) (second / 60 % 60) (second % 60 + nano / secondNanos)
      (nano % secondNanos) = some (second, nano) := by
  obtain ⟨hday, hnano⟩ := h
  have hdays : daySeconds = 86400 := rfl
  have hnanos : secondNanos = 1000000000 := rfl
  rw [hdays] at hday
  rw [hnanos] at hnano
  rw [timeOfDay?, hnanos, if_neg (by omega)]
  split
  · rw [Option.some.injEq, Prod.mk.injEq]
    omega
  · rw [Option.some.injEq, Prod.mk.injEq]
    omega

theorem time?_parts {second nano : Nat} (h : Exists second nano) (rest : List Char) :
    time? ((padded 2 (second / 3600)).toList ++ ':' :: ((padded 2 (second / 60 % 60)).toList ++
      ':' :: ((padded 2 (second % 60 + nano / secondNanos)).toList ++
        ((fractionText (nano % secondNanos)).toList ++ 'Z' :: rest)))) =
      some ((second, nano), 'Z' :: rest) := by
  have hparts := timeOfDay?_parts h
  obtain ⟨hday, hnano⟩ := h
  have hdays : daySeconds = 86400 := rfl
  have hnanos : secondNanos = 1000000000 := rfl
  have hfraction : nano % secondNanos < secondNanos := Nat.mod_lt _ (by decide)
  have hshown : second % 60 + nano / secondNanos < 100 := by
    rw [hnanos] at hnano ⊢
    omega
  simp [time?, mark?_cons (show isBlank ':' = false by decide),
    number?_padded (show second / 3600 < 100 by omega),
    number?_padded (show second / 60 % 60 < 100 by omega),
    number?_padded hshown,
    fraction?_fractionText hfraction, hparts]

/-- The text of a point in time is read as that point. -/
theorem parse?_text (instant : Instant) : parse? instant.text = some instant := by
  have hform : instant.text.toList = (dateText instant.date).toList ++ 'T' ::
      ((padded 2 (instant.second / 3600)).toList ++
        ':' :: ((padded 2 (instant.second / 60 % 60)).toList ++
          ':' :: ((padded 2 (instant.second % 60 + instant.nano / secondNanos)).toList ++
            ((fractionText (instant.nano % secondNanos)).toList ++ ['Z'])))) := by
    simp [text, clockText, shownSecond]
  have hoffset : offset? (trimStart ['Z']) = some (0, []) := by decide
  simp [parse?, hform, date?_dateText, divider?, time?_parts instant.isTime, hoffset,
    ofLocal?_zero]

end Enclave.Instant
