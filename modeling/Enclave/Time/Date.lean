/-! # Calendar dates

A date of the Gregorian calendar, extended to all years in a fixed range.  Only dates that exist are
values of the type; `next?` and `previous?` leave it only at the ends of the range. -/

namespace Enclave

/-- The first year of a date. -/
def Date.firstYear : Int := -262143

/-- The last year of a date. -/
def Date.lastYear : Int := 262142

/-- Whether a year has a 29th of February. -/
def Date.isLeapYear (year : Int) : Bool :=
  year % 4 == 0 && year % 100 != 0 || year % 400 == 0

/-- The number of days of a month. -/
def Date.daysIn (year : Int) (month : Nat) : Nat :=
  if month = 2 then if Date.isLeapYear year then 29 else 28
  else if month = 4 ∨ month = 6 ∨ month = 9 ∨ month = 11 then 30
  else 31

/-- Whether year, month and day make a date. -/
def Date.Exists (year : Int) (month day : Nat) : Prop :=
  (Date.firstYear ≤ year ∧ year ≤ Date.lastYear) ∧ (1 ≤ month ∧ month ≤ 12) ∧
    1 ≤ day ∧ day ≤ Date.daysIn year month

instance (year : Int) (month day : Nat) : Decidable (Date.Exists year month day) := by
  unfold Date.Exists
  infer_instance

/-- A date that exists. -/
structure Date where
  year : Int
  month : Nat
  day : Nat
  isDate : Date.Exists year month day
deriving DecidableEq

namespace Date

/-- The date with the given parts, if it exists. -/
def ofParts? (year : Int) (month day : Nat) : Option Date :=
  if h : Exists year month day then some ⟨year, month, day, h⟩ else none

/-- The date one day later. -/
def next? (date : Date) : Option Date :=
  if date.day < daysIn date.year date.month then ofParts? date.year date.month (date.day + 1)
  else if date.month < 12 then ofParts? date.year (date.month + 1) 1
  else ofParts? (date.year + 1) 1 1

/-- The date one day earlier. -/
def previous? (date : Date) : Option Date :=
  if 1 < date.day then ofParts? date.year date.month (date.day - 1)
  else if 1 < date.month then
    ofParts? date.year (date.month - 1) (daysIn date.year (date.month - 1))
  else ofParts? (date.year - 1) 12 31

/-- The parts of a date are the parts of that date and of no other. -/
theorem ofParts?_eq_some_iff {year : Int} {month day : Nat} {date : Date} :
    ofParts? year month day = some date ↔
      date.year = year ∧ date.month = month ∧ date.day = day := by
  unfold ofParts?
  constructor
  · intro h
    split at h
    · cases h; exact ⟨rfl, rfl, rfl⟩
    · cases h
  · rintro ⟨rfl, rfl, rfl⟩
    rw [dif_pos date.isDate]

end Date
end Enclave
