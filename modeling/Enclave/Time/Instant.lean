import Enclave.Time.Date

/-! # Points in time

A point in time is a date, the second of that day and a fraction in nanoseconds, all in universal
time.  A leap second belongs to the second before it, whose fraction then exceeds a whole second; it
can only follow the last second of a minute. -/

namespace Enclave

/-- The number of seconds of a day. -/
def Instant.daySeconds : Nat := 86400

/-- The number of nanoseconds of a second. -/
def Instant.secondNanos : Nat := 1000000000

/-- Whether a second of the day and a fraction make a time of day. -/
def Instant.Exists (second nano : Nat) : Prop :=
  second < Instant.daySeconds ∧
    (nano < Instant.secondNanos ∨ second % 60 = 59 ∧ nano < 2 * Instant.secondNanos)

instance (second nano : Nat) : Decidable (Instant.Exists second nano) := by
  unfold Instant.Exists
  infer_instance

/-- A point in time. -/
structure Instant where
  date : Date
  second : Nat
  nano : Nat
  isTime : Instant.Exists second nano
deriving DecidableEq

/-- The beginning of a date. -/
def Date.start (date : Date) : Instant :=
  ⟨date, 0, 0, by decide⟩

namespace Instant

/-- The beginning of the year 1970. -/
def epoch : Instant := Date.start ⟨1970, 1, 1, by decide⟩

/-- The point in time with the given parts, if there is one. -/
def ofParts? (date : Date) (second nano : Nat) : Option Instant :=
  if h : Exists second nano then some ⟨date, second, nano, h⟩ else none

/-- The point in time at which clocks that are `minutes` ahead of universal time show the given
parts. -/
def ofLocal? (date : Date) (second nano : Nat) (minutes : Int) : Option Instant :=
  let shifted : Int := second - 60 * minutes
  if shifted < 0 then
    date.previous?.bind fun date => ofParts? date (shifted + daySeconds).toNat nano
  else if daySeconds ≤ shifted then
    date.next?.bind fun date => ofParts? date (shifted - daySeconds).toNat nano
  else ofParts? date shifted.toNat nano

/-- Without offset the parts are taken as they are. -/
theorem ofLocal?_zero (instant : Instant) :
    ofLocal? instant.date instant.second instant.nano 0 = some instant := by
  have h := instant.isTime.1
  unfold ofLocal?
  dsimp only
  rw [if_neg (by omega), if_neg (by simp only [daySeconds] at *; omega)]
  have e : ((instant.second : Int) - 60 * 0).toNat = instant.second := by omega
  rw [e, ofParts?, dif_pos instant.isTime]

end Instant
end Enclave
