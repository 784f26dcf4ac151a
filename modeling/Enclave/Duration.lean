import Enclave.Decimal.Shortest

/-! # Lengths of time

A duration is a whole number of nanoseconds.  Messages show whole seconds, whole milliseconds or
the seconds as a floating-point number. -/

namespace Enclave

/-- A length of time in nanoseconds. -/
structure Duration where
  nanos : Nat
deriving Repr, DecidableEq, Inhabited

namespace Duration

/-- No time. -/
def zero : Duration := ⟨0⟩

/-- A number of seconds. -/
def ofSeconds (n : Nat) : Duration := ⟨n * 1000000000⟩

/-- A number of milliseconds. -/
def ofMillis (n : Nat) : Duration := ⟨n * 1000000⟩

/-- The whole seconds. -/
def seconds (d : Duration) : Nat := d.nanos / 1000000000

/-- The whole milliseconds. -/
def millis (d : Duration) : Nat := d.nanos / 1000000

/-- The time left of `d` after `spent`, which is none once `spent` reaches `d`. -/
def remainder (d spent : Duration) : Duration := ⟨d.nanos - spent.nanos⟩

/-- Both durations one after the other. -/
def add (a b : Duration) : Duration := ⟨a.nanos + b.nanos⟩

/-- The shorter of two durations. -/
def shorter (a b : Duration) : Duration := if a.nanos ≤ b.nanos then a else b

/-- Whether no time is left. -/
def isZero (d : Duration) : Bool := d.nanos == 0

/-- Whether `a` is at least as long as `b`. -/
def reaches (a b : Duration) : Bool := b.nanos ≤ a.nanos

/-- The seconds as a floating-point number: the whole seconds and the rest are rounded, then their
sum is. -/
def fractionalSeconds (d : Duration) : Decimal.Binary64 :=
  .add (.ofRatio d.seconds 1) (.ofRatio (d.nanos % 1000000000) 1000000000)

end Duration
end Enclave
