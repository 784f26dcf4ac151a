import Enclave.Decimal.Fixed

/-! # Sizes

A number of bytes is shown in the greatest unit of which it makes up at least one. -/

namespace Enclave.Size

/-- The number of bytes in a kilobyte, and of kilobytes in a megabyte. -/
def step : Nat := 1024

/-- A number of bytes in a unit that fits. -/
def text (bytes : Nat) : String :=
  if bytes < step then s!"{bytes} B"
  else if bytes < Nat.pow step 2 then Decimal.fixed 1 bytes step ++ " KB"
  else if bytes < Nat.pow step 3 then Decimal.fixed 1 bytes (Nat.pow step 2) ++ " MB"
  else Decimal.fixed 2 bytes (Nat.pow step 3) ++ " GB"

end Enclave.Size
