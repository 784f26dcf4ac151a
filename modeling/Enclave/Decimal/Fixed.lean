/-! # Decimal digits of a quotient

Rounding of a quotient of natural numbers to the nearest integer, with ties to the even neighbour,
and the text of a quotient with a fixed number of digits after the point. -/

namespace Enclave.Decimal

/-- The integer nearest to `num / den`; of two equally near ones the even one. -/
def roundDiv (num den : Nat) : Nat :=
  let quotient := num / den
  let remainder := num % den
  if 2 * remainder < den then quotient
  else if den < 2 * remainder then quotient + 1
  else if quotient % 2 == 0 then quotient else quotient + 1

/-- The decimal digits of a number, with leading zeros up to the given width. -/
def padded (width n : Nat) : String :=
  let digits := (Nat.toDigits 10 n)
  String.ofList (List.replicate (width - digits.length) '0' ++ digits)

/-- The text of `num / den` with `places` digits after the point. -/
def fixed (places num den : Nat) : String :=
  let scaled := roundDiv (num * Nat.pow 10 places) den
  s!"{scaled / Nat.pow 10 places}." ++ padded places (scaled % Nat.pow 10 places)

/-- The rounded quotient is at most half a unit away. -/
theorem roundDiv_near (num : Nat) {den : Nat} (h : 0 < den) :
    2 * num ≤ 2 * (roundDiv num den * den) + den ∧
      2 * (roundDiv num den * den) ≤ 2 * num + den := by
  have e : den * (num / den) + num % den = num := Nat.div_add_mod num den
  have hr : num % den < den := Nat.mod_lt num h
  have hc : num / den * den = den * (num / den) := Nat.mul_comm _ _
  have hs : (num / den + 1) * den = den * (num / den) + den := by
    rw [Nat.add_mul, Nat.one_mul, hc]
  unfold roundDiv
  dsimp only
  split
  · omega
  · split
    · omega
    · split <;> omega

end Enclave.Decimal
