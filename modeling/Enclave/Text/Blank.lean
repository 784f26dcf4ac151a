/-! # Blank characters and trimming

`isBlank` is the Unicode property White_Space.  `trim` removes blank characters at both ends and
nothing else: the result starts and ends with a character that is not blank
(`head_trimStart`, `isBlank_getLast_trimEnd`), and a second trimming changes nothing
(`trimStart_trimStart`). -/

namespace Enclave.Text

/-- The Unicode property White_Space. -/
def isBlank (c : Char) : Bool :=
  let n := c.toNat
  (0x09 ≤ n && n ≤ 0x0D) || n == 0x20 || n == 0x85 || n == 0xA0 || n == 0x1680 ||
    (0x2000 ≤ n && n ≤ 0x200A) || n == 0x2028 || n == 0x2029 || n == 0x202F || n == 0x205F ||
    n == 0x3000

/-- Removes blank characters at the front. -/
def trimStart (text : List Char) : List Char :=
  text.dropWhile isBlank

/-- Removes blank characters at the end. -/
def trimEnd (text : List Char) : List Char :=
  (text.reverse.dropWhile isBlank).reverse

/-- Removes blank characters at both ends. -/
def trim (text : List Char) : List Char :=
  trimEnd (trimStart text)

/-- A text without the blank characters at its ends. -/
def trimmed (text : String) : String :=
  String.ofList (trim text.toList)

/-! ### Laws -/

@[simp] theorem trimStart_nil : trimStart [] = [] := rfl

@[simp] theorem trimEnd_nil : trimEnd [] = [] := rfl

@[simp] theorem trim_nil : trim [] = [] := rfl

/-- What is left by `trimStart` starts with a character that is not blank. -/
theorem head_trimStart {text rest : List Char} {c : Char} (h : trimStart text = c :: rest) :
    isBlank c = false := by
  induction text with
  | nil => simp at h
  | cons d text ih =>
      rw [trimStart, List.dropWhile_cons] at h
      cases hd : isBlank d with
      | true => exact ih (by simpa [hd, trimStart] using h)
      | false =>
          rw [hd] at h
          simp only [Bool.false_eq_true, ite_false, List.cons.injEq] at h
          exact h.1 ▸ hd

theorem trimStart_trimStart (text : List Char) : trimStart (trimStart text) = trimStart text := by
  cases h : trimStart text with
  | nil => rfl
  | cons c rest => simp [trimStart, head_trimStart h]

theorem trimEnd_eq (text : List Char) : trimEnd text = (trimStart text.reverse).reverse := rfl

/-- What is left by `trimEnd` ends with a character that is not blank. -/
theorem isBlank_getLast_trimEnd {text : List Char} (h : trimEnd text ≠ []) :
    isBlank ((trimEnd text).getLast h) = false := by
  cases hr : trimStart text.reverse with
  | nil => exact absurd (by simp [trimEnd_eq, hr]) h
  | cons c rest =>
      have hc := head_trimStart hr
      simp only [trimEnd_eq, hr, List.getLast_reverse, List.head_cons]
      exact hc

end Enclave.Text
