/-! # Environment names

A name becomes a directory below the environment root, so it must be a plain token.  `Name.check`
tests the length, the characters and the reserved device names in this order and reports the first
failure; `check_eq_none_iff` says which names pass. -/

namespace Enclave

/-- Why a text is not an environment name. -/
inductive NameError
  | empty
  | tooLong
  | reserved (name : String)
  | invalidCharacters (name : String)
deriving DecidableEq, Repr

/-- The wording of a name error. -/
def NameError.message : NameError → String
  | .empty => "name is empty"
  | .tooLong => "name is longer than 128 characters"
  | .reserved name => s!"name '{name}' is reserved"
  | .invalidCharacters name =>
      s!"name '{name}' must start with a letter or digit and contain only letters, digits, " ++
        "'.', '_' or '-'"

namespace Name

/-- The greatest length of a name in bytes. -/
def maxLength : Nat := 128

/-- A character that may stand at the front of a name: an ASCII letter or digit. -/
def isStart (c : Char) : Bool :=
  c.isAlphanum

/-- A character that may stand in a name. -/
def isInner (c : Char) : Bool :=
  isStart c || c == '.' || c == '_' || c == '-'

/-- A nonempty sequence of name characters with an admissible front. -/
def isToken : List Char → Bool
  | [] => false
  | c :: rest => isStart c && rest.all isInner

/-- The part of a name before its first dot. -/
def stem (name : List Char) : List Char :=
  name.takeWhile (· != '.')

/-- The device names that consist of letters only. -/
def plainDevices : List (List Char) :=
  ["CON".toList, "PRN".toList, "AUX".toList, "NUL".toList]

/-- Whether a stem in capitals is the name of a device. -/
def isDevice (stem : List Char) : Bool :=
  plainDevices.contains stem ||
    match stem with
    | ['C', 'O', 'M', d] => d.isDigit
    | ['L', 'P', 'T', d] => d.isDigit
    | _ => false

/-- Whether a name is the name of a device, whatever follows its first dot. -/
def isReserved (name : List Char) : Bool :=
  isDevice ((stem name).map Char.toUpper)

/-- What is wrong with a name, or `none` for a usable one. -/
def check (name : String) : Option NameError :=
  if name.toList = [] then some .empty
  else if maxLength < name.utf8ByteSize then some .tooLong
  else if !isToken name.toList then some (.invalidCharacters name)
  else if isReserved name.toList then some (.reserved name)
  else none

/-- The names that pass. -/
theorem check_eq_none_iff {name : String} :
    check name = none ↔
      name.utf8ByteSize ≤ maxLength ∧ isToken name.toList = true ∧
        isReserved name.toList = false := by
  unfold check
  constructor
  · intro h
    split at h
    · simp at h
    · split at h
      · simp at h
      · split at h
        · simp at h
        · split at h
          · simp at h
          · next _ hl ht hr => exact ⟨by omega, by simpa using ht, by simpa using hr⟩
  · rintro ⟨hl, ht, hr⟩
    have hne : name.toList ≠ [] := by
      intro e
      rw [e] at ht
      simp [isToken] at ht
    rw [if_neg hne, if_neg (by omega), ht, hr]
    rfl

end Name
end Enclave
