/-! # Bytes and their reading as UTF-8

Paths, values of environment variables, file contents and the output of child processes are byte
sequences that need not be text.  `decode?` accepts exactly well-formed UTF-8; `decodeLossy` puts
one replacement character for every maximal ill-formed part. -/

namespace Enclave

/-- A sequence of bytes. -/
abbrev Bytes := List UInt8

namespace Bytes

/-- The UTF-8 bytes of a list of characters. -/
def ofChars (text : List Char) : Bytes :=
  text.flatMap String.utf8EncodeChar

/-- The UTF-8 bytes of a text. -/
def ofText (text : String) : Bytes :=
  ofChars text.toList

/-- A byte that continues a character. -/
def isTail (b : UInt8) : Bool :=
  0x80 ≤ b && b ≤ 0xBF

/-- How many bytes follow the first byte of a character, and the range of the first of them.
`none` for a byte that starts no character of several bytes. -/
def tailShape (b : UInt8) : Option (Nat × UInt8 × UInt8) :=
  if 0xC2 ≤ b && b ≤ 0xDF then some (1, 0x80, 0xBF)
  else if b == 0xE0 then some (2, 0xA0, 0xBF)
  else if b == 0xED then some (2, 0x80, 0x9F)
  else if 0xE1 ≤ b && b ≤ 0xEF then some (2, 0x80, 0xBF)
  else if b == 0xF0 then some (3, 0x90, 0xBF)
  else if 0xF1 ≤ b && b ≤ 0xF3 then some (3, 0x80, 0xBF)
  else if b == 0xF4 then some (3, 0x80, 0x8F)
  else none

/-- What stands at the front of a byte sequence: a character, or an ill-formed part, each with the
number of its bytes. -/
inductive Front
  | char (c : Char) (size : Nat)
  | broken (size : Nat)

/-- The six payload bits of a continuation byte. -/
def payload (b : UInt8) : Nat :=
  b.toNat % 0x40

/-- Reads the front of `first :: rest`. -/
def front (first : UInt8) (rest : Bytes) : Front :=
  if first < 0x80 then .char (Char.ofNat first.toNat) 1
  else match tailShape first with
    | none => .broken 1
    | some (count, low, high) =>
        match rest with
        | [] => .broken 1
        | b :: rest =>
            if !(low ≤ b && b ≤ high) then .broken 1
            else if count == 1 then .char (Char.ofNat (first.toNat % 0x20 * 0x40 + payload b)) 2
            else match rest with
              | [] => .broken 2
              | c :: rest =>
                  if !isTail c then .broken 2
                  else if count == 2 then
                    .char (Char.ofNat (first.toNat % 0x10 * 0x1000 + payload b * 0x40 + payload c)) 3
                  else match rest with
                    | [] => .broken 3
                    | d :: _ =>
                        if !isTail d then .broken 3
                        else .char (Char.ofNat (first.toNat % 0x08 * 0x40000 + payload b * 0x1000 +
                          payload c * 0x40 + payload d)) 4

/-- The text of a well-formed byte sequence. -/
def decode? : Bytes → Option (List Char)
  | [] => some []
  | first :: rest =>
      match front first rest with
      | .char c size => (decode? (rest.drop (size - 1))).map (c :: ·)
      | .broken _ => none
termination_by bytes => bytes.length
decreasing_by simp only [List.length_drop, List.length_cons]; omega

/-- The text of a byte sequence, with a replacement character for every ill-formed part. -/
def decodeLossy : Bytes → List Char
  | [] => []
  | first :: rest =>
      match front first rest with
      | .char c size => c :: decodeLossy (rest.drop (size - 1))
      | .broken size => '\uFFFD' :: decodeLossy (rest.drop (size - 1))
termination_by bytes => bytes.length
decreasing_by all_goals simp only [List.length_drop, List.length_cons]; omega

/-- The string of a well-formed byte sequence. -/
def text? (bytes : Bytes) : Option String :=
  (decode? bytes).map String.ofList

/-- The string shown for a byte sequence. -/
def display (bytes : Bytes) : String :=
  String.ofList (decodeLossy bytes)

/-- The lower-case hexadecimal digits of a byte. -/
def hexByte (b : UInt8) : List Char :=
  [Nat.digitChar (b.toNat / 16), Nat.digitChar (b.toNat % 16)]

/-- The lower-case hexadecimal form of a byte sequence. -/
def hex (bytes : Bytes) : String :=
  String.ofList (bytes.flatMap hexByte)

@[simp] theorem ofChars_nil : ofChars [] = [] := rfl

@[simp] theorem ofChars_append (a b : List Char) : ofChars (a ++ b) = ofChars a ++ ofChars b :=
  List.flatMap_append

/-! ### Splitting at a separator -/

/-- The parts between the occurrences of a separator; there is always at least one. -/
def splitOn (separator : UInt8) : Bytes → List Bytes
  | [] => [[]]
  | b :: rest =>
      if b == separator then [] :: splitOn separator rest
      else match splitOn separator rest with
        | [] => [[b]]
        | part :: parts => (b :: part) :: parts

/-- The parts with a separator between neighbours. -/
def joinWith (separator : UInt8) : List Bytes → Bytes
  | [] => []
  | [part] => part
  | part :: parts => part ++ separator :: joinWith separator parts

theorem splitOn_ne_nil (separator : UInt8) (bytes : Bytes) : splitOn separator bytes ≠ [] := by
  cases bytes with
  | nil => simp [splitOn]
  | cons b rest =>
      rw [splitOn]
      split
      · simp
      · split <;> simp

/-- Splitting loses nothing. -/
theorem joinWith_splitOn (separator : UInt8) (bytes : Bytes) :
    joinWith separator (splitOn separator bytes) = bytes := by
  induction bytes with
  | nil => rfl
  | cons b rest ih =>
      rw [splitOn]
      split
      · next h =>
          obtain ⟨part, parts, e⟩ := List.exists_cons_of_ne_nil (splitOn_ne_nil separator rest)
          have hb : b = separator := by simpa using h
          rw [e] at ih ⊢
          simp [joinWith, ih, hb]
      · obtain ⟨part, parts, e⟩ := List.exists_cons_of_ne_nil (splitOn_ne_nil separator rest)
        rw [e] at ih ⊢
        cases parts with
        | nil => simpa [joinWith] using ih
        | cons q qs => simpa [joinWith] using ih

/-- A part without separator in front of a separator is split off as it is. -/
theorem splitOn_append_cons (separator : UInt8) (part rest : Bytes) (h : separator ∉ part) :
    splitOn separator (part ++ separator :: rest) = part :: splitOn separator rest := by
  induction part with
  | nil => simp [splitOn]
  | cons b part ih =>
      have hb : b ≠ separator := fun e => h (e ▸ List.mem_cons_self)
      have hp : separator ∉ part := fun e => h (List.mem_cons_of_mem b e)
      simp [splitOn, ih hp, hb]

theorem splitOn_of_not_mem (separator : UInt8) (part : Bytes) (h : separator ∉ part) :
    splitOn separator part = [part] := by
  induction part with
  | nil => rfl
  | cons b part ih =>
      have hb : b ≠ separator := fun e => h (e ▸ List.mem_cons_self)
      have hp : separator ∉ part := fun e => h (List.mem_cons_of_mem b e)
      simp [splitOn, ih hp, hb]

/-- Parts without separator come back from their joined form. -/
theorem splitOn_joinWith (separator : UInt8) {parts : List Bytes} (hne : parts ≠ [])
    (h : ∀ part ∈ parts, separator ∉ part) :
    splitOn separator (joinWith separator parts) = parts := by
  induction parts with
  | nil => exact absurd rfl hne
  | cons part parts ih =>
      cases parts with
      | nil => simpa [joinWith] using splitOn_of_not_mem separator part (h part List.mem_cons_self)
      | cons q qs =>
          rw [joinWith, splitOn_append_cons _ _ _ (h part List.mem_cons_self),
            ih (by simp) fun p hp => h p (List.mem_cons_of_mem part hp)]
          exact List.cons_ne_nil q qs

end Bytes
end Enclave
