import Enclave.Bytes

/-! # Texts as bytes

The bytes of a text are read back as that text (`text?_ofText`), so different texts have different
bytes (`ofText_injective`), and no other bytes are read as a text (`text?_eq_some_iff`).  Characters
below the 128th are one byte each, and no other character has such a byte.  The order of texts is
that of their bytes (`ofText_lt`). -/

namespace Enclave.Bytes

/-! ### Single characters -/

private theorem toNat_ofNat {n : Nat} (h : n < 256) : (UInt8.ofNat n).toNat = n :=
  UInt8.toNat_ofNat_of_lt' h

private theorem not_lt_of_toNat {b : UInt8} (h : 0x80 ≤ b.toNat) : ¬ b < 0x80 := by
  rw [UInt8.lt_iff_toNat_lt]
  exact Nat.not_lt.mpr h

private theorem isTail_of_toNat {b : UInt8} {n : Nat} (h : b.toNat = n % 0x40 + 0x80) :
    isTail b = true := by
  simp only [isTail, Bool.and_eq_true, decide_eq_true_eq, UInt8.le_iff_toNat_le, h,
    UInt8.reduceToNat]
  omega

private theorem payload_of_toNat {b : UInt8} {n : Nat} (h : b.toNat = n % 0x40 + 0x80) :
    payload b = n % 0x40 := by
  rw [payload, h]
  omega

private theorem front_of_two {first b : UInt8} {v : Nat} (hlow : 0x80 ≤ v) (hhigh : v < 0x800)
    (hfirst : first.toNat = v / 64 + 0xC0) (hb : b.toNat = v % 0x40 + 0x80) (rest : Bytes) :
    front first (b :: rest) = .char (Char.ofNat v) 2 := by
  have hshape : tailShape first = some (1, 0x80, 0xBF) := by
    rw [tailShape, if_pos]
    simp only [Bool.and_eq_true, decide_eq_true_eq, UInt8.le_iff_toNat_le, hfirst,
      UInt8.reduceToNat]
    omega
  have hin : ((0x80 : UInt8) ≤ b && b ≤ 0xBF) = true := isTail_of_toNat hb
  have hv : first.toNat % 0x20 * 0x40 + payload b = v := by
    rw [payload_of_toNat hb, hfirst]
    omega
  simp only [front, if_neg (not_lt_of_toNat (b := first) (by omega)), hshape, hin, hv]
  rfl

private theorem tailShape_of_three {first b : UInt8} {v : Nat} (hlow : 0x800 ≤ v)
    (hhigh : v < 0x10000) (hscalar : v < 0xD800 ∨ 0xDFFF < v)
    (hfirst : first.toNat = v / 4096 + 0xE0) (hb : b.toNat = v / 64 % 0x40 + 0x80) :
    ∃ low high, tailShape first = some (2, low, high) ∧ (low ≤ b && b ≤ high) = true := by
  simp only [tailShape, Bool.and_eq_true, decide_eq_true_eq, UInt8.le_iff_toNat_le, beq_iff_eq,
    ← UInt8.toNat_inj, UInt8.reduceToNat, hfirst]
  split
  · omega
  split
  · exact ⟨_, _, rfl, by simp only [hb, UInt8.reduceToNat]; omega⟩
  split
  · exact ⟨_, _, rfl, by simp only [hb, UInt8.reduceToNat]; omega⟩
  split
  · exact ⟨_, _, rfl, by simp only [hb, UInt8.reduceToNat]; omega⟩
  · omega

private theorem front_of_three {first b c : UInt8} {v : Nat} (hlow : 0x800 ≤ v)
    (hhigh : v < 0x10000) (hscalar : v < 0xD800 ∨ 0xDFFF < v)
    (hfirst : first.toNat = v / 4096 + 0xE0) (hb : b.toNat = v / 64 % 0x40 + 0x80)
    (hc : c.toNat = v % 0x40 + 0x80) (rest : Bytes) :
    front first (b :: c :: rest) = .char (Char.ofNat v) 3 := by
  obtain ⟨low, high, hshape, hin⟩ := tailShape_of_three hlow hhigh hscalar hfirst hb
  have hv : first.toNat % 0x10 * 0x1000 + payload b * 0x40 + payload c = v := by
    rw [payload_of_toNat hb, payload_of_toNat hc, hfirst]
    omega
  simp only [front, if_neg (not_lt_of_toNat (b := first) (by omega)), hshape, hin,
    isTail_of_toNat hc, hv]
  rfl

private theorem tailShape_of_four {first b : UInt8} {v : Nat} (hlow : 0x10000 ≤ v)
    (hhigh : v < 0x110000) (hfirst : first.toNat = v / 262144 + 0xF0)
    (hb : b.toNat = v / 4096 % 0x40 + 0x80) :
    ∃ low high, tailShape first = some (3, low, high) ∧ (low ≤ b && b ≤ high) = true := by
  simp only [tailShape, Bool.and_eq_true, decide_eq_true_eq, UInt8.le_iff_toNat_le, beq_iff_eq,
    ← UInt8.toNat_inj, UInt8.reduceToNat, hfirst]
  split
  · omega
  split
  · omega
  split
  · omega
  split
  · omega
  split
  · exact ⟨_, _, rfl, by simp only [hb, UInt8.reduceToNat]; omega⟩
  split
  · exact ⟨_, _, rfl, by simp only [hb, UInt8.reduceToNat]; omega⟩
  split
  · exact ⟨_, _, rfl, by simp only [hb, UInt8.reduceToNat]; omega⟩
  · omega

private theorem front_of_four {first b c d : UInt8} {v : Nat} (hlow : 0x10000 ≤ v)
    (hhigh : v < 0x110000) (hfirst : first.toNat = v / 262144 + 0xF0)
    (hb : b.toNat = v / 4096 % 0x40 + 0x80) (hc : c.toNat = v / 64 % 0x40 + 0x80)
    (hd : d.toNat = v % 0x40 + 0x80) (rest : Bytes) :
    front first (b :: c :: d :: rest) = .char (Char.ofNat v) 4 := by
  obtain ⟨low, high, hshape, hin⟩ := tailShape_of_four hlow hhigh hfirst hb
  have hv : first.toNat % 0x08 * 0x40000 + payload b * 0x1000 + payload c * 0x40 + payload d =
      v := by
    rw [payload_of_toNat hb, payload_of_toNat hc, payload_of_toNat hd, hfirst]
    omega
  simp only [front, if_neg (not_lt_of_toNat (b := first) (by omega)), hshape, hin,
    isTail_of_toNat hc, isTail_of_toNat hd, hv]
  rfl

/-- The bytes of a character are read as that character. -/
theorem front_utf8EncodeChar (c : Char) (rest : Bytes) :
    ∃ first tail, String.utf8EncodeChar c = first :: tail ∧
      front first (tail ++ rest) = .char c (tail.length + 1) := by
  have hchar : Char.ofNat c.val.toNat = c := Char.ofNat_toNat c
  have hscalar : c.val.toNat < 0xD800 ∨ 0xDFFF < c.val.toNat ∧ c.val.toNat < 0x110000 := c.valid
  rw [String.utf8EncodeChar]
  generalize c.val.toNat = v at hchar hscalar
  subst hchar
  split
  · next h =>
      have hfirst : (UInt8.ofNat v).toNat = v := toNat_ofNat (by omega)
      refine ⟨_, [], rfl, ?_⟩
      rw [front, if_pos, hfirst]
      · rfl
      · rw [UInt8.lt_iff_toNat_lt, hfirst]
        exact Nat.lt_succ_of_le h
  split
  · refine ⟨_, _, rfl, front_of_two (by omega) (by omega) ?_ (toNat_ofNat (by omega)) rest⟩
    rw [toNat_ofNat (by omega)]
    omega
  split
  · refine ⟨_, _, rfl, front_of_three (by omega) (by omega) (by omega) ?_
      (toNat_ofNat (by omega)) (toNat_ofNat (by omega)) rest⟩
    rw [toNat_ofNat (by omega)]
    omega
  · refine ⟨_, _, rfl, front_of_four (by omega) (by omega) ?_ (toNat_ofNat (by omega))
      (toNat_ofNat (by omega)) (toNat_ofNat (by omega)) rest⟩
    rw [toNat_ofNat (by omega)]
    omega

theorem utf8EncodeChar_of_lt {c : Char} (h : c.toNat < 0x80) :
    String.utf8EncodeChar c = [UInt8.ofNat c.toNat] := by
  have hle : c.val.toNat ≤ 0x7F := Nat.le_of_lt_succ h
  rw [String.utf8EncodeChar, if_pos hle]
  rfl

/-- A byte below the 128th is a character of its own. -/
theorem mem_utf8EncodeChar {c : Char} {b : UInt8} (hb : b.toNat < 0x80) :
    b ∈ String.utf8EncodeChar c ↔ b.toNat = c.toNat := by
  have hc : c.val.toNat = c.toNat := rfl
  rw [String.utf8EncodeChar, hc]
  split
  · next h =>
      rw [List.mem_singleton, ← UInt8.toNat_inj, toNat_ofNat (by omega)]
  · next h =>
      refine ⟨fun hmem => ?_, fun heq => absurd heq (by omega)⟩
      exfalso
      split at hmem
      · simp only [List.mem_cons, List.not_mem_nil, or_false, ← UInt8.toNat_inj] at hmem
        rw [toNat_ofNat (by omega), toNat_ofNat (by omega)] at hmem
        omega
      · split at hmem
        · simp only [List.mem_cons, List.not_mem_nil, or_false, ← UInt8.toNat_inj] at hmem
          rw [toNat_ofNat (by omega), toNat_ofNat (by omega), toNat_ofNat (by omega)] at hmem
          omega
        · simp only [List.mem_cons, List.not_mem_nil, or_false, ← UInt8.toNat_inj] at hmem
          rw [toNat_ofNat (by omega), toNat_ofNat (by omega), toNat_ofNat (by omega),
            toNat_ofNat (by omega)] at hmem
          omega

private theorem encode_ofNat {v : Nat} (h : v < 0xD800 ∨ 0xDFFF < v ∧ v < 0x110000) :
    String.utf8EncodeChar (Char.ofNat v) =
      if v ≤ 0x7F then [UInt8.ofNat v]
      else if v ≤ 0x7FF then [UInt8.ofNat (v / 64 % 32 + 192), UInt8.ofNat (v % 64 + 128)]
      else if v ≤ 0xFFFF then
        [UInt8.ofNat (v / 4096 % 16 + 224), UInt8.ofNat (v / 64 % 64 + 128),
          UInt8.ofNat (v % 64 + 128)]
      else
        [UInt8.ofNat (v / 262144 % 8 + 240), UInt8.ofNat (v / 4096 % 64 + 128),
          UInt8.ofNat (v / 64 % 64 + 128), UInt8.ofNat (v % 64 + 128)] := by
  have hv : (Char.ofNat v).val.toNat = v := by
    rw [Char.ofNat, dif_pos h]
    rfl
  rw [String.utf8EncodeChar, hv]

private theorem tailShape_spec {first low high : UInt8} {count : Nat}
    (h : tailShape first = some (count, low, high)) :
    0x80 ≤ low.toNat ∧ high.toNat ≤ 0xBF ∧
      (count = 1 ∧ 0xC2 ≤ first.toNat ∧ first.toNat ≤ 0xDF ∨
        count = 2 ∧ 0xE0 ≤ first.toNat ∧ first.toNat ≤ 0xEF ∧
          (first.toNat = 0xE0 → 0xA0 ≤ low.toNat) ∧ (first.toNat = 0xED → high.toNat ≤ 0x9F) ∨
        count = 3 ∧ 0xF0 ≤ first.toNat ∧ first.toNat ≤ 0xF4 ∧
          (first.toNat = 0xF0 → 0x90 ≤ low.toNat) ∧ (first.toNat = 0xF4 → high.toNat ≤ 0x8F)) := by
  simp only [tailShape, Bool.and_eq_true, decide_eq_true_eq, UInt8.le_iff_toNat_le, beq_iff_eq,
    ← UInt8.toNat_inj, UInt8.reduceToNat] at h
  repeat' split at h
  all_goals
    simp only [Option.some.injEq, Prod.mk.injEq, reduceCtorEq] at h
  all_goals
    obtain ⟨rfl, rfl, rfl⟩ := h
    simp only [UInt8.reduceToNat, true_and]
    omega

private theorem ofNat_eq {n : Nat} {b : UInt8} (h : n = b.toNat) : UInt8.ofNat n = b := by
  rw [h, UInt8.ofNat_toNat]

/-! What a first byte and bytes behind it denote, encoded again. -/

section

variable {first b c d : UInt8} (hb : 0x80 ≤ b.toNat ∧ b.toNat ≤ 0xBF)

include hb

private theorem encode_two (hfirst : 0xC2 ≤ first.toNat ∧ first.toNat ≤ 0xDF) :
    String.utf8EncodeChar (Char.ofNat (first.toNat % 0x20 * 0x40 + payload b)) = [first, b] := by
  rw [payload, encode_ofNat (by omega), if_neg (by omega), if_pos (by omega),
    ofNat_eq (b := first) (by omega), ofNat_eq (b := b) (by omega)]

variable (hc : 0x80 ≤ c.toNat ∧ c.toNat ≤ 0xBF)

include hc

private theorem encode_three (hfirst : 0xE0 ≤ first.toNat ∧ first.toNat ≤ 0xEF)
    (hlow : first.toNat = 0xE0 → 0xA0 ≤ b.toNat) (hhigh : first.toNat = 0xED → b.toNat ≤ 0x9F) :
    String.utf8EncodeChar (Char.ofNat (first.toNat % 0x10 * 0x1000 + payload b * 0x40 +
      payload c)) = [first, b, c] := by
  rw [payload, payload, encode_ofNat (by omega), if_neg (by omega), if_neg (by omega),
    if_pos (by omega), ofNat_eq (b := first) (by omega), ofNat_eq (b := b) (by omega),
    ofNat_eq (b := c) (by omega)]

private theorem encode_four (hd : 0x80 ≤ d.toNat ∧ d.toNat ≤ 0xBF)
    (hfirst : 0xF0 ≤ first.toNat ∧ first.toNat ≤ 0xF4)
    (hlow : first.toNat = 0xF0 → 0x90 ≤ b.toNat) (hhigh : first.toNat = 0xF4 → b.toNat ≤ 0x8F) :
    String.utf8EncodeChar (Char.ofNat (first.toNat % 0x08 * 0x40000 + payload b * 0x1000 +
      payload c * 0x40 + payload d)) = [first, b, c, d] := by
  rw [payload, payload, payload, encode_ofNat (by omega), if_neg (by omega), if_neg (by omega),
    if_neg (by omega), ofNat_eq (b := first) (by omega), ofNat_eq (b := b) (by omega),
    ofNat_eq (b := c) (by omega), ofNat_eq (b := d) (by omega)]

end

/-- Bytes that are read as a character are the bytes of that character. -/
theorem utf8EncodeChar_of_front {first : UInt8} {rest : Bytes} {c : Char} {size : Nat}
    (h : front first rest = .char c size) :
    String.utf8EncodeChar c ++ rest.drop (size - 1) = first :: rest := by
  have htail : ∀ {b : UInt8}, ¬ (!isTail b) = true → 0x80 ≤ b.toNat ∧ b.toNat ≤ 0xBF := by
    intro b hb
    simpa [isTail, UInt8.le_iff_toNat_le] using hb
  rw [front] at h
  split at h
  · next hfirst =>
      rw [UInt8.lt_iff_toNat_lt] at hfirst
      simp only [UInt8.reduceToNat] at hfirst
      obtain ⟨rfl, rfl⟩ := Front.char.inj h
      rw [encode_ofNat (by omega), if_pos (by omega), UInt8.ofNat_toNat]
      rfl
  split at h
  · cases h
  next count low high hshape =>
  obtain ⟨hlowest, hhighest, hform⟩ := tailShape_spec hshape
  split at h
  · cases h
  next b rest =>
  split at h
  · cases h
  next hin =>
  simp only [Bool.not_eq_true', Bool.not_eq_false, Bool.and_eq_true, decide_eq_true_eq,
    UInt8.le_iff_toNat_le] at hin
  have hb : 0x80 ≤ b.toNat ∧ b.toNat ≤ 0xBF := by omega
  split at h
  · next hcount =>
      rw [beq_iff_eq] at hcount
      obtain ⟨rfl, rfl⟩ := Front.char.inj h
      rw [encode_two hb (by omega)]
      rfl
  next hcount =>
  rw [beq_iff_eq] at hcount
  split at h
  · cases h
  next d rest =>
  split at h
  · cases h
  next hd =>
  split at h
  · next hcount =>
      rw [beq_iff_eq] at hcount
      obtain ⟨rfl, rfl⟩ := Front.char.inj h
      rw [encode_three hb (htail hd) (by omega) (by omega) (by omega)]
      rfl
  next hcount =>
  rw [beq_iff_eq] at hcount
  split at h
  · cases h
  next e rest =>
  split at h
  · cases h
  next he =>
  obtain ⟨rfl, rfl⟩ := Front.char.inj h
  rw [encode_four hb (htail hd) (htail he) (by omega) (by omega) (by omega)]
  rfl

/-! ### Texts -/

/-- A text is read off the front of its bytes, whatever bytes stand behind them. -/
theorem decode?_ofChars_append (text : List Char) (more : Bytes) :
    decode? (ofChars text ++ more) = (decode? more).map (text ++ ·) := by
  induction text with
  | nil => simp [ofChars_nil]
  | cons c text ih =>
      obtain ⟨first, tail, hbytes, hfront⟩ := front_utf8EncodeChar c (ofChars text ++ more)
      have hall : ofChars (c :: text) ++ more = first :: (tail ++ (ofChars text ++ more)) := by
        rw [ofChars, List.flatMap_cons, hbytes, List.append_assoc]
        rfl
      rw [hall, decode?, hfront]
      simp only [Nat.add_sub_cancel, List.drop_left, ih, Option.map_map]
      rfl

theorem decode?_ofChars (text : List Char) : decode? (ofChars text) = some text := by
  have h := decode?_ofChars_append text []
  rwa [List.append_nil, decode?, Option.map_some, List.append_nil] at h

/-- The bytes of a text are read as that text. -/
theorem text?_ofText (text : String) : text? (ofText text) = some text := by
  rw [text?, ofText, decode?_ofChars, Option.map_some, String.ofList_toList]

theorem ofText_injective {a b : String} (h : ofText a = ofText b) : a = b := by
  have hb := text?_ofText b
  rw [← h, text?_ofText] at hb
  exact Option.some.inj hb

theorem ofText_append (a b : String) : ofText (a ++ b) = ofText a ++ ofText b := by
  rw [ofText, String.toList_append, ofChars_append]
  rfl

/-- A byte below the 128th is in a text exactly when its character is. -/
theorem mem_ofText {text : String} {b : UInt8} (hb : b.toNat < 0x80) :
    b ∈ ofText text ↔ ∃ c ∈ text.toList, c.toNat = b.toNat := by
  simp only [ofText, ofChars, List.mem_flatMap, mem_utf8EncodeChar hb, eq_comm]

/-- What is read as text are the bytes of that text. -/
theorem ofChars_of_decode? {bytes : Bytes} {text : List Char} (h : decode? bytes = some text) :
    ofChars text = bytes := by
  fun_induction decode? bytes generalizing text with
  | case1 =>
      obtain rfl := Option.some.inj h
      rfl
  | case2 first rest c size hfront ih =>
      obtain ⟨text, htext, rfl⟩ := Option.map_eq_some_iff.mp h
      rw [← utf8EncodeChar_of_front hfront, ← ih htext, ofChars, List.flatMap_cons]
      rfl
  | case3 => cases h

theorem text?_eq_some_iff {bytes : Bytes} {text : String} :
    text? bytes = some text ↔ bytes = ofText text := by
  constructor
  · intro h
    obtain ⟨chars, hchars, rfl⟩ := Option.map_eq_some_iff.mp h
    rw [ofText, String.toList_ofList, ofChars_of_decode? hchars]
  · rintro rfl
    exact text?_ofText text

/-- A text at the front of the bytes of a text is the front of that text. -/
theorem exists_of_prefix_ofText {front text : String} (h : ofText front <+: ofText text) :
    ∃ back, text.toList = front.toList ++ back := by
  obtain ⟨more, hmore⟩ := h
  have hread := decode?_ofChars_append front.toList more
  rw [show ofChars front.toList ++ more = ofChars text.toList from hmore, decode?_ofChars] at hread
  obtain ⟨back, _, hback⟩ := Option.map_eq_some_iff.mp hread.symm
  exact ⟨back, hback.symm⟩

/-- A text is shown as it is. -/
theorem display_ofText (text : String) : display (ofText text) = text := by
  have hchars : ∀ chars : List Char, decodeLossy (ofChars chars) = chars := by
    intro chars
    induction chars with
    | nil => rw [ofChars_nil, decodeLossy]
    | cons c chars ih =>
        obtain ⟨first, tail, hbytes, hfront⟩ := front_utf8EncodeChar c (ofChars chars)
        have hall : ofChars (c :: chars) = first :: (tail ++ ofChars chars) := by
          rw [ofChars, List.flatMap_cons, hbytes]
          rfl
        rw [hall, decodeLossy, hfront]
        simp only [Nat.add_sub_cancel, List.drop_left, ih]
  rw [display, ofText, hchars, String.ofList_toList]

/-- The number of bytes at the front. -/
def Front.size : Front → Nat
  | char _ size => size
  | broken size => size

/-- What stands at the front does not depend on an ASCII character farther back. -/
private theorem front_append {b : UInt8} (hb : b < 0x80) (first : UInt8) (rest tail : Bytes) :
    front first (rest ++ b :: tail) = front first rest ∧
      (front first rest).size ≤ rest.length + 1 := by
  have hnot : ∀ low : UInt8, 0x80 ≤ low.toNat → decide (low ≤ b) = false := by
    intro low hlow
    have hb : b.toNat < 0x80 := UInt8.lt_iff_toNat_lt.mp hb
    rw [decide_eq_false_iff_not, UInt8.le_iff_toNat_le]
    omega
  have htail : isTail b = false := by rw [isTail, hnot _ (by decide), Bool.false_and]
  simp only [front]
  split
  · exact ⟨rfl, Nat.le_add_left 1 rest.length⟩
  · cases hshape : tailShape first with
    | none => exact ⟨rfl, Nat.le_add_left 1 rest.length⟩
    | some shape =>
        obtain ⟨count, low, high⟩ := shape
        have hlow := hnot low (tailShape_spec hshape).1
        -- At most three bytes are read, and the ASCII character is none that could follow.
        rcases rest with _ | ⟨second, _ | ⟨third, _ | ⟨fourth, rest⟩⟩⟩
        all_goals
          simp only [List.nil_append, List.cons_append, hlow, htail, Bool.false_and,
            Bool.not_false, if_true, true_and]
          repeat' split
        all_goals simp [Front.size]

theorem decodeLossy_append {b : UInt8} (hb : b < 0x80) (bytes tail : Bytes) :
    decodeLossy (bytes ++ b :: tail) = decodeLossy bytes ++ decodeLossy (b :: tail) := by
  fun_induction decodeLossy bytes with
  | case1 => rfl
  | case2 first rest c size hfront ih =>
      obtain ⟨hsame, hsize⟩ := front_append hb first rest tail
      rw [hfront] at hsame hsize
      dsimp only [Front.size] at hsize
      rw [List.cons_append, decodeLossy, hsame]
      dsimp only
      rw [List.drop_append_of_le_length (by omega), ih, List.cons_append]
  | case3 first rest size hfront ih =>
      obtain ⟨hsame, hsize⟩ := front_append hb first rest tail
      rw [hfront] at hsame hsize
      dsimp only [Front.size] at hsize
      rw [List.cons_append, decodeLossy, hsame]
      dsimp only
      rw [List.drop_append_of_le_length (by omega), ih, List.cons_append]

/-- Bytes are shown one after the other where an ASCII character parts them. -/
theorem display_append {b : UInt8} (hb : b < 0x80) (bytes tail : Bytes) :
    display (bytes ++ b :: tail) = display bytes ++ display (b :: tail) := by
  rw [display, decodeLossy_append hb, String.ofList_append]
  rfl

/-- A byte sequence without NUL is shown without NUL. -/
theorem nul_not_mem_display {bytes : Bytes} (h : 0 ∉ bytes) : '\x00' ∉ bytes.display.toList := by
  rw [display, String.toList_ofList]
  fun_induction decodeLossy bytes with
  | case1 => simp
  | case2 first rest c size hfront ih =>
      have hbytes := utf8EncodeChar_of_front hfront
      rw [List.mem_cons, not_or]
      refine ⟨?_, ih fun hmem => h (List.mem_cons_of_mem _ (List.mem_of_mem_drop hmem))⟩
      rintro rfl
      rw [utf8EncodeChar_of_lt (by decide)] at hbytes
      exact h ((List.cons.inj hbytes).1 ▸ List.mem_cons_self)
  | case3 first rest size hfront ih =>
      rw [List.mem_cons, not_or]
      exact ⟨by decide, ih fun hmem => h (List.mem_cons_of_mem _ (List.mem_of_mem_drop hmem))⟩

/-- A joined byte sequence has no other bytes than its parts and the separator. -/
theorem mem_joinWith {separator b : UInt8} {parts : List Bytes}
    (h : b ∈ joinWith separator parts) : b = separator ∨ ∃ part ∈ parts, b ∈ part := by
  induction parts with
  | nil => cases h
  | cons part parts ih =>
      cases parts with
      | nil => exact .inr ⟨part, List.mem_cons_self, h⟩
      | cons next rest =>
          rw [joinWith, List.mem_append, List.mem_cons] at h
          · rcases h with h | h | h
            · exact .inr ⟨part, List.mem_cons_self, h⟩
            · exact .inl h
            · rcases ih h with h | ⟨other, hother, h⟩
              · exact .inl h
              · exact .inr ⟨other, List.mem_cons_of_mem _ hother, h⟩
          · exact List.cons_ne_nil next rest

theorem length_ofText (text : String) : (ofText text).length = text.utf8ByteSize := by
  rw [← String.size_toByteArray, ← String.utf8Encode_toList, List.utf8Encode,
    List.size_toByteArray]
  rfl

/-! ### Order -/

/-- A smaller character has smaller bytes, whatever stands behind them. -/
theorem utf8EncodeChar_append_lt {c d : Char} (h : c < d) (front back : Bytes) :
    String.utf8EncodeChar c ++ front < String.utf8EncodeChar d ++ back := by
  have hlt : c.val.toNat < d.val.toNat := UInt32.lt_iff_toNat_lt.mp h
  have hscalar : d.val.toNat < 0xD800 ∨ 0xDFFF < d.val.toNat ∧ d.val.toNat < 0x110000 := d.valid
  rw [String.utf8EncodeChar, String.utf8EncodeChar]
  generalize c.val.toNat = v at hlt
  generalize d.val.toNat = w at hlt hscalar
  have hdigits : ∀ n, n / 64 / 64 = n / 4096 ∧ n / 4096 / 64 = n / 262144 := fun n =>
    ⟨Nat.div_div_eq_div_mul n 64 64, Nat.div_div_eq_div_mul n 4096 64⟩
  have hv := hdigits v
  have hw := hdigits w
  have hsmall : v / 262144 < 8 ∧ w / 262144 < 8 := by omega
  -- More bytes have a larger first one; of as many, the first that differ decide.
  repeat' split
  all_goals
    simp (disch := omega) only [List.cons_append, List.nil_append, List.cons_lt_cons_iff,
      UInt8.lt_iff_toNat_lt, ← UInt8.toNat_inj, toNat_ofNat]
    omega

theorem ofChars_lt {a b : List Char} (h : a < b) : ofChars a < ofChars b := by
  induction a generalizing b with
  | nil =>
      cases b with
      | nil => exact absurd h (List.not_lt_nil [])
      | cons d b =>
          obtain ⟨first, tail, hbytes, _⟩ := front_utf8EncodeChar d []
          rw [ofChars_nil, ofChars, List.flatMap_cons, hbytes]
          exact List.nil_lt_cons first _
  | cons c a ih =>
      cases b with
      | nil => exact absurd h (List.not_lt_nil _)
      | cons d b =>
          rw [ofChars, ofChars, List.flatMap_cons, List.flatMap_cons]
          rcases List.cons_lt_cons_iff.mp h with hlt | ⟨rfl, hrest⟩
          · exact utf8EncodeChar_append_lt hlt _ _
          · exact List.append_left_lt (ih hrest)

/-- Texts are in the order of their bytes. -/
theorem ofText_lt {a b : String} (h : a < b) : ofText a < ofText b :=
  ofChars_lt h

end Enclave.Bytes
