import Enclave.Fingerprint
import Enclave.Proofs.Bytes
import Enclave.Proofs.Text

/-! # What a fingerprint tells

Requirement lines hold no line feed (`feedFree_load`), so the hashed bytes determine the interpreter
and the lines when no interpreter holds a NUL (`preimage_inj`).  A fingerprint is the hexadecimal
form of a hash, so it is well-formed (`isWellFormed_compute`) and determines the hash
(`hex_injective`).  Unless two byte sequences with one hash are met (`Collision`), the fingerprint
determines the interpreter and the lines (`compute_inj`), and for lines that were loaded from files
it says nothing else (`compute_load_eq_iff`). -/

namespace Enclave

/-! ### Hexadecimal forms -/

namespace Bytes

private theorem digitChar_inj :
    ∀ m < 16, ∀ n < 16, Nat.digitChar m = Nat.digitChar n → m = n := by decide

private theorem isHexDigit_digitChar :
    ∀ n < 16, Fingerprint.isHexDigit (Nat.digitChar n) = true := by decide

theorem hexByte_injective {a b : UInt8} (h : hexByte a = hexByte b) : a = b := by
  have ha := a.toNat_lt
  have hb := b.toNat_lt
  rw [hexByte, hexByte, List.cons.injEq, List.cons.injEq] at h
  have hhigh := digitChar_inj _ (by omega) _ (by omega) h.1
  have hlow := digitChar_inj _ (by omega) _ (by omega) h.2.1
  rw [← UInt8.toNat_inj]
  omega

theorem flatMap_hexByte_injective : ∀ {a b : Bytes}, a.flatMap hexByte = b.flatMap hexByte → a = b
  | [], [], _ => rfl
  | [], _ :: _, h => by simp [hexByte] at h
  | _ :: _, [], h => by simp [hexByte] at h
  | c :: a, d :: b, h => by
      rw [List.flatMap_cons, List.flatMap_cons] at h
      obtain ⟨hbyte, hrest⟩ := List.append_inj h rfl
      rw [hexByte_injective hbyte, flatMap_hexByte_injective hrest]

/-- Different bytes have different hexadecimal forms. -/
theorem hex_injective {a b : Bytes} (h : a.hex = b.hex) : a = b := by
  have hchars := congrArg String.toList h
  rw [hex, hex, String.toList_ofList, String.toList_ofList] at hchars
  exact flatMap_hexByte_injective hchars

theorem length_flatMap_hexByte (bytes : Bytes) :
    (bytes.flatMap hexByte).length = 2 * bytes.length := by
  induction bytes with
  | nil => rfl
  | cons b bytes ih =>
      rw [List.flatMap_cons, List.length_append, ih, List.length_cons]
      simp only [hexByte, List.length_cons, List.length_nil]
      omega

theorem isHexDigit_of_mem_flatMap {bytes : Bytes} {c : Char} (h : c ∈ bytes.flatMap hexByte) :
    Fingerprint.isHexDigit c = true := by
  obtain ⟨b, _, hc⟩ := List.mem_flatMap.mp h
  have hb := b.toNat_lt
  simp only [hexByte, List.mem_cons, List.not_mem_nil, or_false] at hc
  rcases hc with rfl | rfl
  · exact isHexDigit_digitChar _ (by omega)
  · exact isHexDigit_digitChar _ (by omega)

/-- What stands before the first occurrence of a byte and what stands after it. -/
theorem append_cons_inj {b : UInt8} : ∀ {front front' rest rest' : Bytes}, b ∉ front → b ∉ front' →
    front ++ b :: rest = front' ++ b :: rest' → front = front' ∧ rest = rest'
  | [], [], _, _, _, _, h => ⟨rfl, (List.cons.inj h).2⟩
  | [], c :: _, _, _, _, h', h => absurd (List.cons.inj h).1 fun e => h' (e ▸ List.mem_cons_self)
  | c :: _, [], _, _, h', _, h =>
      absurd (List.cons.inj h).1 fun e => h' (e ▸ List.mem_cons_self)
  | c :: front, d :: front', rest, rest', hf, hf', h => by
      obtain ⟨hhead, htail⟩ := List.cons.inj h
      obtain ⟨hfront, hrest⟩ := append_cons_inj (fun hb => hf (List.mem_cons_of_mem c hb))
        (fun hb => hf' (List.mem_cons_of_mem d hb)) htail
      exact ⟨by rw [hhead, hfront], hrest⟩

end Bytes

namespace Fingerprint

open Bytes

/-- A computed fingerprint consists of 64 hexadecimal digits. -/
theorem isWellFormed_compute (interpreter : String) (requirements : Requirements) :
    (compute interpreter requirements).isWellFormed = true := by
  rw [isWellFormed, compute, hex, String.toList_ofList, length_flatMap_hexByte,
    Sha256.length_hash, Bool.and_eq_true, List.all_eq_true]
  exact ⟨rfl, fun _ => isHexDigit_of_mem_flatMap⟩

/-! ### Hashed bytes -/

/-- Whether no line holds a line feed. -/
def FeedFree (lines : List String) : Prop :=
  ∀ line ∈ lines, '\n' ∉ line.toList

theorem feed_not_mem_ofText {line : String} (h : '\n' ∉ line.toList) : 0x0A ∉ ofText line := by
  rw [mem_ofText (by decide)]
  rintro ⟨c, hc, hfeed⟩
  have hnewline : c = '\n' := Char.toNat_inj.mp hfeed
  exact h (hnewline ▸ hc)

theorem flatMap_feed_inj : ∀ {lines lines' : List String}, FeedFree lines → FeedFree lines' →
    (lines.flatMap fun line => ofText line ++ [0x0A]) =
      (lines'.flatMap fun line => ofText line ++ [0x0A]) → lines = lines'
  | [], [], _, _, _ => rfl
  | [], _ :: _, _, _, h => by simp at h
  | _ :: _, [], _, _, h => by simp at h
  | line :: lines, line' :: lines', hfree, hfree', h => by
      rw [List.flatMap_cons, List.flatMap_cons, List.append_assoc, List.append_assoc,
        List.singleton_append, List.singleton_append] at h
      obtain ⟨hline, hrest⟩ := append_cons_inj
        (feed_not_mem_ofText (hfree line List.mem_cons_self))
        (feed_not_mem_ofText (hfree' line' List.mem_cons_self)) h
      rw [ofText_injective hline, flatMap_feed_inj
        (fun other hother => hfree other (List.mem_cons_of_mem line hother))
        (fun other hother => hfree' other (List.mem_cons_of_mem line' hother)) hrest]

/-- The hashed bytes determine an interpreter without NUL and lines without line feed. -/
theorem preimage_inj {interpreter interpreter' : String} {lines lines' : List String}
    (hnul : '\x00' ∉ interpreter.toList) (hnul' : '\x00' ∉ interpreter'.toList)
    (hfree : FeedFree lines) (hfree' : FeedFree lines')
    (h : preimage interpreter lines = preimage interpreter' lines') :
    interpreter = interpreter' ∧ lines = lines' := by
  have hbytes : ∀ text : String, '\x00' ∉ text.toList → 0 ∉ ofText text := by
    intro text htext
    rw [mem_ofText (by decide)]
    rintro ⟨c, hc, hzero⟩
    have hnul : c = '\x00' := Char.toNat_inj.mp hzero
    exact htext (hnul ▸ hc)
  simp only [preimage, List.append_assoc, List.cons_append] at h
  have h := (List.cons.inj (List.append_cancel_left h)).2
  obtain ⟨hinterpreter, hrest⟩ :=
    append_cons_inj (hbytes interpreter hnul) (hbytes interpreter' hnul') h
  have hlines := (List.cons.inj (List.append_cancel_left hrest)).2
  exact ⟨ofText_injective hinterpreter, flatMap_feed_inj hfree hfree' hlines⟩

/-- Whether two different byte sequences have the same hash. -/
def Collision (a b : Bytes) : Prop :=
  a ≠ b ∧ Sha256.hash a = Sha256.hash b

/-- Without a collision the fingerprint determines the interpreter and the lines. -/
theorem compute_inj {interpreter interpreter' : String} {requirements requirements' : Requirements}
    (hnul : '\x00' ∉ interpreter.toList) (hnul' : '\x00' ∉ interpreter'.toList)
    (hfree : FeedFree requirements.lines) (hfree' : FeedFree requirements'.lines)
    (hcollision : ¬ Collision (preimage interpreter requirements.lines)
      (preimage interpreter' requirements'.lines))
    (h : compute interpreter requirements = compute interpreter' requirements') :
    interpreter = interpreter' ∧ requirements.lines = requirements'.lines := by
  rw [compute, compute, Fingerprint.mk.injEq] at h
  have hsame := Decidable.byContradiction fun hne => hcollision ⟨hne, hex_injective h⟩
  exact preimage_inj hnul hnul' hfree hfree' hsame

end Fingerprint

/-! ### Loaded lines -/

namespace Requirements

open Fingerprint

theorem feedFree_parseLines (text : String) : FeedFree (parseLines text) := by
  intro line hline
  obtain ⟨chars, hchars, rfl⟩ := List.mem_map.mp hline
  obtain ⟨raw, hraw, rfl⟩ := List.mem_map.mp (List.mem_filter.mp hchars).1
  rw [String.toList_ofList]
  exact fun hfeed => Text.newline_not_mem_lines hraw (Text.mem_of_mem_trim hfeed)

theorem feedFree_merge {known new : List String} (hknown : FeedFree known) (hnew : FeedFree new) :
    FeedFree (merge known new) := by
  induction new generalizing known with
  | nil => exact hknown
  | cons line new ih =>
      refine ih ?_ fun other hother => hnew other (List.mem_cons_of_mem line hother)
      dsimp only
      split
      · exact hknown
      · intro other hother
        rcases List.mem_append.mp hother with hother | hother
        · exact hknown other hother
        · exact hnew other (by simp [List.mem_singleton.mp hother])

/-- Loaded requirement lines hold no line feed. -/
theorem feedFree_load (world : World) (files : List Path) :
    FeedFree (load world files).1.lines := by
  have hfold : ∀ (files : List Path) (state : Requirements × List Event), FeedFree state.1.lines →
      FeedFree (files.foldl (loadNext world) state).1.lines := by
    intro files
    induction files with
    | nil => exact fun _ h => h
    | cons file files ih =>
        intro state h
        apply ih
        rw [loadNext]
        split
        · exact feedFree_merge h (feedFree_parseLines _)
        · exact h
  exact hfold files _ (by simp [FeedFree])

end Requirements

/-! ### Declarations -/

namespace Fingerprint

/-- **Fingerprints tell declarations apart.**  The bytes that are hashed for an interpreter without
NUL and lines loaded from any files are those of no other interpreter and no other lines, so two
declarations have one fingerprint exactly if they are the same or their bytes are a collision.  The
files that the lines come from do not matter. -/
theorem compute_load_eq_iff {interpreter interpreter' : String} (hnul : '\x00' ∉ interpreter.toList)
    (hnul' : '\x00' ∉ interpreter'.toList) (world world' : World) (files files' : List Path) :
    let loaded := (Requirements.load world files).1
    let loaded' := (Requirements.load world' files').1
    let same := interpreter = interpreter' ∧ loaded.lines = loaded'.lines
    let bytes := preimage interpreter loaded.lines
    let bytes' := preimage interpreter' loaded'.lines
    (bytes = bytes' ↔ same) ∧
      (compute interpreter loaded = compute interpreter' loaded' ↔ same ∨ Collision bytes bytes') ∧
      ∀ sources, compute interpreter { loaded with sources } = compute interpreter loaded := by
  intro loaded loaded' same bytes bytes'
  have hfree : FeedFree loaded.lines := Requirements.feedFree_load world files
  have hfree' : FeedFree loaded'.lines := Requirements.feedFree_load world' files'
  have hbytes : bytes = bytes' ↔ same := by
    refine ⟨preimage_inj hnul hnul' hfree hfree', fun hsame => ?_⟩
    simp only [bytes, bytes', hsame.1, hsame.2]
  have hhash : compute interpreter loaded = compute interpreter' loaded' ↔
      Sha256.hash bytes = Sha256.hash bytes' := by
    rw [compute, compute, Fingerprint.mk.injEq]
    exact ⟨Bytes.hex_injective, congrArg Bytes.hex⟩
  refine ⟨hbytes, ?_, fun sources => compute_sources interpreter _ _ _⟩
  rw [hhash, ← hbytes]
  constructor
  · intro heq
    by_cases hsame : bytes = bytes'
    · exact .inl hsame
    · exact .inr ⟨hsame, heq⟩
  · rintro (hsame | hcollision)
    · exact congrArg Sha256.hash hsame
    · exact hcollision.2

/-- A world with one file. -/
def withFile (text : String) : World :=
  ⟨⟨[(.ofText "/r", .file 1 ⟨Bytes.ofText text, 0⟩ false)], 2⟩, [], 0, .empty, [], .zero, []⟩

/-- Where a line ends makes a difference. -/
theorem compute_load_eq_iff_lines :
    '\x00' ∉ "python3".toList ∧
      (Requirements.load (withFile "ab\n c # d\n") [.ofText "/r"]).1.lines = ["ab", "c # d"] ∧
      (Requirements.load (withFile "a\nbc # d\n") [.ofText "/r"]).1.lines = ["a", "bc # d"] ∧
      preimage "python3" ["ab", "c # d"] ≠ preimage "python3" ["a", "bc # d"] := by
  have hnul : '\x00' ∉ "python3".toList := by decide
  have hfirst : (Requirements.load (withFile "ab\n c # d\n") [.ofText "/r"]).1.lines =
      ["ab", "c # d"] := by decide +kernel
  have hsecond : (Requirements.load (withFile "a\nbc # d\n") [.ofText "/r"]).1.lines =
      ["a", "bc # d"] := by decide +kernel
  have hbytes := (compute_load_eq_iff hnul hnul (withFile "ab\n c # d\n") (withFile "a\nbc # d\n")
    [.ofText "/r"] [.ofText "/r"]).1
  rw [hfirst, hsecond] at hbytes
  exact ⟨hnul, hfirst, hsecond, fun heq => absurd (hbytes.mp heq).2 (by decide)⟩

end Fingerprint
end Enclave
