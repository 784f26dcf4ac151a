import Enclave.Digest.Sha256
import Enclave.Requirements

/-! # Fingerprints

A fingerprint is the hash of the declared inputs of a build: the interpreter and the requirement
lines.  `preimage` is the hashed byte sequence; neither the files that the lines come from nor
anything inside the environment is part of it. -/

namespace Enclave

/-- A fingerprint as it is written.  Only a well-formed one can come from a build. -/
structure Fingerprint where
  text : String
deriving Repr, DecidableEq, Inhabited

namespace Fingerprint

/-- The bytes that are hashed. -/
def preimage (interpreter : String) (lines : List String) : Bytes :=
  Bytes.ofText "interpreter" ++ 0 :: Bytes.ofText interpreter ++
    0 :: Bytes.ofText "requirements" ++ 0 :: lines.flatMap fun line => Bytes.ofText line ++ [0x0A]

/-- The fingerprint of an interpreter declaration and requirements. -/
def compute (interpreter : String) (requirements : Requirements) : Fingerprint :=
  ⟨(Sha256.hash (preimage interpreter requirements.lines)).hex⟩

/-- How many bytes of a fingerprint are shown. -/
def shortLength : Nat := 12

/-- The first twelve bytes, or all of them where these are not a whole number of characters. -/
def short (fingerprint : Fingerprint) : String :=
  let bytes := Bytes.ofText fingerprint.text
  if bytes.length < shortLength then fingerprint.text
  else (Bytes.text? (bytes.take shortLength)).getD fingerprint.text

/-- Whether a character is a hexadecimal digit in either letter case. -/
def isHexDigit (c : Char) : Bool :=
  c.isDigit || ('a' ≤ c && c ≤ 'f') || ('A' ≤ c && c ≤ 'F')

/-- Whether the text consists of 64 hexadecimal digits. -/
def isWellFormed (fingerprint : Fingerprint) : Bool :=
  fingerprint.text.toList.length == 64 && fingerprint.text.toList.all isHexDigit

/-- The files that requirement lines come from do not matter. -/
theorem compute_sources (interpreter : String) (lines : List String) (a b : List Path) :
    compute interpreter ⟨a, lines⟩ = compute interpreter ⟨b, lines⟩ := rfl

end Fingerprint
end Enclave
