import Enclave.Environ
import Enclave.Proofs.Bytes
import Enclave.Proofs.Table

/-! # Assignments to the process environment

An assignment is refused exactly if its key or its value is not admissible (`assign_eq_ok_iff`), and
admissible assignments are performed one after the other (`assignAll_eq_putAll`).  A text is an
admissible value if it holds no NUL (`validValue_ofText_iff`). -/

namespace Enclave.Environ

variable {env env' : Environ} {key text : String} {value : Option Bytes}

theorem validKey_iff :
    validKey key ↔ key.toList ≠ [] ∧ '=' ∉ key.toList ∧ '\x00' ∉ key.toList := by
  simp [validKey, String.contains_char_eq, and_assoc]

theorem validValue_ofText_iff : validValue (Bytes.ofText text) ↔ '\x00' ∉ text.toList := by
  rw [validValue, Bool.not_eq_true', ← Bool.not_eq_true, List.contains_iff_mem,
    Bytes.mem_ofText (by decide), not_iff_not]
  constructor
  · rintro ⟨c, hc, hzero⟩
    obtain rfl : c = '\x00' := Char.toNat_inj.mp hzero
    exact hc
  · exact fun hnul => ⟨'\x00', hnul, rfl⟩

/-- Whether an assignment is one that is not refused. -/
def Admissible (assignment : String × Option Bytes) : Prop :=
  validKey assignment.1 ∧ assignment.2.all validValue

theorem assign_eq_ok_iff :
    assign env key value = .ok env' ↔ Admissible (key, value) ∧ env' = env.put key value := by
  rw [assign, Admissible]
  cases validKey key <;> cases value.all validValue <;> simp [eq_comm]

/-- Admissible assignments are performed one after the other. -/
theorem assignAll_eq_putAll (env : Environ) {assignments : List (String × Option Bytes)}
    (h : ∀ assignment ∈ assignments, Admissible assignment) :
    assignAll env assignments = (none, env.putAll assignments) := by
  induction assignments generalizing env with
  | nil => rfl
  | cons assignment rest ih =>
      rw [assignAll, assign_eq_ok_iff.mpr ⟨h assignment List.mem_cons_self, rfl⟩]
      exact ih _ fun other hother => h other (List.mem_cons_of_mem _ hother)

end Enclave.Environ
