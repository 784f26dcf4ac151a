import Enclave.Proofs.Json.RoundTrip
import Enclave.Proofs.Time.RoundTrip
import Enclave.Record

/-! # Records come back from their text

Every build record is read from the text that is written for it (`parse?_text`), whatever its name,
its lines and its time are. -/

namespace Enclave.BuildRecord

open Json

theorem readable_toJson (record : BuildRecord) : Readable record.toJson := by
  apply readable_object
  intro member hmember
  simp only [List.mem_cons, List.not_mem_nil, or_false] at hmember
  rcases hmember with rfl | rfl | rfl | rfl | rfl | rfl
  · exact readable_string _
  · exact readable_string _
  · exact readable_string _
  · apply readable_array
    intro item hitem
    obtain ⟨line, _, rfl⟩ := List.mem_map.mp hitem
    exact readable_string line
  · exact readable_string _
  · exact readable_string _

theorem texts?_ofTexts (texts : List String) : (Value.ofTexts texts).texts? = some texts := by
  rw [Value.ofTexts, Value.texts?]
  induction texts with
  | nil => rfl
  | cons text texts ih =>
      rw [List.map_cons, List.mapM_cons, ih]
      rfl

theorem ofJson?_toJson (record : BuildRecord) : ofJson? record.toJson = some record := by
  have htime := Instant.parse?_text record.builtAt
  simp [toJson, ofJson?, Value.ofMembers, keysAdmissible, keys, List.lookup_cons, ofMembers?,
    Value.text?, Value.ofText, texts?_ofTexts, htime]

/-- A record is read from its text. -/
theorem parse?_text (record : BuildRecord) : parse? record.text = some record := by
  rw [parse?, text, parse?_pretty record.readable_toJson]
  exact record.ofJson?_toJson

end Enclave.BuildRecord
