import Enclave.Proofs.Environment.Stores
import Enclave.Proofs.Json.Truncation
import Mathlib.Data.List.Basic

/-! # Records that were cut off

The record of an environment says that the environment is complete, so a file that holds only the
front of a record must not be taken for one.  Wherever the file ends, within a character, within an
escape or behind a whole value, what is left denotes no record (`load_of_cut`). -/

namespace Enclave.BuildRecord

open Layout

variable {world : World} {location : Path}

/-- A record is an object or an array. -/
theorem ne_number_of_ofJson? {value : Json.Value} {record : BuildRecord}
    (h : ofJson? value = some record) (literal : String) : value ≠ .number literal := by
  rintro rfl
  cases h

/-- The front of the text of a record denotes no record, unless it is all of the text. -/
theorem eq_nil_of_parse? {front : String} {back : List Char} {record other : BuildRecord}
    (htext : record.text.toList = front.toList ++ back) (hfront : parse? front = some other) :
    back = [] := by
  obtain ⟨value, hvalue, hother⟩ := Option.bind_eq_some_iff.mp hfront
  exact Json.eq_nil_of_parse? record.readable_toJson htext hvalue (ne_number_of_ofJson? hother)

/-- What is loaded denotes a record. -/
theorem exists_of_load {record : BuildRecord} (h : (load world location).1 = some record) :
    ∃ content, world.files.readBytes world.base (recordFile location) =
      .ok (Bytes.ofText content) ∧ parse? content = some record := by
  unfold load World.readText FileSystem.readText at h
  cases hread : world.files.readBytes world.base (recordFile location) with
  | error cause =>
      rw [hread] at h
      cases h
  | ok bytes =>
      rw [hread] at h
      dsimp only at h
      cases htext : bytes.text? with
      | none =>
          rw [htext] at h
          cases h
      | some content =>
          rw [htext] at h
          dsimp only at h
          rw [ofContent_fst, read?, Option.filter_eq_some_iff] at h
          obtain rfl := Bytes.text?_eq_some_iff.mp htext
          exact ⟨content, rfl, h.1⟩

/-- **A record that was cut off is not believed.**  Where the file of a record holds some of the
bytes of a record from the front, but not all of them, no record is loaded. -/
theorem load_of_cut (record : BuildRecord) {bytes : Bytes}
    (hread : world.files.readBytes world.base (recordFile location) = .ok bytes)
    (hfront : bytes <+: Bytes.ofText record.text) (hcut : bytes ≠ Bytes.ofText record.text) :
    (load world location).1 = none := by
  rw [Option.eq_none_iff_forall_ne_some]
  intro other hload
  obtain ⟨content, hcontent, hparse⟩ := exists_of_load hload
  rw [hread, Except.ok.injEq] at hcontent
  subst hcontent
  obtain ⟨back, hback⟩ := Bytes.exists_of_prefix_ofText hfront
  have hnil := eq_nil_of_parse? hback hparse
  rw [hnil, List.append_nil] at hback
  exact hcut (congrArg Bytes.ofChars hback.symm)

/-- A record whose name is a character of two bytes. -/
def accentedRecord : BuildRecord := { sampleRecord with name := "é" }

/-- What of it has been written after the first byte of that character. -/
def accentedFront : Bytes := Bytes.ofText "\x7b\n  \"name\": \"" ++ [0xC3]

/-- The files with that in the place of a record. -/
def cutFiles : List (Location × Entry) := [([entryName], .file 0 ⟨accentedFront, 0⟩ false)]

/-- A record that was cut off within a character. -/
theorem load_of_cut_accented :
    (worldWith cutFiles).files.readBytes (worldWith cutFiles).base (recordFile (.ofText "/")) =
        .ok accentedFront ∧
      accentedFront <+: Bytes.ofText accentedRecord.text ∧
      accentedFront ≠ Bytes.ofText accentedRecord.text ∧
      (load (worldWith cutFiles) (.ofText "/")).1 = none := by
  have hread : (worldWith cutFiles).files.readBytes (worldWith cutFiles).base
      (recordFile (.ofText "/")) = .ok accentedFront := by
    decide +kernel
  have hcut : accentedFront <+: Bytes.ofText accentedRecord.text ∧
      accentedFront ≠ Bytes.ofText accentedRecord.text := by
    rw [ofText_text]
    decide +kernel
  exact ⟨hread, hcut.1, hcut.2, load_of_cut accentedRecord hread hcut.1 hcut.2⟩

end Enclave.BuildRecord
