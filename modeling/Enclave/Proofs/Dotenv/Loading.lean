import Enclave.Proofs.Dotenv.Reading
import Enclave.Proofs.Environ

/-! # Loading a file of variables

Of several assignments to one key the first counts, and it is performed unless the variable is set
to a text already (`get?_assignAll`).  So a variable that is set keeps its bytes, unless they are no
text and the file assigns to it (`get?_load_eq_iff`).  What a file assigns always has a key that is
not empty and free of `=` (`of_mem_assignments`), so loading is refused only for a NUL
(`load_refusals`). -/

namespace Enclave.Dotenv

variable {env after : Environ} {entries : List (String × String)} {key value : String}

/-! ### What is pending -/

/-- What the entries of a file come to for a key: nothing if the variable is set to a text. -/
def pending? (env : Environ) (entries : List (String × String)) (key : String) : Option String :=
  if (env.text? key).isSome then none else entries.lookup key

theorem pending?_of_text (h : (env.text? key).isSome) : pending? env entries key = none := if_pos h

theorem pending?_of_none (h : env.text? key = none) :
    pending? env entries key = entries.lookup key := by
  rw [pending?, if_neg (by rw [h]; decide)]

theorem text?_put (env : Environ) (key value other : String) :
    Environ.text? (env.put key (some (Bytes.ofText value))) other =
      if other = key then some value else env.text? other := by
  rw [Environ.text?, Table.get?_put]
  by_cases heq : other = key
  · simp [heq, Bytes.text?_ofText]
  · simp [heq, Environ.text?]

/-- An entry that was performed leaves nothing pending for its key. -/
theorem pending?_put (env : Environ) (entries : List (String × String)) (key value other : String) :
    pending? (env.put key (some (Bytes.ofText value))) entries other =
      if other = key then none else pending? env entries other := by
  rw [pending?, text?_put]
  split
  · rfl
  · rw [pending?]

/-- An entry for a variable that is set to a text comes to nothing. -/
theorem pending?_cons_of_text (h : (env.text? key).isSome) (value other : String) :
    pending? env ((key, value) :: entries) other = pending? env entries other := by
  rw [pending?, pending?]
  split
  · rfl
  · next hother =>
      have hne : (other == key) = false := by
        rw [beq_eq_false_iff_ne]
        rintro rfl
        exact hother h
      rw [List.lookup_cons, hne]

/-- The first entry for any other variable counts. -/
theorem pending?_cons_of_none (h : env.text? key = none) (value other : String) :
    pending? env ((key, value) :: entries) other =
      if other = key then some value else pending? env entries other := by
  split
  · next heq =>
      subst heq
      rw [pending?_of_none h, List.lookup_cons, beq_self_eq_true]
  · next hne =>
      rw [pending?, pending?, List.lookup_cons, beq_eq_false_iff_ne.mpr hne]

/-! ### Performing assignments -/

theorem assign_of_text (h : (env.text? key).isSome) : assign env key value = .ok env := by
  rw [assign, if_pos h]

theorem assign_of_none (h : env.text? key = none) :
    assign env key value = Environ.assign env key (some (Bytes.ofText value)) := by
  rw [assign, if_neg (by rw [h]; decide)]

/-- A variable gets what is pending for it, or else keeps what it has. -/
theorem get?_assignAll (h : assignAll env entries = (none, after)) (key : String) :
    after.get? key = ((pending? env entries key).map Bytes.ofText).or (env.get? key) := by
  induction entries generalizing env with
  | nil =>
      obtain ⟨_, rfl⟩ := Prod.mk.inj h
      rw [pending?]
      split <;> rfl
  | cons entry entries ih =>
      obtain ⟨first, value⟩ := entry
      rw [assignAll] at h
      cases htext : env.text? first with
      | some text =>
          have hsome : (env.text? first).isSome := by rw [htext]; rfl
          rw [assign_of_text hsome] at h
          rw [ih h, pending?_cons_of_text hsome]
      | none =>
          rw [assign_of_none htext] at h
          cases hassign : Environ.assign env first (some (Bytes.ofText value)) with
          | error refusal => simp [hassign] at h
          | ok next =>
              rw [hassign] at h
              obtain ⟨_, rfl⟩ := Environ.assign_eq_ok_iff.mp hassign
              rw [ih h, pending?_cons_of_none htext, pending?_put, Table.get?_put]
              by_cases heq : key = first
              · simp [heq]
              · simp [heq]

/-- Performing assignments is refused if one that is pending is. -/
theorem isSome_assignAll_iff (env : Environ) (entries : List (String × String)) :
    (assignAll env entries).1.isSome ↔ ∃ key value, pending? env entries key = some value ∧
      ¬ Environ.Admissible (key, some (Bytes.ofText value)) := by
  induction entries generalizing env with
  | nil =>
      refine iff_of_false nofun ?_
      rintro ⟨key, value, hpending, _⟩
      rw [pending?] at hpending
      split at hpending <;> cases hpending
  | cons entry entries ih =>
      obtain ⟨first, value⟩ := entry
      rw [assignAll]
      cases htext : env.text? first with
      | some text =>
          have hsome : (env.text? first).isSome := by rw [htext]; rfl
          simp only [assign_of_text hsome, ih, pending?_cons_of_text hsome]
      | none =>
          simp only [assign_of_none htext, pending?_cons_of_none htext]
          cases hassign : Environ.assign env first (some (Bytes.ofText value)) with
          | error refusal =>
              refine iff_of_true rfl ⟨first, value, if_pos rfl, fun hadmissible => ?_⟩
              rw [Environ.assign_eq_ok_iff.mpr ⟨hadmissible, rfl⟩] at hassign
              cases hassign
          | ok next =>
              obtain ⟨hadmissible, rfl⟩ := Environ.assign_eq_ok_iff.mp hassign
              simp only [ih, pending?_put]
              constructor
              · rintro ⟨key, text, hpending, hnot⟩
                split at hpending
                · cases hpending
                · next hne => exact ⟨key, text, by rwa [if_neg hne], hnot⟩
              · rintro ⟨key, text, hpending, hnot⟩
                split at hpending
                · next heq =>
                    subst heq
                    obtain rfl := Option.some.inj hpending
                    exact absurd hadmissible hnot
                · next hne => exact ⟨key, text, by rwa [if_neg hne], hnot⟩

/-! ### Files -/

/-- What the file of a directory assigns.  A file that cannot be read assigns nothing. -/
def assignments (directory : Path) (world : World) : List (String × String) :=
  match world.readText (directory.child fileName) with
  | .error _ => []
  | .ok text => parse text

theorem load_eq (directory : Path) (world : World) :
    (load directory world).1 = (assignAll world.environ (assignments directory world)).1 ∧
      (load directory world).2.environ =
        (assignAll world.environ (assignments directory world)).2 := by
  rw [load, assignments]
  cases world.readText (directory.child fileName) with
  | error cause => exact ⟨rfl, rfl⟩
  | ok text =>
      dsimp only
      split
      · next hrefused => rw [hrefused]; exact ⟨rfl, rfl⟩
      · next hdone => rw [hdone]; exact ⟨rfl, rfl⟩

variable {directory : Path} {world : World}

/-- Once the file of a directory is loaded, a variable that was set has the bytes that it had
exactly if they are a text or the file does not assign to it. -/
theorem get?_load_eq_iff (h : (load directory world).1 = none) {bytes : Bytes}
    (hset : world.environ.get? key = some bytes) :
    (load directory world).2.environ.get? key = some bytes ↔
      bytes.text?.isSome ∨ key ∉ (assignments directory world).map Prod.fst := by
  have hhad : world.environ.text? key = bytes.text? := by
    rw [Environ.text?, hset]
    rfl
  obtain ⟨hrefusal, henviron⟩ := load_eq directory world
  have hget := get?_assignAll (Prod.ext (hrefusal ▸ h) henviron.symm) key
  rw [hget, hset]
  cases htext : bytes.text? with
  | some text =>
      rw [htext] at hhad
      rw [pending?_of_text (by rw [hhad]; rfl)]
      exact iff_of_true rfl (.inl rfl)
  | none =>
      rw [htext] at hhad
      rw [pending?_of_none hhad]
      cases hlookup : (assignments directory world).lookup key with
      | none => exact iff_of_true rfl (.inr (Table.get?_eq_none_iff.mp hlookup))
      | some value =>
          refine iff_of_false (fun hsame => ?_) (not_or_intro nofun fun hnot => ?_)
          · rw [← Option.some.inj hsame, Bytes.text?_ofText] at htext
            cases htext
          · exact nomatch hlookup.symm.trans (Table.get?_eq_none_iff.mpr hnot)

/-! ### Refusals -/

/-- What a file assigns has a key that is not empty and free of `=`. -/
theorem of_mem_assignments {entry : String × String} (h : entry ∈ assignments directory world) :
    entry.1.toList ≠ [] ∧ '=' ∉ entry.1.toList := by
  rw [assignments] at h
  split at h
  · cases h
  · obtain ⟨line, _, hline⟩ := List.mem_filterMap.mp h
    obtain ⟨⟨key, value⟩, hparse, rfl⟩ := Option.map_eq_some_iff.mp hline
    rw [String.toList_ofList]
    exact of_parseLine hparse

/-- An assignment of a file can be refused only for a NUL. -/
theorem admissible_iff (h : (key, value) ∈ assignments directory world) :
    Environ.Admissible (key, some (Bytes.ofText value)) ↔
      '\x00' ∉ key.toList ∧ '\x00' ∉ value.toList := by
  obtain ⟨hne, hequals⟩ := of_mem_assignments h
  rw [Environ.Admissible, Environ.validKey_iff, Option.all_some, Environ.validValue_ofText_iff]
  exact and_congr_left' ((and_iff_right hne).trans (and_iff_right hequals))

/-- Every key that the file of a directory assigns to is allowed but for a NUL, and loading the file
is refused exactly if there is a NUL in the first assignment to some key for which no text is
set. -/
theorem load_refusals (directory : Path) (world : World) :
    (∀ entry ∈ assignments directory world, entry.1.toList ≠ [] ∧ '=' ∉ entry.1.toList) ∧
      ((load directory world).1.isSome ↔
        ∃ key value, (assignments directory world).lookup key = some value ∧
          world.environ.text? key = none ∧ ('\x00' ∈ key.toList ∨ '\x00' ∈ value.toList)) := by
  refine ⟨fun entry => of_mem_assignments, ?_⟩
  rw [(load_eq directory world).1, isSome_assignAll_iff]
  refine exists₂_congr fun key value => ?_
  have hrefused : (assignments directory world).lookup key = some value →
      (¬ Environ.Admissible (key, some (Bytes.ofText value)) ↔
        '\x00' ∈ key.toList ∨ '\x00' ∈ value.toList) := by
    intro hlookup
    obtain ⟨front, back, hentries, _⟩ := List.lookup_eq_some_iff.mp hlookup
    have hmem : (key, value) ∈ assignments directory world := by simp [hentries]
    rw [admissible_iff hmem, not_and_or, not_not, not_not]
  cases htext : world.environ.text? key with
  | some text => simp [pending?_of_text, htext]
  | none =>
      rw [pending?_of_none htext, ← and_assoc, and_iff_left rfl]
      exact and_congr_right hrefused

/-! ### Some files -/

/-- A world with one variable and with a file of variables at its top. -/
def sampleWorld (value : Bytes) (text : String) : World :=
  { files := ⟨[([Bytes.ofText fileName], .file 1 ⟨Bytes.ofText text, 0⟩ false)], 2⟩
    cwd := []
    cwdId := 0
    environ := .ofList [("A", value)] }

/-- The path of the top. -/
def topPath : Path := .ofText "/"

theorem readText_sampleWorld (value : Bytes) (text : String) :
    (sampleWorld value text).readText (topPath.child fileName) = .ok text := by
  have hbytes : (sampleWorld value text).files.readBytes (sampleWorld value text).base
      (topPath.child fileName) = .ok (Bytes.ofText text ++ []) := rfl
  rw [World.readText, FileSystem.readText, hbytes, List.append_nil]
  simp only [Bytes.text?_ofText]

theorem assignments_sampleWorld (value : Bytes) (text : String) :
    assignments topPath (sampleWorld value text) = parse text := by
  rw [assignments, readText_sampleWorld]

theorem text?_sampleWorld (value : Bytes) (text : String) :
    (sampleWorld value text).environ.text? "A" = value.text? := rfl

theorem get?_load_eq_iff_text :
    (load topPath (sampleWorld (Bytes.ofText "1") "A=2\n")).1 = none ∧
      (load topPath (sampleWorld (Bytes.ofText "1") "A=2\n")).2.environ.get? "A" =
        some (Bytes.ofText "1") := by
  have htext := Bytes.text?_ofText "1"
  have hload : (load topPath (sampleWorld (Bytes.ofText "1") "A=2\n")).1 = none := by
    have hparse : parse "A=2\n" = [("A", "2")] := by decide
    rw [(load_eq _ _).1, assignments_sampleWorld, hparse, assignAll, assign_of_text]
    · rfl
    · rw [text?_sampleWorld, htext]
      rfl
  exact ⟨hload, (get?_load_eq_iff hload rfl).mpr (.inl (by rw [htext]; rfl))⟩

/-- Loading can change a variable that was set. -/
theorem not_get?_load_eq :
    ¬ ∀ (directory : Path) (world : World) (key : String) (bytes : Bytes),
      (load directory world).1 = none → world.environ.get? key = some bytes →
      (load directory world).2.environ.get? key = some bytes := by
  intro h
  have hparse : parse "A=2\n" = [("A", "2")] := by decide
  have htext : Bytes.text? [0xFF] = none := by cbv
  have hload : assignAll (sampleWorld [0xFF] "A=2\n").environ [("A", "2")] =
      (none, (sampleWorld [0xFF] "A=2\n").environ.put "A" (some (Bytes.ofText "2"))) := by
    rw [assignAll, assign_of_none (by rw [text?_sampleWorld, htext]),
      Environ.assign_eq_ok_iff.mpr ⟨⟨Environ.validKey_iff.mpr (by decide), by decide⟩, rfl⟩]
    rfl
  have hkept := h topPath (sampleWorld [0xFF] "A=2\n") "A" [0xFF]
  rw [(load_eq _ _).1, (load_eq _ _).2, assignments_sampleWorld, hparse, hload,
    Table.get?_put] at hkept
  exact absurd (hkept rfl rfl) (by decide)

/-- Loading can be refused. -/
theorem not_load_eq_none :
    ¬ ∀ (directory : Path) (world : World), (load directory world).1 = none := by
  intro h
  have hparse : parse "B\x00=2\n" = [("B\x00", "2")] := by decide
  have hloaded := h topPath (sampleWorld (Bytes.ofText "1") "B\x00=2\n")
  rw [(load_eq _ _).1, assignments_sampleWorld, hparse, assignAll, assign_of_none rfl] at hloaded
  cases hassign : Environ.assign (sampleWorld (Bytes.ofText "1") "B\x00=2\n").environ "B\x00"
      (some (Bytes.ofText "2")) with
  | error refusal => simp [hassign] at hloaded
  | ok env =>
      have hkey := (Environ.assign_eq_ok_iff.mp hassign).1.1
      exact (Environ.validKey_iff.mp hkey).2.2 (by decide)

end Enclave.Dotenv
