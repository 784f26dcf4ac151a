import Enclave.Proofs.Fingerprint
import Enclave.Proofs.Requirements.Lines

/-! # Loaded requirements

Merging lines keeps the first of every repeated line (`merge_eraseDups`), so the lines that are
loaded from files are those of the readable ones in order without repetitions (`load_eq`).  They
depend on the requirement lines of the texts only, and so does the fingerprint: changes of the files
that keep what they require, and more files with nothing new, leave it as it is
(`load_normalized`). -/

namespace Enclave.Requirements

variable {world world' : World} {files files' more : List Path}

/-! ### Merging -/

/-- One more line is kept unless it was there. -/
theorem eraseDups_concat (lines : List String) (line : String) :
    (lines ++ [line]).eraseDups =
      if lines.eraseDups.contains line then lines.eraseDups else lines.eraseDups ++ [line] := by
  rw [List.eraseDups_append]
  by_cases hmem : line ∈ lines
  · have hknown : lines.eraseDups.contains line = true := by simpa using hmem
    have hnone : [line].removeAll lines = [] := by simp [List.removeAll, hmem]
    rw [hnone, if_pos hknown, List.eraseDups_nil, List.append_nil]
  · have hnew : lines.eraseDups.contains line = false := by simpa using hmem
    have hall : [line].removeAll lines = [line] := by simp [List.removeAll, hmem]
    rw [hall, hnew, if_neg Bool.false_ne_true]
    rfl

/-- Merging keeps the first of every repeated line. -/
theorem merge_eraseDups (lines new : List String) :
    merge lines.eraseDups new = (lines ++ new).eraseDups := by
  induction new generalizing lines with
  | nil => rw [List.append_nil, merge, List.foldl_nil]
  | cons line new ih =>
      rw [merge, List.foldl_cons, ← eraseDups_concat, ← merge, ih, List.append_assoc,
        List.singleton_append]

/-- Lines that occurred already add nothing. -/
theorem eraseDups_append_of_subset {lines more : List String} (h : more ⊆ lines) :
    (lines ++ more).eraseDups = lines.eraseDups := by
  have hnone : more.removeAll lines = [] := by
    rw [List.removeAll, List.filter_eq_nil_iff]
    intro line hline
    simpa using h hline
  rw [List.eraseDups_append, hnone, List.eraseDups_nil, List.append_nil]

/-! ### Loading -/

/-- The text of a file that can be read. -/
def textOf? (world : World) (file : Path) : Option String :=
  (world.readText file).toOption

/-- The requirement lines of the readable files, one file after the other. -/
def allLines (world : World) (files : List Path) : List String :=
  (files.filterMap (textOf? world)).flatMap parseLines

theorem allLines_append (files more : List Path) :
    allLines world (files ++ more) = allLines world files ++ allLines world more := by
  rw [allLines, List.filterMap_append, List.flatMap_append]
  rfl

theorem allLines_cons (file : Path) (files : List Path) :
    allLines world (file :: files) = allLines world [file] ++ allLines world files :=
  allLines_append [file] files

/-- One more file adds its lines to those that were loaded and itself to the sources, if it can be
read. -/
theorem loadNext_fst {state : Requirements × List Event} (done : List Path) (file : Path)
    (h : state.1 = ⟨done.filter fun file => (textOf? world file).isSome,
      (allLines world done).eraseDups⟩) :
    (loadNext world state file).1 =
      ⟨(done ++ [file]).filter fun file => (textOf? world file).isSome,
        (allLines world (done ++ [file])).eraseDups⟩ := by
  rw [loadNext]
  cases hread : world.readText file with
  | ok text =>
      have htext : textOf? world file = some text := by rw [textOf?, hread]; rfl
      have hlines : allLines world [file] = parseLines text := by simp [allLines, htext]
      simp only [add, h]
      rw [merge_eraseDups, allLines_append, hlines, List.filter_append]
      simp [htext]
  | error e =>
      have htext : textOf? world file = none := by rw [textOf?, hread]; rfl
      have hlines : allLines world [file] = [] := by simp [allLines, htext]
      rw [allLines_append, hlines, List.append_nil, List.filter_append]
      simp [h, htext]

/-- The loaded lines are those of the readable files in order, each at its first occurrence, and the
sources are the readable files. -/
theorem load_eq (world : World) (files : List Path) :
    (load world files).1 =
      ⟨files.filter fun file => (textOf? world file).isSome,
        (allLines world files).eraseDups⟩ := by
  have hfold : ∀ (rest done : List Path) (state : Requirements × List Event),
      state.1 = ⟨done.filter fun file => (textOf? world file).isSome,
        (allLines world done).eraseDups⟩ →
      (rest.foldl (loadNext world) state).1 =
        ⟨(done ++ rest).filter fun file => (textOf? world file).isSome,
          (allLines world (done ++ rest)).eraseDups⟩ := by
    intro rest
    induction rest with
    | nil =>
        intro done state h
        rw [List.append_nil]
        exact h
    | cons file rest ih =>
        intro done state h
        have hstep := ih (done ++ [file]) _ (loadNext_fst done file h)
        rwa [List.append_assoc] at hstep
  exact hfold files [] _ rfl

/-! ### Changed files -/

/-- Whether files of two worlds differ by changes that keep what they require: in each place both
cannot be read, or both can and one text is led to the other. -/
def SameRequired (world world' : World) (files files' : List Path) : Prop :=
  List.Forall₂ (fun file file' => Option.Rel Edited (textOf? world file) (textOf? world' file'))
    files files'

/-- Whether files hold only requirement lines that other files hold already. -/
def NothingNew (world : World) (files more : List Path) : Prop :=
  ∀ file ∈ more, ∀ text ∈ textOf? world file, parseLines text ⊆ allLines world files

theorem allLines_eq_of_sameRequired (h : SameRequired world world' files files') :
    allLines world' files' = allLines world files := by
  induction h with
  | nil => rfl
  | @cons file file' files files' hfile _ ih =>
      have hhead : allLines world' [file'] = allLines world [file] := by
        simp only [allLines, List.filterMap_cons, List.filterMap_nil]
        generalize textOf? world file = text, textOf? world' file' = text' at hfile
        cases hfile with
        | none => rfl
        | some hedited => simp [edited_iff.mp hedited]
      rw [allLines_cons, hhead, ih, ← allLines_cons]

theorem allLines_subset_of_nothingNew (h : NothingNew world files more) :
    allLines world more ⊆ allLines world files := by
  intro line hline
  obtain ⟨text, htext, hmem⟩ := List.mem_flatMap.mp hline
  obtain ⟨file, hfile, hread⟩ := List.mem_filterMap.mp htext
  exact h file hfile text hread hmem

theorem load_lines_append_of_nothingNew (h : NothingNew world files more) :
    (load world (files ++ more)).1.lines = (load world files).1.lines := by
  rw [load_eq, load_eq, allLines_append]
  exact eraseDups_append_of_subset (allLines_subset_of_nothingNew h)

/-! ### Normalization -/

/-- What the requirement lines of a text do not depend on. -/
structure Stable (text : String) : Prop where
  /-- Changes of line ends, of lines that require nothing, of the end of the last line and of blank
  characters around lines make no difference, and nothing but these does so. -/
  edited : ∀ text', Edited text text' ↔ parseLines text' = parseLines text
  /-- All line ends can be given a carriage return. -/
  returns : parseLines (withReturns text) = parseLines text
  /-- The requirement lines come back when they are written out. -/
  written : parseLines ("\n".intercalate (parseLines text)) = parseLines text

/-- What is loaded from files, and what it does not depend on. -/
structure Normalized (world : World) (files : List Path) : Prop where
  /-- The lines are those of the readable files in order, each at its first occurrence. -/
  lines : (load world files).1.lines = (allLines world files).eraseDups
  /-- The sources are the readable files in order. -/
  sources : (load world files).1.sources = files.filter fun file => (textOf? world file).isSome
  /-- Files with nothing new change no line. -/
  appended : ∀ more, NothingNew world files more →
    (load world (files ++ more)).1.lines = (load world files).1.lines
  /-- Files that require the same, and files with nothing new after them, have the fingerprint. -/
  fingerprint : ∀ interpreter world' files' more, SameRequired world world' files files' →
    NothingNew world' files' more →
    Fingerprint.compute interpreter (load world' (files' ++ more)).1 =
      Fingerprint.compute interpreter (load world files).1

/-- **Requirements are normalized.**  The requirement lines of a text are the same after exactly
those changes that concern line ends, blank lines, comments and white space around lines, among them
the conversion of all line ends and writing out the lines themselves.  What is loaded from files are
the lines of the readable ones in order without repetitions, so none of these changes, and no file
without new lines after the others, changes the fingerprint. -/
theorem load_normalized :
    (∀ text, Stable text) ∧ ∀ world files, Normalized world files := by
  refine ⟨fun text => ?_, fun world files => ?_⟩
  · exact ⟨fun _ => edited_iff, edited_iff.mp (edited_withReturns text),
      parseLines_intercalate text⟩
  · have hlines : (load world files).1.lines = (allLines world files).eraseDups := by rw [load_eq]
    have hsources : (load world files).1.sources =
        files.filter fun file => (textOf? world file).isSome := by rw [load_eq]
    refine ⟨hlines, hsources, fun _ => load_lines_append_of_nothingNew, ?_⟩
    intro interpreter world' files' more hsame hnew
    have heq : (load world' (files' ++ more)).1.lines = (load world files).1.lines := by
      rw [load_lines_append_of_nothingNew hnew, load_eq, hlines, allLines_eq_of_sameRequired hsame]
    rw [Fingerprint.compute, Fingerprint.compute, heq]

/-- A comment, other line ends, spaces and the same file once more keep the fingerprint. -/
theorem load_normalized_comment :
    let file := Path.ofText "/r"
    let world := Fingerprint.withFile "numpy\n"
    let world' := Fingerprint.withFile "# pinned\r\n numpy \r\n"
    SameRequired world world' [file] [file] ∧ NothingNew world' [file] [file] ∧
      Fingerprint.compute "python3" (load world' [file, file]).1 =
        Fingerprint.compute "python3" (load world [file]).1 := by
  intro file world world'
  have htext : textOf? world file = some "numpy\n" := by decide +kernel
  have htext' : textOf? world' file = some "# pinned\r\n numpy \r\n" := by decide +kernel
  have hsame : SameRequired world world' [file] [file] := by
    refine .cons ?_ .nil
    rw [htext, htext']
    exact .some (edited_iff.mpr (by decide +kernel))
  have hnew : NothingNew world' [file] [file] := by
    intro other hother text hread line hline
    obtain rfl := List.mem_singleton.mp hother
    exact List.mem_flatMap.mpr ⟨text, List.mem_filterMap.mpr ⟨file, hother, hread⟩, hline⟩
  have hnormal : Normalized world [file] := load_normalized.2 world [file]
  exact ⟨hsame, hnew, hnormal.fingerprint "python3" world' [file] [file] hsame hnew⟩

end Enclave.Requirements
