import Enclave.Proofs.Bytes
import Enclave.Proofs.Provision.Failures
import Enclave.Proofs.Table
import Enclave.Proofs.Text

/-! # What is known of installed packages

A child lists packages line by line, and what it writes are bytes.  A line that is text, and neither
blank nor a comment, is about one package (`About`), and of several lines about a package the last
one counts.  A table that has all this is a full report (`IsFullFor`).

The output is read as one text, and it is a text exactly if all its lines are
(`decode?_isSome_iff_lines`).  Then the report is full and has nothing else.  A single line that is
not text makes the whole output unreadable, which is not an error: the report is empty, and it is
full only if no line is about a package (`report_installedPackages`). -/

namespace Enclave

/-! ### Lines of bytes -/

namespace Bytes

/-- The byte that ends a line. -/
def feed : UInt8 := 0x0A

theorem feed_not_mem_ofChars {line : List Char} (h : '\n' ∉ line) : feed ∉ ofChars line := by
  have hmem : feed ∈ ofText (.ofList line) ↔ ∃ c ∈ (String.ofList line).toList,
      c.toNat = feed.toNat := mem_ofText (by decide)
  rw [ofText, String.toList_ofList] at hmem
  rw [hmem]
  rintro ⟨c, hc, hfeed⟩
  have hnewline : c = '\n' := Char.toNat_inj.mp hfeed
  exact h (hnewline ▸ hc)

/-- The lines of the bytes of a text are the bytes of the parts between its line feeds. -/
theorem splitOn_ofChars (text : List Char) :
    splitOn feed (ofChars text) = (text.splitOn '\n').map ofChars := by
  induction text using Text.lines_induction with
  | last line hline =>
      rw [List.splitOn_eq_singleton hline, splitOn_of_not_mem _ _ (feed_not_mem_ofChars hline)]
      rfl
  | feed line rest hline ih =>
      have hbytes : ofChars (line ++ '\n' :: rest) = ofChars line ++ feed :: ofChars rest := by
        rw [ofChars_append]
        rfl
      rw [hbytes, splitOn_append_cons _ _ _ (feed_not_mem_ofChars hline), ih,
        Text.splitOn_append_feed, List.splitOn_eq_singleton hline]
      rfl

/-- Texts with line feeds between them are a text. -/
theorem exists_ofChars_joinWith {lines : List Bytes}
    (h : ∀ line ∈ lines, ∃ text, line = ofChars text) :
    ∃ text, joinWith feed lines = ofChars text := by
  induction lines with
  | nil => exact ⟨[], rfl⟩
  | cons line lines ih =>
      obtain ⟨text, rfl⟩ := h line List.mem_cons_self
      cases lines with
      | nil => exact ⟨text, rfl⟩
      | cons next more =>
          obtain ⟨rest, hrest⟩ := ih fun other hother => h other (List.mem_cons_of_mem _ hother)
          refine ⟨text ++ '\n' :: rest, ?_⟩
          rw [joinWith, hrest, ofChars_append]
          · rfl
          · exact List.cons_ne_nil next more

theorem decode?_isSome_iff {bytes : Bytes} :
    (decode? bytes).isSome ↔ ∃ text, bytes = ofChars text := by
  rw [Option.isSome_iff_exists]
  constructor
  · rintro ⟨text, htext⟩
    exact ⟨text, (ofChars_of_decode? htext).symm⟩
  · rintro ⟨text, rfl⟩
    exact ⟨text, decode?_ofChars text⟩

/-- Bytes are a text exactly if each of their lines is. -/
theorem decode?_isSome_iff_lines {bytes : Bytes} :
    (decode? bytes).isSome ↔ ∀ line ∈ splitOn feed bytes, (decode? line).isSome := by
  simp only [decode?_isSome_iff]
  constructor
  · rintro ⟨text, rfl⟩ line hline
    rw [splitOn_ofChars] at hline
    obtain ⟨part, _, rfl⟩ := List.mem_map.mp hline
    exact ⟨part, rfl⟩
  · intro h
    rw [← joinWith_splitOn feed bytes]
    exact exists_ofChars_joinWith h

end Bytes

namespace Venv

open Bytes

variable {location : Path} {limit : Duration} {line front back : List Char} {output : Bytes}
  {name version : String}

/-! ### Packages on lines -/

/-- What a trimmed line says: the package and the version around the first two equals signs, or the
package alone. -/
inductive Names : List Char → String → String → Prop
  | pinned (front back : List Char) :
      (∀ front' back', front ++ '=' :: '=' :: back = front' ++ '=' :: '=' :: back' →
        front.length ≤ front'.length) →
      Names (front ++ '=' :: '=' :: back) (.ofList (Text.trim front)) (.ofList (Text.trim back))
  | bare {line : List Char} : (∀ front back, line ≠ front ++ '=' :: '=' :: back) →
      Names line (.ofList line) ""

/-- Splitting is at the first two equals signs. -/
theorem splitPin_eq_some (h : splitPin line = some (front, back)) :
    line = front ++ '=' :: '=' :: back ∧ ∀ front' back', line = front' ++ '=' :: '=' :: back' →
      front.length ≤ front'.length := by
  fun_induction splitPin line generalizing front with
  | case1 rest =>
      obtain ⟨rfl, rfl⟩ := Prod.mk.inj (Option.some.inj h)
      exact ⟨rfl, fun _ _ _ => Nat.zero_le _⟩
  | case2 c rest hpin ih =>
      obtain ⟨⟨front, back⟩, hsplit, hparts⟩ := Option.map_eq_some_iff.mp h
      obtain ⟨rfl, rfl⟩ := Prod.mk.inj hparts
      obtain ⟨rfl, hfirst⟩ := ih hsplit
      refine ⟨rfl, fun front' back' heq => ?_⟩
      cases front' with
      | nil =>
          obtain ⟨rfl, hrest⟩ := List.cons.inj heq
          exact absurd hrest (hpin _ rfl)
      | cons d front' => exact Nat.succ_le_succ (hfirst front' back' (List.cons.inj heq).2)
  | case3 => cases h

theorem splitPin_eq_none (h : splitPin line = none) (front back : List Char) :
    line ≠ front ++ '=' :: '=' :: back := by
  fun_induction splitPin line generalizing front with
  | case1 rest => cases h
  | case2 c rest hpin ih =>
      intro heq
      cases front with
      | nil =>
          obtain ⟨rfl, hrest⟩ := List.cons.inj heq
          exact absurd hrest (hpin _ rfl)
      | cons d front =>
          exact ih (Option.map_eq_none_iff.mp h) front (List.cons.inj heq).2
  | case3 => cases front <;> exact nofun

theorem names_packageOf (line : List Char) : Names line (packageOf line).1 (packageOf line).2 := by
  rw [packageOf]
  cases hsplit : splitPin line with
  | some parts =>
      obtain ⟨front, back⟩ := parts
      obtain ⟨rfl, hfirst⟩ := splitPin_eq_some hsplit
      exact .pinned front back hfirst
  | none => exact .bare (splitPin_eq_none hsplit)

theorem Names.packageOf_eq (h : Names line name version) : packageOf line = (name, version) := by
  rw [packageOf]
  cases h with
  | pinned front back hfirst =>
      cases hsplit : splitPin (front ++ '=' :: '=' :: back) with
      | none => exact absurd rfl (splitPin_eq_none hsplit front back)
      | some parts =>
          obtain ⟨front', back'⟩ := parts
          obtain ⟨heq, hfirst'⟩ := splitPin_eq_some hsplit
          have hlength : front.length = front'.length :=
            Nat.le_antisymm (hfirst front' back' heq) (hfirst' front back rfl)
          obtain ⟨rfl, hrest⟩ := List.append_inj heq hlength
          obtain rfl := (List.cons.inj (List.cons.inj hrest).2).2
          rfl
  | bare hnone =>
      cases hsplit : splitPin line with
      | none => rfl
      | some parts =>
          obtain ⟨front, back⟩ := parts
          exact absurd (splitPin_eq_some hsplit).1 (hnone front back)

/-- What a line of output says about a package, if it is text, and neither blank nor a comment. -/
def About (line : Bytes) (name version : String) : Prop :=
  ∃ text, decode? line = some text ∧ (∃ c ∈ text, Text.isBlank c = false) ∧
    (Text.trim text).head? ≠ some '#' ∧ Names (Text.trim text) name version

theorem namesPackage_trim_iff (text : List Char) :
    namesPackage (Text.trim text) = true ↔
      (∃ c ∈ text, Text.isBlank c = false) ∧ (Text.trim text).head? ≠ some '#' := by
  have hblank : Text.trim text ≠ [] ↔ ∃ c ∈ text, Text.isBlank c = false := by
    constructor
    · intro hne
      by_contra hnone
      have hall : ∀ c ∈ text, Text.isBlank c := fun c hc => by
        by_contra hc'
        exact hnone ⟨c, hc, Bool.eq_false_iff.mpr hc'⟩
      have hnil : Text.trim ([] ++ text) = Text.trim [] := Text.trim_append_blank hall
      exact hne hnil
    · rintro ⟨c, hc, hshown⟩ hnil
      rw [Text.isBlank_of_trim_eq_nil hnil hc] at hshown
      cases hshown
  rw [← hblank]
  simp [namesPackage]

theorem about_ofChars_iff (text : List Char) :
    About (ofChars text) name version ↔
      namesPackage (Text.trim text) = true ∧ packageOf (Text.trim text) = (name, version) := by
  rw [About, decode?_ofChars, namesPackage_trim_iff]
  constructor
  · rintro ⟨other, hread, hshown, hhead, hnames⟩
    obtain rfl := Option.some.inj hread
    exact ⟨⟨hshown, hhead⟩, hnames.packageOf_eq⟩
  · rintro ⟨⟨hshown, hhead⟩, hpackage⟩
    have hnames := names_packageOf (Text.trim text)
    rw [hpackage] at hnames
    exact ⟨text, rfl, hshown, hhead, hnames⟩

/-! ### The packages of a text -/

/-- What lines say about packages, in order. -/
def entriesOf (lines : List (List Char)) : List (String × String) :=
  ((lines.map Text.trim).filter namesPackage).map packageOf

theorem entriesOf_append (lines more : List (List Char)) :
    entriesOf (lines ++ more) = entriesOf lines ++ entriesOf more := by
  rw [entriesOf, List.map_append, List.filter_append, List.map_append]
  rfl

theorem mem_entriesOf_iff {lines : List (List Char)} :
    (name, version) ∈ entriesOf lines ↔ ∃ line ∈ lines, About (ofChars line) name version := by
  simp only [entriesOf, List.mem_map, List.mem_filter, about_ofChars_iff]
  constructor
  · rintro ⟨_, ⟨⟨line, hline, rfl⟩, hnames⟩, hpackage⟩
    exact ⟨line, hline, hnames, hpackage⟩
  · rintro ⟨line, hline, hnames, hpackage⟩
    exact ⟨_, ⟨⟨line, hline, rfl⟩, hnames⟩, hpackage⟩

theorem packagesOf_ofList (text : List Char) :
    packagesOf (.ofList text) = .ofList (entriesOf (text.splitOn '\n')) := by
  rw [packagesOf, String.toList_ofList, Text.filter_trim_lines rfl]
  rfl

/-! ### Full reports -/

/-- Whether a table has what the last line about each package says. -/
def IsFullFor (table : Table String) (output : Bytes) : Prop :=
  ∀ front line back name version, splitOn feed output = front ++ line :: back →
    About line name version → (∀ later ∈ back, ∀ other, ¬ About later name other) →
    table.get? name = some version

/-- The packages of a text are all that its lines say. -/
theorem isFullFor_packagesOf (text : List Char) :
    IsFullFor (packagesOf (.ofList text)) (ofChars text) := by
  intro front line back name version hlines habout hlast
  rw [splitOn_ofChars] at hlines
  obtain ⟨before, rest, hparts, rfl, hrest⟩ := List.map_eq_append_iff.mp hlines
  obtain ⟨part, after, rfl, rfl, rfl⟩ := List.map_eq_cons_iff.mp hrest
  have hentry : entriesOf [part] = [(name, version)] := by
    obtain ⟨hnames, hpackage⟩ := (about_ofChars_iff part).mp habout
    simp [entriesOf, hnames, hpackage]
  have hafter : ∀ other, (name, other) ∉ entriesOf after := by
    intro other hmem
    obtain ⟨later, hlater, habout⟩ := mem_entriesOf_iff.mp hmem
    exact hlast _ (List.mem_map_of_mem hlater) other habout
  have hentries : entriesOf (before ++ part :: after) =
      entriesOf before ++ (name, version) :: entriesOf after := by
    rw [entriesOf_append, ← List.singleton_append, entriesOf_append, hentry]
    rfl
  rw [packagesOf_ofList, hparts, hentries, Table.get?_ofList_append_cons hafter]

/-- The packages of a text are on its lines. -/
theorem exists_about_of_get? {text : List Char}
    (h : (packagesOf (.ofList text)).get? name = some version) :
    ∃ line ∈ splitOn feed (ofChars text), About line name version := by
  rw [packagesOf_ofList] at h
  obtain ⟨line, hline, habout⟩ := mem_entriesOf_iff.mp (Table.mem_of_get?_ofList h)
  exact ⟨ofChars line, splitOn_ofChars text ▸ List.mem_map_of_mem hline, habout⟩

/-- Of the lines about a package one is the last. -/
theorem exists_last_about {lines : List Bytes}
    (h : ∃ line ∈ lines, ∃ version, About line name version) :
    ∃ front line back version, lines = front ++ line :: back ∧ About line name version ∧
      ∀ later ∈ back, ∀ other, ¬ About later name other := by
  induction lines with
  | nil => simp at h
  | cons line lines ih =>
      by_cases hmore : ∃ later ∈ lines, ∃ version, About later name version
      · obtain ⟨front, last, back, version, rfl, hlast⟩ := ih hmore
        exact ⟨line :: front, last, back, version, rfl, hlast⟩
      · obtain ⟨last, hmem, version, habout⟩ := h
        have hlater : ∀ later ∈ lines, ∀ other, ¬ About later name other :=
          fun later hlater other habout => hmore ⟨later, hlater, other, habout⟩
        rcases List.mem_cons.mp hmem with rfl | hmem
        · exact ⟨[], last, lines, version, rfl, habout, hlater⟩
        · exact absurd habout (hlater last hmem version)

theorem isFullFor_empty_iff :
    IsFullFor .empty output ↔
      ∀ line ∈ splitOn feed output, ∀ name version, ¬ About line name version := by
  constructor
  · intro hfull line hline name version habout
    obtain ⟨front, last, back, other, hlines, hlast, hlater⟩ :=
      exists_last_about ⟨line, hline, version, habout⟩
    cases hfull front last back name other hlines hlast hlater
  · intro hnone front line back name version hlines habout _
    refine absurd habout (hnone line ?_ name version)
    rw [hlines]
    exact List.mem_append_right _ List.mem_cons_self

/-! ### Reports -/

/-- What a report has of the output of a child that has listed the packages. -/
structure Reported (table : Table String) (output : Bytes) : Prop where
  /-- It is full if the output is text, and otherwise only if there is nothing to report. -/
  full_iff : IsFullFor table output ↔
    (∀ line ∈ splitOn feed output, (decode? line).isSome) ∨
      ∀ line ∈ splitOn feed output, ∀ name version, ¬ About line name version
  /-- It has only what is on some line. -/
  listed : ∀ name version, table.get? name = some version →
    ∃ line ∈ splitOn feed output, About line name version
  /-- One line that is not text empties it. -/
  lost : (∃ line ∈ splitOn feed output, decode? line = none) → table = .empty

theorem reported_packagesOf (output : Bytes) :
    Reported (packagesOf (output.text?.getD "")) output := by
  cases hread : decode? output with
  | some text =>
      obtain rfl := ofChars_of_decode? hread
      have htext : (text? (ofChars text)).getD "" = .ofList text := by rw [text?, hread]; rfl
      have hall : ∀ line ∈ splitOn feed (ofChars text), (decode? line).isSome :=
        decode?_isSome_iff_lines.mp (by rw [hread]; rfl)
      rw [htext]
      refine ⟨⟨fun _ => .inl hall, fun _ => isFullFor_packagesOf text⟩,
        fun _ _ => exists_about_of_get?, ?_⟩
      rintro ⟨line, hline, hnone⟩
      have hsome := hall line hline
      rw [hnone] at hsome
      cases hsome
  | none =>
      have htext : (text? output).getD "" = "" := by rw [text?, hread]; rfl
      have hempty : packagesOf "" = .empty := rfl
      rw [htext, hempty]
      refine ⟨isFullFor_empty_iff.trans ⟨.inr, ?_⟩, ?_, fun _ => rfl⟩
      · rintro (hall | hnothing)
        · have hsome := decode?_isSome_iff_lines.mpr hall
          rw [hread] at hsome
          cases hsome
        · exact hnothing
      · intro name version hget
        cases hget

/-- **A report is full or empty.**  If the child that lists the packages exits with code 0 in time,
there is a report, whatever the child has written.  It is full if every line is text; but if one is
not, it is empty, and every package on the other lines is lost. -/
theorem report_installedPackages {children : Children} {world : World} {stdout stderr : Bytes}
    (hrun : (children (freezeCommand location) limit world).1 =
      .ok (.ofEnded (.exited 0) stdout stderr)) :
    ∃ table, ((installedPackages location limit).run (handleWith children) world).1 = .ok table ∧
      Reported table stdout := by
  refine ⟨packagesOf (stdout.text?.getD ""), ?_, reported_packagesOf stdout⟩
  have hanswer : (Procedure.request (.run (freezeCommand location) limit)).run
      (handleWith children) world = children (freezeCommand location) limit world := rfl
  rw [installedPackages]
  change (Procedure.run _ (Procedure.bind _ _) _).1 = _
  rw [Procedure.run_bind, ask, hanswer, hrun]
  rfl

/-! ### A world with a list of packages -/

/-- A world with an environment whose interpreter writes out a file. -/
def withListing (listing : Bytes) : World where
  files := ⟨[(.ofText "/e", .directory 1), (.ofText "/e/bin", .directory 2),
    (.ofText "/e/bin/python", .file 3 ⟨Bytes.ofText "#!/bin/sh\ncat /listing\n", 0⟩ true),
    (.ofText "/listing", .file 4 ⟨listing, 0⟩ false), (.ofText "/bin", .directory 5),
    (.ofText "/bin/sh", .program "sh"), (.ofText "/bin/cat", .program "cat")], 6⟩
  cwd := []
  cwdId := 0
  environ := Table.set .empty "PATH" (Bytes.ofText "/bin")

/-- What the interpreter of this environment comes to. -/
def freezeOf (listing : Bytes) : Except Explanation BoundedOutput :=
  (ChildCommand.runBounded (freezeCommand (.ofText "/e")) (.ofMillis 1000) (withListing listing)).1

/-- The packages of this environment. -/
def installedOf (listing : Bytes) : Except Explanation (Table String) :=
  ((installedPackages (.ofText "/e") (.ofMillis 1000)).run (handleWith ChildCommand.runBounded)
    (withListing listing)).1

/-- A listing of text is reported in full. -/
theorem report_installedPackages_text :
    let listing := Bytes.ofText "# pinned\nnumpy==1.26\n-e ../x\nnumpy == 2.0\n"
    freezeOf listing = .ok (.ofEnded (.exited 0) listing []) ∧
      ∃ table, installedOf listing = .ok table ∧ IsFullFor table listing := by
  intro listing
  have hrun : freezeOf listing = .ok (.ofEnded (.exited 0) listing []) := by decide +kernel
  obtain ⟨table, htable, hreported⟩ := report_installedPackages hrun
  exact ⟨hrun, table, htable, hreported.full_iff.mpr (.inl (by decide +kernel))⟩

/-- With a line that is not text, the package on the other line is lost. -/
theorem not_isFullFor_installedOf :
    let listing := Bytes.ofText "numpy==1.26.4\n" ++ [0xFF, 0x0A]
    freezeOf listing = .ok (.ofEnded (.exited 0) listing []) ∧
      ∃ table, installedOf listing = .ok table ∧ ¬ IsFullFor table listing := by
  intro listing
  have hrun : freezeOf listing = .ok (.ofEnded (.exited 0) listing []) := by decide +kernel
  have htable : installedOf listing = .ok .empty := by decide +kernel
  have habout : About (Bytes.ofChars "numpy==1.26.4".toList) "numpy" "1.26.4" :=
    (about_ofChars_iff _).mpr (by decide +kernel)
  refine ⟨hrun, .empty, htable, fun hfull => ?_⟩
  exact isFullFor_empty_iff.mp hfull _ (by decide +kernel) _ _ habout

end Venv
end Enclave
