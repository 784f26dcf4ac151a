import Enclave.Proofs.Dotenv.Loading

/-! # Files of variables that are read back

A sheet is a file of variables as it is written: assignments of values in quotes between blank lines
and comments, with either line end.  It is read back as its assignments (`parse_text`), whatever the
values hold beside line feeds, so loading it sets exactly their variables (`load_sheet`). -/

namespace Enclave.Dotenv

open Text

/-! ### Lines -/

/-- An assignment of a value in quotes. -/
structure Assignment where
  indent : List Char
  exported : Bool
  key : String
  quote : Char
  value : String

/-- A line of a sheet: an assignment, or a blank line or a comment. -/
inductive SheetLine
  | assigns (assignment : Assignment)
  | remark (text : List Char)

namespace Assignment

/-- An assignment as it is written. -/
def text (assignment : Assignment) : List Char :=
  assignment.indent ++ declared assignment.exported assignment.key.toList ++
    '=' :: quoted assignment.quote assignment.value.toList

/-- Whether an assignment can be written on a line and performed. -/
structure IsWritable (assignment : Assignment) : Prop where
  indent : assignment.indent.all isBlank = true ∧ '\n' ∉ assignment.indent
  key : IsKey assignment.key.toList
  quote : IsQuote assignment.quote
  feed_not_mem : '\n' ∉ assignment.key.toList ∧ '\n' ∉ assignment.value.toList
  nul_not_mem : '\x00' ∉ assignment.key.toList ∧ '\x00' ∉ assignment.value.toList

variable {assignment : Assignment}

theorem IsWritable.parseLine_text (h : assignment.IsWritable) :
    parseLine assignment.text = some (assignment.key.toList, assignment.value.toList) := by
  rw [text, h.key.parseLine_assignment (List.all_eq_true.mp h.indent.1), valueOf_quoted h.quote]

theorem IsWritable.feed_not_mem_text (h : assignment.IsWritable) : '\n' ∉ assignment.text := by
  have hkey : '\n' ∉ declared assignment.exported assignment.key.toList := by
    rw [declared]
    split
    · rw [List.mem_append, not_or]
      exact ⟨by decide, h.feed_not_mem.1⟩
    · exact h.feed_not_mem.1
  have hquote : '\n' ≠ assignment.quote := by
    rintro heq
    rcases h.quote with hquote | hquote <;> rw [hquote] at heq <;> exact absurd heq (by decide)
  simp [text, quoted, h.indent.2, hkey, hquote, h.feed_not_mem.2]

theorem IsWritable.admissible (h : assignment.IsWritable) :
    Environ.Admissible (assignment.key, some (Bytes.ofText assignment.value)) :=
  ⟨Environ.validKey_iff.mpr ⟨h.key.ne_nil, h.key.equals_not_mem, h.nul_not_mem.1⟩,
    Environ.validValue_ofText_iff.mpr h.nul_not_mem.2⟩

end Assignment

namespace SheetLine

/-- A line as it is written, without its end. -/
def text : SheetLine → List Char
  | assigns assignment => assignment.text
  | remark text => text

/-- Whether a line can be written. -/
def IsWritable : SheetLine → Prop
  | assigns assignment => assignment.IsWritable
  | remark text => '\n' ∉ text ∧ (trim text = [] ∨ (trim text).head? = some '#')

/-- What a line assigns. -/
def entry? : SheetLine → Option (String × String)
  | assigns assignment => some (assignment.key, assignment.value)
  | remark _ => none

variable {line : SheetLine}

theorem IsWritable.feed_not_mem (h : line.IsWritable) : '\n' ∉ line.text :=
  match line, h with
  | assigns _, h => h.feed_not_mem_text
  | remark _, h => h.1

theorem parseLine_of_remark {text : List Char} (h : trim text = [] ∨ (trim text).head? = some '#') :
    parseLine text = none := by
  rw [parseLine]
  rcases h with hnil | hhash
  · rw [hnil]
    rfl
  · obtain ⟨rest, htrim⟩ := List.head?_eq_some_iff.mp hhash
    rw [htrim]
    rfl

/-- A line is read as what it assigns. -/
theorem IsWritable.parseLine_text (h : line.IsWritable) :
    (parseLine line.text).map (fun entry => (String.ofList entry.1, String.ofList entry.2)) =
      line.entry? := by
  cases line with
  | assigns assignment =>
      rw [text, Assignment.IsWritable.parseLine_text h, Option.map_some, String.ofList_toList,
        String.ofList_toList]
      rfl
  | remark text =>
      have hnone : parseLine (remark text).text = none := parseLine_of_remark h.2
      rw [hnone]
      rfl

end SheetLine

/-! ### Sheets -/

/-- The end of a line. -/
inductive LineEnd
  | feed
  | returnFeed

/-- The characters that end a line. -/
def LineEnd.text : LineEnd → List Char
  | feed => ['\n']
  | returnFeed => ['\r', '\n']

/-- A file of variables.  The last line has no end. -/
structure Sheet where
  ended : List (SheetLine × LineEnd)
  last : SheetLine

namespace Sheet

/-- The lines of a sheet. -/
def lines (sheet : Sheet) : List SheetLine := sheet.ended.map Prod.fst ++ [sheet.last]

/-- A sheet as it is written. -/
def text (sheet : Sheet) : List Char :=
  sheet.ended.flatMap (fun line => line.1.text ++ line.2.text) ++ sheet.last.text

/-- What a sheet assigns. -/
def entries (sheet : Sheet) : List (String × String) := sheet.lines.filterMap SheetLine.entry?

end Sheet

/-- A line is read alike with both ends. -/
theorem filterMap_parseLine_append {text : List Char} (h : '\n' ∉ text) (ending : LineEnd)
    (rest : List Char) :
    (Text.lines (text ++ ending.text ++ rest)).filterMap parseLine =
      (parseLine text).toList ++ (Text.lines rest).filterMap parseLine := by
  have hblank : ∀ c ∈ ['\r'], isBlank c := List.all_eq_true.mp (by decide)
  have hfeed : ∀ text : List Char, '\n' ∉ text →
      (Text.lines (text ++ '\n' :: rest)).filterMap parseLine =
        (parseLine text).toList ++ (Text.lines rest).filterMap parseLine := by
    intro text h
    obtain ⟨line, hline, hlines⟩ := exists_lines_append h rest
    have hparse : parseLine line = parseLine text := by
      rcases hline with rfl | rfl
      · rfl
      · rw [parseLine_append_blank line hblank]
    rw [hlines, List.filterMap_cons, hparse]
    cases parseLine text <;> rfl
  cases ending with
  | feed =>
      rw [List.append_assoc]
      exact hfeed text h
  | returnFeed =>
      have hends : text ++ LineEnd.returnFeed.text ++ rest = (text ++ ['\r']) ++ '\n' :: rest := by
        simp [LineEnd.text]
      rw [hends, hfeed _ (by simpa using h), parseLine_append_blank text hblank]

theorem filterMap_parseLine_last {text : List Char} (h : '\n' ∉ text) :
    (Text.lines text).filterMap parseLine = (parseLine text).toList := by
  cases text with
  | nil => rfl
  | cons c text =>
      rw [lines_of_not_mem h (List.cons_ne_nil c text), List.filterMap_cons]
      cases parseLine (c :: text) <;> rfl

theorem filterMap_parseLine_lines (ended : List (SheetLine × LineEnd)) (last : SheetLine)
    (h : ∀ line ∈ (Sheet.mk ended last).lines, '\n' ∉ line.text) :
    (Text.lines (Sheet.mk ended last).text).filterMap parseLine =
      (Sheet.mk ended last).lines.filterMap fun line => parseLine line.text := by
  induction ended with
  | nil =>
      have hlast := filterMap_parseLine_last (h last List.mem_cons_self)
      rw [Sheet.text, List.flatMap_nil, List.nil_append, hlast, Sheet.lines, List.map_nil,
        List.nil_append, List.filterMap_cons]
      cases parseLine last.text <;> rfl
  | cons line ended ih =>
      have hrest := ih fun line hline => h line (List.mem_cons_of_mem _ hline)
      have htext : (Sheet.mk (line :: ended) last).text =
          line.1.text ++ line.2.text ++ (Sheet.mk ended last).text := by
        rw [Sheet.text, List.flatMap_cons, List.append_assoc]
        rfl
      have hlines : (Sheet.mk (line :: ended) last).lines =
          line.1 :: (Sheet.mk ended last).lines := rfl
      rw [htext, filterMap_parseLine_append (h line.1 List.mem_cons_self), hrest, hlines,
        List.filterMap_cons]
      cases parseLine line.1.text <;> rfl

/-- A sheet is read back as what it assigns. -/
theorem parse_text {sheet : Sheet} (h : ∀ line ∈ sheet.lines, line.IsWritable) :
    parse (String.ofList sheet.text) = sheet.entries := by
  have hfeed : ∀ line ∈ sheet.lines, '\n' ∉ line.text := fun line hline =>
    (h line hline).feed_not_mem
  rw [parse, String.toList_ofList, ← List.map_filterMap,
    filterMap_parseLine_lines sheet.ended sheet.last hfeed, List.map_filterMap, Sheet.entries]
  exact List.filterMap_congr fun line hline => (h line hline).parseLine_text

/-! ### Loading -/

variable {sheet : Sheet} {directory : Path} {world : World}

theorem admissible_of_mem_entries (h : ∀ line ∈ sheet.lines, line.IsWritable)
    {entry : String × String} (hentry : entry ∈ sheet.entries) :
    Environ.Admissible (entry.1, some (Bytes.ofText entry.2)) := by
  obtain ⟨line, hline, hassigns⟩ := List.mem_filterMap.mp hentry
  have hwritable := h line hline
  cases line with
  | assigns assignment =>
      obtain rfl := Option.some.inj hassigns
      exact Assignment.IsWritable.admissible hwritable
  | remark text => cases hassigns

/-- A sheet with different keys is loaded where none of them is set: exactly its variables are set,
to exactly the values that were written, and nothing else is changed. -/
theorem load_sheet (h : ∀ line ∈ sheet.lines, line.IsWritable)
    (hkeys : (sheet.entries.map Prod.fst).Nodup)
    (hread : world.readText (directory.child fileName) = .ok (String.ofList sheet.text))
    (hunset : ∀ key ∈ sheet.entries.map Prod.fst, world.environ.get? key = none) :
    ∃ environ : Environ,
      load directory world =
        (none, { world with environ }.report
          ⟨.debug, .loader, "loaded .env", [("path", (directory.child fileName).display)]⟩) ∧
      (∀ entry ∈ sheet.entries, environ.get? entry.1 = some (Bytes.ofText entry.2)) ∧
      ∀ key, key ∉ sheet.entries.map Prod.fst → environ.get? key = world.environ.get? key := by
  have hnone : (assignAll world.environ sheet.entries).1 = none := by
    rw [← Option.not_isSome_iff_eq_none, isSome_assignAll_iff]
    rintro ⟨key, value, hpending, hnot⟩
    rw [pending?] at hpending
    split at hpending
    · cases hpending
    · exact hnot (admissible_of_mem_entries h ((Table.lookup_eq_some_iff_mem hkeys).mp hpending))
  have hall : assignAll world.environ sheet.entries =
      (none, (assignAll world.environ sheet.entries).2) := Prod.ext hnone rfl
  refine ⟨(assignAll world.environ sheet.entries).2, ?_, ?_, ?_⟩
  · rw [load, hread]
    dsimp only
    rw [parse_text h, hall]
  · intro entry hentry
    have htext : world.environ.text? entry.1 = none := by
      rw [Environ.text?, hunset _ (List.mem_map_of_mem hentry), Option.bind_none]
    have hlookup := (Table.lookup_eq_some_iff_mem hkeys).mpr hentry
    rw [get?_assignAll hall, pending?_of_none htext, hlookup]
    rfl
  · intro key hkey
    have hlookup : (Table.mk sheet.entries).get? key = none := Table.get?_eq_none_iff.mpr hkey
    rw [Table.get?] at hlookup
    rw [get?_assignAll hall, pending?]
    split
    · rfl
    · rw [hlookup]
      rfl

/-- A sheet with quotes, a hash and a carriage return in its values. -/
def sampleSheet : Sheet where
  ended := [(.remark "# names".toList, .feed),
    (.assigns ⟨"  ".toList, true, "B", doubleQuote, " # it's \"b\"\r"⟩, .returnFeed),
    (.remark [], .returnFeed)]
  last := .assigns ⟨[], false, "C", singleQuote, "c"⟩

theorem load_sheet_sample :
    let world := sampleWorld [0xFF] (String.ofList sampleSheet.text)
    let after := (load topPath world).2.environ
    (load topPath world).1 = none ∧ after.get? "B" = some (Bytes.ofText " # it's \"b\"\r") ∧
      after.get? "C" = some (Bytes.ofText "c") ∧ after.get? "A" = some [0xFF] := by
  have hwritable : ∀ line ∈ sampleSheet.lines, line.IsWritable := by
    have hkey : IsKey ['B'] ∧ IsKey ['C'] := by
      constructor <;>
        exact ⟨by decide, isTrimmed_of_any (by decide) (by decide), by decide, by decide, by decide⟩
    rw [Sheet.lines, sampleSheet]
    refine List.forall_mem_cons.mpr ⟨⟨by decide, by decide⟩, List.forall_mem_cons.mpr ⟨?_,
      List.forall_mem_cons.mpr ⟨⟨by decide, by decide⟩, List.forall_mem_singleton.mpr ?_⟩⟩⟩
    · exact ⟨by decide, hkey.1, .inl rfl, by decide, by decide⟩
    · exact ⟨by decide, hkey.2, .inr rfl, by decide, by decide⟩
  have hentries : sampleSheet.entries = [("B", " # it's \"b\"\r"), ("C", "c")] := rfl
  obtain ⟨environ, hload, hset, hkept⟩ := load_sheet hwritable (by rw [hentries]; decide)
    (readText_sampleWorld [0xFF] _) (by rw [hentries]; decide)
  rw [hentries] at hset hkept
  dsimp only
  rw [hload]
  exact ⟨rfl, hset _ List.mem_cons_self, hset _ (List.mem_cons_of_mem _ List.mem_cons_self),
    hkept "A" (by decide)⟩

end Enclave.Dotenv
