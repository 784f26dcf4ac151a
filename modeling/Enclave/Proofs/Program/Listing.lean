import Enclave.Program.Activate
import Enclave.Proofs.Program.Actions
import Enclave.Proofs.Provision.Packages

/-! # Listings of packages

A listing has a line for each package: its name, and behind two equals signs its version, unless
that is empty.  The version may begin with an equals sign and the name may have single ones inside,
as long as the first two in a row are those behind the name (`IsPlain.length_le`).  Then name and
version are read back from the line (`IsPlain.packageOf_listingLine`).

If all packages are such, a listing has the lines in the order of the bytes of the names, and what
is read from it are the packages (`lists_listingText`).  To list the packages of an environment is
to write exactly the listing of what was found out about it (`freeze_eq`). -/

namespace Enclave

namespace VersionReport

variable {name version : String} {entries : List (String × String)}

/-! ### Lines about packages -/

/-- Whether the line about a package tells its name and its version: neither has a line feed or
blank characters at its ends, and the name is there, does not look like a comment, and has neither
two equals signs in a row nor one at its end. -/
structure IsPlain (name version : String) : Prop where
  name_ne : name ≠ ""
  name_isTrimmed : Text.IsTrimmed name.toList
  name_oneLine : '\n' ∉ name.toList
  name_shown : name.toList.head? ≠ some '#'
  name_unpinned : ∀ front back, name.toList ≠ front ++ '=' :: '=' :: back
  name_last : name.toList.getLast? ≠ some '='
  version_isTrimmed : Text.IsTrimmed version.toList
  version_oneLine : '\n' ∉ version.toList

/-- Whether a name and a version are plain can be checked. -/
theorem isPlain_iff : IsPlain name version ↔
    name ≠ "" ∧ Text.IsTrimmed name.toList ∧ '\n' ∉ name.toList ∧ name.toList.head? ≠ some '#' ∧
      Venv.splitPin name.toList = none ∧ name.toList.getLast? ≠ some '=' ∧
      Text.IsTrimmed version.toList ∧ '\n' ∉ version.toList := by
  constructor
  · rintro ⟨hne, hname, hline, hshown, hpin, hlast, hversion, hline'⟩
    refine ⟨hne, hname, hline, hshown, ?_, hlast, hversion, hline'⟩
    cases hsplit : Venv.splitPin name.toList with
    | none => rfl
    | some parts => exact absurd (Venv.splitPin_eq_some hsplit).1 (hpin parts.1 parts.2)
  · rintro ⟨hne, hname, hline, hshown, hpin, hlast, hversion, hline'⟩
    exact ⟨hne, hname, hline, hshown, Venv.splitPin_eq_none hpin, hlast, hversion, hline'⟩

instance : Decidable (IsPlain name version) :=
  decidable_of_iff _ isPlain_iff.symm

theorem toList_listingLine (hne : version ≠ "") :
    (listingLine (name, version)).toList = name.toList ++ '=' :: '=' :: version.toList := by
  have hline : listingLine (name, version) = name ++ ("==" ++ version) := by
    rw [listingLine, if_neg hne]
    exact String.append_assoc
  rw [hline, String.toList_append, String.toList_append]
  rfl

theorem listingLine_empty : listingLine (name, "") = name := rfl

namespace IsPlain

theorem name_ne_nil (h : IsPlain name version) : name.toList ≠ [] :=
  fun hnil => h.name_ne (String.toList_eq_nil_iff.mp hnil)

/-- No two equals signs in a row are farther in front than those behind the name. -/
theorem length_le (h : IsPlain name version) {front back more : List Char}
    (heq : name.toList ++ '=' :: '=' :: more = front ++ '=' :: '=' :: back) :
    name.toList.length ≤ front.length := by
  rcases List.append_eq_append_iff.mp heq with ⟨rest, hfront, _⟩ | ⟨rest, hname, hrest⟩
  · rw [hfront, List.length_append]
    exact Nat.le_add_right _ _
  · -- Other signs that begin in the name would be its last character or both inside.
    rcases rest with _ | ⟨c, _ | ⟨d, rest⟩⟩
    · exact Nat.le_of_eq (congrArg List.length (hname.trans (List.append_nil front)))
    · obtain rfl : '=' = c := (List.cons.inj hrest).1
      refine absurd ?_ h.name_last
      rw [hname, List.getLast?_concat]
    · obtain ⟨hc, hrest⟩ := List.cons.inj hrest
      obtain rfl : '=' = d := (List.cons.inj hrest).1
      exact absurd (hc ▸ hname) (h.name_unpinned front rest)

/-- The line says what it is about. -/
theorem packageOf_listingLine (h : IsPlain name version) :
    Venv.packageOf (listingLine (name, version)).toList = (name, version) := by
  by_cases hversion : version = ""
  · subst hversion
    have hnames := Venv.Names.bare h.name_unpinned
    rw [listingLine_empty, hnames.packageOf_eq, String.ofList_toList]
  · have hnames := Venv.Names.pinned name.toList version.toList fun _ _ heq => h.length_le heq
    rw [toList_listingLine hversion, hnames.packageOf_eq, h.name_isTrimmed.trim_eq,
      h.version_isTrimmed.trim_eq, String.ofList_toList, String.ofList_toList]

theorem isTrimmed_listingLine (h : IsPlain name version) :
    Text.IsTrimmed (listingLine (name, version)).toList := by
  by_cases hversion : version = ""
  · subst hversion
    exact h.name_isTrimmed
  · have hne : version.toList ≠ [] := fun hnil => hversion (String.toList_eq_nil_iff.mp hnil)
    rw [toList_listingLine hversion]
    simpa using h.name_isTrimmed.append h.name_ne_nil ['=', '='] h.version_isTrimmed hne

theorem feed_not_mem_listingLine (h : IsPlain name version) :
    '\n' ∉ (listingLine (name, version)).toList := by
  by_cases hversion : version = ""
  · subst hversion
    exact h.name_oneLine
  · rw [toList_listingLine hversion]
    simp [h.name_oneLine, h.version_oneLine]

theorem namesPackage_listingLine (h : IsPlain name version) :
    Venv.namesPackage (listingLine (name, version)).toList = true := by
  have hfront : ∃ rest, (listingLine (name, version)).toList = name.toList ++ rest := by
    by_cases hversion : version = ""
    · subst hversion
      exact ⟨[], (List.append_nil _).symm⟩
    · exact ⟨_, toList_listingLine hversion⟩
  obtain ⟨rest, hline⟩ := hfront
  have hhead : (name.toList ++ rest).head? = name.toList.head? :=
    List.head?_append_of_ne_nil name.toList h.name_ne_nil
  simp [Venv.namesPackage, hline, hhead, h.name_ne_nil, h.name_shown]

end IsPlain

/-- Lines about packages are read back. -/
theorem entriesOf_listingLines (h : ∀ entry ∈ entries, IsPlain entry.1 entry.2) :
    Venv.entriesOf (entries.map fun entry => (listingLine entry).toList) = entries := by
  induction entries with
  | nil => rfl
  | cons entry entries ih =>
      have hplain := h entry List.mem_cons_self
      have hentry : Venv.entriesOf [(listingLine entry).toList] = [entry] := by
        simp [Venv.entriesOf, hplain.isTrimmed_listingLine.trim_eq,
          hplain.namesPackage_listingLine, hplain.packageOf_listingLine]
      rw [List.map_cons, ← List.singleton_append, Venv.entriesOf_append, hentry,
        ih fun other hother => h other (List.mem_cons_of_mem entry hother)]
      rfl

/-! ### Listings -/

/-- The listing of all packages as a text. -/
def listingText (report : VersionReport) : String :=
  .ofList (Text.joinLines (report.listing.map String.toList))

/-- Whether a text is a listing of packages. -/
structure Lists (text : String) (packages : Table String) : Prop where
  /-- What is read from it are the packages. -/
  read : (Venv.packagesOf text).Same packages
  /-- It has a line for each package, and these are in the order of the bytes of the names. -/
  ordered : ∃ entries : List (String × String), entries.Perm packages.entries ∧
    (entries.map fun entry => Bytes.ofText entry.1).Pairwise (· < ·) ∧
    Text.linesOf text = entries.map listingLine

/-- The listing of a report lists its packages. -/
theorem lists_listingText {report : VersionReport} (hdistinct : report.packages.Distinct)
    (hplain : ∀ entry ∈ report.packages.entries, IsPlain entry.1 entry.2) :
    Lists report.listingText report.packages := by
  have hsorted : ∀ entry ∈ report.packages.sorted, IsPlain entry.1 entry.2 := fun entry hentry =>
    hplain entry (report.packages.sorted_perm.mem_iff.mp hentry)
  have hlines : Text.lines report.listingText.toList =
      report.packages.sorted.map fun entry => (listingLine entry).toList := by
    rw [listingText, String.toList_ofList, listing, List.map_map]
    refine Text.lines_joinLines_of_isTrimmed fun line hline => ?_
    obtain ⟨entry, hentry, rfl⟩ := List.mem_map.mp hline
    exact ⟨(hsorted entry hentry).feed_not_mem_listingLine,
      (hsorted entry hentry).isTrimmed_listingLine⟩
  constructor
  · have hread : Venv.packagesOf report.listingText = .ofList report.packages.sorted := by
      rw [← entriesOf_listingLines hsorted, ← hlines]
      rfl
    rw [hread]
    exact hdistinct.same_ofList_sorted
  · refine ⟨report.packages.sorted, report.packages.sorted_perm, ?_, ?_⟩
    · exact List.pairwise_map.mpr (hdistinct.pairwise_sorted.imp Bytes.ofText_lt)
    · rw [Text.linesOf, hlines, List.map_map]
      exact List.map_congr_left fun entry _ => String.ofList_toList

end VersionReport

/-! ### Listing the packages of an environment -/

namespace Program

open VersionReport (IsPlain Lists)

theorem linesOf_eq_ofText (texts : List String) :
    linesOf texts = Bytes.ofText (.ofList (Text.joinLines (texts.map String.toList))) := by
  rw [Bytes.ofText, String.toList_ofList]
  induction texts with
  | nil => rfl
  | cons text texts ih =>
      rw [linesOf, List.flatMap_cons, List.map_cons, Text.joinLines, List.flatMap_cons,
        Bytes.ofChars_append, Bytes.ofText, String.toList_append]
      exact congrArg _ ih

/-- Writing the lines of a listing one by one is writing the listing. -/
theorem forM_printLine_listing (report : VersionReport) :
    report.listing.forM printLine = print report.listingText := by
  funext state
  refine (run_printLines report.listing state).trans ?_
  rw [linesOf_eq_ofText]
  exact (run_print report.listingText state).symm

theorem freeze_eq (root : Option Path) (name : Option String) (system : Bool)
    (threshold : Threshold) :
    freeze root name system threshold false =
      (activateTarget root (existing name system) threshold >>= versionsOf >>= fun report =>
        print report.listingText) := by
  rw [freeze, bind_assoc]
  simp only [forM_printLine_listing]
  rfl

/-- **Listings are read back.**  Listing the packages of an environment writes the listing of what
was found out about it, and nothing else.  If the packages are plain, the listing has the lines in
the order of the bytes of the names, and the packages that are read from it are the same. -/
theorem listing_freeze :
    (∀ root name system threshold, freeze root name system threshold false =
      (activateTarget root (existing name system) threshold >>= versionsOf >>= fun report =>
        print report.listingText)) ∧
    ∀ report : VersionReport, report.packages.Distinct →
      (∀ entry ∈ report.packages.entries, IsPlain entry.1 entry.2) →
      Lists report.listingText report.packages :=
  ⟨freeze_eq, fun _ hdistinct hplain => VersionReport.lists_listingText hdistinct hplain⟩

/-- Packages with an equals sign in a name or at the front of a version, and one without a
version. -/
def samplePackages : Table String :=
  ⟨[("zlib=ng", "=1.0"), ("numpy", "1.26.4"), ("-e git+https://x/y#egg=y", "")]⟩

/-- A state with an environment `e` that has these packages. -/
def sampleFrozen : State where
  world := Venv.withListing
    (Bytes.ofText "zlib=ng===1.0\n# pinned\nnumpy == 1.26.4\n-e git+https://x/y#egg=y\n")
  now := .epoch
  input := []

theorem exists_report_sampleFrozen :
    ∃ report after, (activateTarget (some (.ofText "/")) (existing (some "e") false) .off >>=
        versionsOf).run sampleFrozen = (.ok report, after) ∧
      report.packages = samplePackages ∧ after.stdout = [] := by
  have hfound : Prod.map (Except.map VersionReport.packages) State.stdout
      ((activateTarget (some (.ofText "/")) (existing (some "e") false) .off >>=
        versionsOf).run sampleFrozen) = (.ok samplePackages, []) := by
    decide +kernel
  generalize (activateTarget (some (.ofText "/")) (existing (some "e") false) .off >>=
    versionsOf).run sampleFrozen = outcome at hfound ⊢
  obtain ⟨explanation | report, after⟩ := outcome
  · cases (Prod.mk.inj hfound).1
  · obtain ⟨hpackages, hstdout⟩ := Prod.mk.inj hfound
    exact ⟨report, after, rfl, Except.ok.inj hpackages, hstdout⟩

/-- The packages of this environment are listed and read back. -/
theorem listing_freeze_sample :
    ∃ text after, (freeze (some (.ofText "/")) (some "e") false .off false).run sampleFrozen =
        (.ok (), after) ∧
      after.stdout = Bytes.ofText text ∧ samplePackages.Distinct ∧
      (∀ entry ∈ samplePackages.entries, IsPlain entry.1 entry.2) ∧ Lists text samplePackages := by
  have hdistinct : samplePackages.Distinct := by decide +kernel
  have hplain : ∀ entry ∈ samplePackages.entries, IsPlain entry.1 entry.2 := by decide +kernel
  obtain ⟨hprints, hlists⟩ := listing_freeze
  obtain ⟨report, after, hrun, hreport, hstdout⟩ := exists_report_sampleFrozen
  rw [← hreport] at hdistinct hplain ⊢
  refine ⟨report.listingText, { after with stdout := Bytes.ofText report.listingText }, ?_, rfl,
    hdistinct, hplain, hlists report hdistinct hplain⟩
  rw [hprints, run_bind_ok hrun, run_print, hstdout, List.nil_append]

end Program
end Enclave
