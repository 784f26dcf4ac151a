import Enclave.Proofs.Environment.Order
import Enclave.Proofs.FileSystem.Changes
import Enclave.Record

/-! # Which records can be read

`recordAt` is the record that an environment has in a file system.  `Keeps` relates two file systems
where the second is as orderly as the first and shows no record that the first does not show.  All
that an activation does beside moving a draft keeps the records: preparing a lock
(`keeps_createDirectoriesUpTo`, `keeps_touch`), removing a record (`BuildRecord.keeps_remove`) and
writing a draft (`BuildRecord.keeps_writeDraft`).  Moving a draft makes it the record of its
environment and of no other (`BuildRecord.moveDraft_spec`). -/

namespace Enclave

open Layout

/-! ### Reading -/

namespace BuildRecord

/-- The record that a text denotes, if its fingerprint is well-formed. -/
def read? (content : String) : Option BuildRecord :=
  (parse? content).filter (·.fingerprint.isWellFormed)

theorem ofContent_fst (file : Path) (content : String) :
    (ofContent file content).1 = read? content := by
  rw [ofContent, read?]
  cases parse? content with
  | none => rfl
  | some record =>
      dsimp only
      rw [Option.filter_some]
      split <;> rfl

/-- The name of the file with a record, and of its draft. -/
abbrev entryName : Bytes := Bytes.ofText recordName

abbrev draftName : Bytes := Bytes.ofText (recordName ++ ".tmp")

end BuildRecord

open BuildRecord (entryName draftName)

/-- The record in an entry. -/
def Entry.record? : Entry → Option BuildRecord
  | .file _ content _ => content.bytes.text?.bind BuildRecord.read?
  | _ => none

/-- Nothing is no record. -/
theorem record?_nil : (Bytes.text? []).bind BuildRecord.read? = none := by decide +kernel

namespace FileSystem

variable {fs fs' fs'' : FileSystem} {root location : Path} {ban : Ban}

/-- The record of an environment. -/
def recordAt (fs : FileSystem) (location : Path) : Option BuildRecord :=
  (fs.readText [] (recordFile location)).toOption.bind BuildRecord.read?

theorem readText_base {path : Path} (habsolute : path.isAbsolute) (base : Location) :
    fs.readText base path = fs.readText [] path := by
  simp only [readText, readBytes, find, resolve_base habsolute base]

theorem recordAt_eq_load (habsolute : location.isAbsolute) (world : World) :
    world.files.recordAt location = (BuildRecord.load world location).1 := by
  have hfile : (recordFile location).isAbsolute :=
    Path.isAbsolute_join _ habsolute
  rw [recordAt, BuildRecord.load, World.readText, readText_base hfile world.base]
  cases world.files.readText [] (recordFile location) with
  | error e => rfl
  | ok content => exact (BuildRecord.ofContent_fst _ content).symm

theorem recordAt_of_resolve {found : Location} {entry : Entry}
    (h : fs.resolve [] (recordFile location) true = .ok (found, some entry)) :
    fs.recordAt location = entry.record? := by
  cases entry with
  | file id content executable =>
      simp only [recordAt, readText, readBytes, find, h, Entry.record?]
      cases content.bytes.text? <;> rfl
  | directory id => simp only [recordAt, readText, readBytes, find, h]; rfl
  | link target =>
      simp only [recordAt, readText, readBytes, find, h, Entry.record?]
      rw [← record?_nil]
      cases Bytes.text? [] <;> rfl
  | device device =>
      simp only [recordAt, readText, readBytes, find, h, Entry.record?]
      rw [← record?_nil]
      cases Bytes.text? [] <;> rfl
  | program name =>
      simp only [recordAt, readText, readBytes, find, h, Entry.record?]
      rw [← record?_nil]
      cases Bytes.text? [] <;> rfl

theorem exists_resolve_of_recordAt {record : BuildRecord}
    (h : fs.recordAt location = some record) :
    ∃ found entry, fs.resolve [] (recordFile location) true = .ok (found, some entry) := by
  simp only [recordAt, readText, readBytes, find] at h
  cases hresolve : fs.resolve [] (recordFile location) true with
  | error e => simp [hresolve, Except.toOption] at h
  | ok result =>
      obtain ⟨found, entry⟩ := result
      cases entry with
      | none => simp [hresolve, Except.toOption] at h
      | some entry => exact ⟨found, entry, rfl⟩

/-- Where no entry is a record, there are no records. -/
theorem recordAt_of_entries (h : ∀ e ∈ fs.entries, e.2.record? = none) (location : Path) :
    fs.recordAt location = none := by
  rw [Option.eq_none_iff_forall_ne_some]
  intro record hrecord
  obtain ⟨found, entry, hresolve⟩ := exists_resolve_of_recordAt hrecord
  rw [recordAt_of_resolve hresolve] at hrecord
  have hentry := entry?_of_resolve hresolve
  by_cases hne : found = []
  · rw [hne, entry?_nil, Option.some.injEq] at hentry
    rw [← hentry] at hrecord
    cases hrecord
  · rw [h _ (mem_entries hne hentry)] at hrecord
    cases hrecord

/-- At the places of an environment it does not matter whether links are followed. -/
theorem Orderly.resolve_iff (h : Orderly fs root ban) (habsolute : root.isAbsolute)
    (henvironment : IsEnvironment root location) {name : Bytes} (hname : IsName name)
    (hplace : location.join ⟨name⟩ ∈ places location) {base : Location}
    {result : Location × Option Entry} :
    fs.resolve base (location.join ⟨name⟩) true = .ok result ↔
      fs.resolve [] (location.join ⟨name⟩) false = .ok result :=
  resolve_join_follow (henvironment.isAbsolute habsolute) hname fun found _ hresolve =>
    h.free location henvironment _ hplace found _ hresolve (ban.link _)

theorem recordFile_mem_places (location : Path) :
    location.join ⟨entryName⟩ ∈ places location :=
  List.mem_cons_of_mem _ List.mem_cons_self

theorem recordDraft_mem_places (location : Path) :
    location.join ⟨draftName⟩ ∈ places location :=
  List.mem_cons_of_mem _ (List.mem_cons_of_mem _ List.mem_cons_self)

/-- The record of an environment is in the file with its name in the directory of the
environment. -/
theorem recordAt_eq_some_iff (h : Orderly fs root ban) (habsolute : root.isAbsolute)
    (henvironment : IsEnvironment root location) {record : BuildRecord} :
    fs.recordAt location = some record ↔
      (recordFile location).Fits ∧ ∃ links there entry,
        Leads fs maxLinks [] location.parts links there ∧
          fs.entry? (there ++ [entryName]) = some entry ∧ entry.record? = some record := by
  have hlocation := henvironment.isAbsolute habsolute
  have hfollow : ∀ {result}, fs.resolve [] (recordFile location) true = .ok result ↔
      fs.resolve [] (recordFile location) false = .ok result :=
    h.resolve_iff habsolute henvironment isName_recordName (recordFile_mem_places location)
  constructor
  · intro hrecord
    obtain ⟨found, entry, hresolve⟩ := exists_resolve_of_recordAt hrecord
    rw [recordAt_of_resolve hresolve] at hrecord
    obtain ⟨hfits, links, there, hway, rfl, hentry⟩ :=
      (resolve_join_iff hlocation isName_recordName).mp (hfollow.mp hresolve)
    exact ⟨hfits, links, there, entry, hway, hentry.symm, hrecord⟩
  · rintro ⟨hfits, links, there, entry, hway, hentry, hrecord⟩
    have hresolve := hfollow.mpr ((resolve_join_iff hlocation isName_recordName).mpr
      ⟨hfits, links, there, hway, rfl, hentry.symm⟩)
    rw [recordAt_of_resolve hresolve, hrecord]

/-! ### Keeping records -/

/-- Whether order is kept and no record appears. -/
def Keeps (root : Path) (ban : Ban) (fs fs' : FileSystem) : Prop :=
  Orderly fs root ban → Orderly fs' root ban ∧ ∀ location, IsEnvironment root location →
    ∀ record, fs'.recordAt location = some record → fs.recordAt location = some record

theorem Keeps.refl (root : Path) (ban : Ban) (fs : FileSystem) : Keeps root ban fs fs :=
  fun h => ⟨h, fun _ _ _ => id⟩

theorem Keeps.trans (h : Keeps root ban fs fs') (h' : Keeps root ban fs' fs'') :
    Keeps root ban fs fs'' := by
  intro horder
  obtain ⟨horder', hrecords⟩ := h horder
  obtain ⟨horder'', hrecords'⟩ := h' horder'
  exact ⟨horder'', fun location henvironment record hrecord =>
    hrecords location henvironment record (hrecords' location henvironment record hrecord)⟩

/-- A record that was not there before needs a new file in its place. -/
theorem recordAt_of_sameWays (h : Orderly fs root ban) (h' : Orderly fs' root ban)
    (habsolute : root.isAbsolute) (hways : SameWays fs fs')
    (henvironment : IsEnvironment root location)
    (hfiles : ∀ links there, Leads fs maxLinks [] location.parts links there → ∀ entry record,
      fs'.entry? (there ++ [entryName]) = some entry → entry.record? = some record →
        fs.entry? (there ++ [entryName]) = some entry)
    {record : BuildRecord} (hrecord : fs'.recordAt location = some record) :
    fs.recordAt location = some record := by
  obtain ⟨hfits, links, there, entry, hway, hentry, hread⟩ :=
    (recordAt_eq_some_iff h' habsolute henvironment).mp hrecord
  have hway := hways.leads_iff.mpr hway
  exact (recordAt_eq_some_iff h habsolute henvironment).mpr
    ⟨hfits, links, there, entry, hway, hfiles _ _ hway _ _ hentry hread, hread⟩

/-! ### Preparing a lock -/

/-- Where nothing stands in the directory that the root leads to, there are no records. -/
theorem recordAt_of_nothing (h : Orderly fs root ban) (habsolute : root.isAbsolute)
    (henvironment : IsEnvironment root location)
    (hnothing : ∀ links there, Leads fs maxLinks [] root.parts links there →
      ∀ below, fs.entry? (there ++ [below]) = none) : fs.recordAt location = none := by
  rw [Option.eq_none_iff_forall_ne_some]
  intro record hrecord
  obtain ⟨name, hname, _, rfl⟩ := henvironment.exists_name
  obtain ⟨hfits, links, there, _, hway, _⟩ :=
    (recordAt_eq_some_iff h habsolute henvironment).mp hrecord
  obtain ⟨links', above, habove, rfl, id, hid⟩ := h.leads_environment habsolute hname henvironment
    (Path.fits_of_fits_join isName_recordName (henvironment.isAbsolute habsolute) hfits) hway
  rw [hnothing links' above habove] at hid
  cases hid

theorem keeps_createDirectory {base : Location} {path : Path} (habsolute : root.isAbsolute)
    (hpath : path.isAbsolute) (hnames : path.names <+: root.names)
    (h : fs.createDirectory base path = .ok fs') : Keeps root ban fs fs' := by
  intro horder
  obtain ⟨hsame, hstays⟩ := Path.withoutFinalSlashes_spec path
  rw [createDirectory] at h
  split at h
  · cases h
  · cases h
  · next found hresolve =>
      split at h
      · cases h
      · obtain rfl := Except.ok.inj h
        have hwalk := hresolve
        rw [resolve_eq_walk (fits_of_resolve hresolve) (hstays hpath)] at hwalk
        obtain ⟨front, name, links, there, hsteps, hway, rfl, hnone, hdot, hdotDot, _⟩ :=
          leads_of_walk_none horder.tree hasDirectory_nil hwalk
        rw [Path.filter_stepsOf, hsame] at hsteps
        obtain ⟨back, hback⟩ := hnames
        obtain ⟨horder', hnothing⟩ := horder.of_newDirectory (by rw [← hback, hsteps]) hdot
          hdotDot hway hnone (fs.entry?_putNew (by simp) .directory) habsolute
          (hway.hasDirectory horder.tree hasDirectory_nil)
        refine ⟨horder', fun location henvironment record hrecord => ?_⟩
        rw [recordAt_of_nothing horder' habsolute henvironment hnothing] at hrecord
        cases hrecord

theorem keeps_createDirectoriesUpTo {base : Location} (habsolute : root.isAbsolute) (fuel : Nat)
    {path : Path} (hpath : path.isAbsolute) (hnames : path.names <+: root.names) :
    Keeps root ban fs (createDirectoriesUpTo fuel fs base path).2 := by
  have habove : ∀ path parent : Path, path.parent? = some parent →
      path.isAbsolute ∧ path.names <+: root.names →
        parent.isAbsolute ∧ parent.names <+: root.names := by
    rintro path parent hparent ⟨hpath, hnames⟩
    obtain ⟨hparent, last, hlast⟩ := Path.names_parent? hpath hparent
    exact ⟨hparent, (List.prefix_append _ _).trans (hlast ▸ hnames)⟩
  refine createDirectoriesUpTo_induction (P := Keeps root ban fs) fuel path ?_
    (Keeps.refl root ban fs)
  intro above hmem _ _ hcreate hkeeps
  obtain ⟨habsolute', hprefix⟩ :=
    Path.ancestorsUpTo_induction (Q := fun path => path.isAbsolute ∧ path.names <+: root.names)
      ⟨hpath, hnames⟩ habove above hmem
  exact hkeeps.trans (keeps_createDirectory habsolute habsolute' hprefix hcreate)

/-- A file without a record in it keeps the records. -/
theorem keeps_of_file {found : Location} {entry : Entry} (habsolute : root.isAbsolute)
    (hne : found ≠ []) (hparent : fs.IsTree → fs.HasDirectory found.dropLast)
    (hold : ∀ entry, fs.entry? found = some entry → ¬ entry.isWay) (hway : ¬ entry.isWay)
    (hban : ¬ ban.bans entry)
    (hview : ∀ other, fs'.entry? other = if other = found then some entry else fs.entry? other)
    (hsame : fs.entry? found = some entry ∨ entry.record? = none) : Keeps root ban fs fs' := by
  intro horder
  obtain ⟨horder', hways⟩ :=
    horder.of_file habsolute hne (hparent horder.tree) hold hway hban hview
  refine ⟨horder', fun location henvironment record hrecord => ?_⟩
  refine recordAt_of_sameWays horder horder' habsolute hways henvironment ?_ hrecord
  intro links there _ entry' record' hentry hread
  rw [hview] at hentry
  split at hentry
  · next heq =>
      rw [Option.some.injEq] at hentry
      subst hentry
      rcases hsame with hsame | hnone
      · rw [heq, hsame]
      · simp [hnone] at hread
  · exact hentry

/-- Where a file can be opened for writing, its parent is a directory. -/
theorem hasDirectory_of_entry? (htree : fs.IsTree) {found : Location} {entry : Entry}
    (h : fs.entry? found = some entry) (hentry : ¬ entry.isWay) :
    found ≠ [] ∧ fs.HasDirectory found.dropLast := by
  have hne : found ≠ [] := by
    rintro rfl
    rw [entry?_nil, Option.some.injEq] at h
    exact hentry (h ▸ rfl)
  exact ⟨hne, htree found hne (by rw [h]; rfl)⟩

/-- Opening a file and writing nothing keeps the records. -/
theorem keeps_modify_id {base : Location} {path : Path} (habsolute : root.isAbsolute)
    (h : fs.modify base path id = .ok fs') : Keeps root ban fs fs' := by
  intro horder
  rw [modify] at h
  split at h
  · cases h
  · next found id content executable hresolve =>
      obtain rfl := Except.ok.inj h
      have hentry := entry?_of_resolve hresolve
      obtain ⟨hne, hparent⟩ := hasDirectory_of_entry? horder.tree hentry (by simp [Entry.isWay])
      refine keeps_of_file habsolute hne (fun _ => hparent) ?_ (by simp [Entry.isWay])
        (ban.file _ _ _) (fs.entry?_put hne _) (Or.inl hentry) horder
      intro entry hold
      rw [hentry, Option.some.injEq] at hold
      simp [← hold, Entry.isWay]
  · cases h
  · obtain rfl := Except.ok.inj h
    exact Keeps.refl root ban fs horder
  · next found hresolve =>
      split at h
      · cases h
      · next hcheck =>
          obtain rfl := Except.ok.inj h
          have hentry := entry?_of_resolve hresolve
          have hempty : (Entry.file fs.nextId (id ⟨[], 0⟩) false).record? = none := record?_nil
          have hne : found ≠ [] := by
            rintro rfl
            cases hentry
          exact keeps_of_file habsolute hne (fun _ => hasDirectory_of_checkParent hcheck)
            (by simp [hentry]) (by simp [Entry.isWay]) (ban.file _ _ _)
            (fs.entry?_putNew hne _) (Or.inr hempty) horder

theorem keeps_touch {base : Location} {path : Path} (habsolute : root.isAbsolute) {id : Nat}
    (h : fs.touch base path = .ok (fs', id)) : Keeps root ban fs fs' := by
  rw [touch] at h
  split at h
  · cases h
  · next hmodify =>
      split at h
      all_goals
        rw [Except.ok.injEq, Prod.mk.injEq] at h
        rw [← h.1]
        exact keeps_modify_id habsolute hmodify

end FileSystem
end Enclave
