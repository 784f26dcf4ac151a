import Enclave.Proofs.Activation.Evaluation
import Enclave.Proofs.Environment.Builds
import Enclave.Proofs.Record

/-! # What a stored record is read as

A record is written to its draft, which is then renamed.  `exists_of_writeBytes` says what writing
does when a file or nothing stands in the place of the draft, `rename_name` what renaming does
within one directory.  So a record that is stored is the one that is loaded, and a store that fails
leaves what is loaded (`load_store`).  Two things can stand in the way, and both let a store succeed
after which nothing is loaded (`not_load_store`): a draft that keeps nothing, and a location that is
reached through the record that is replaced. -/

namespace Enclave

open Layout
open BuildRecord (entryName draftName)

/-! ### Files -/

namespace FileSystem

variable {fs fs' : FileSystem} {base there : Location} {directory : Path} {name former : Bytes}
  {links : Nat}

/-- Whether an entry keeps what is written to it or refuses to be written to. -/
def Keeping (entry : Entry) : Prop :=
  entry.isDirectory ∨ ∃ id content executable, entry = .file id content executable

/-- Whether writing has put a file under a name in a directory, in the place of a file or of
nothing. -/
structure Wrote (fs fs' : FileSystem) (there : Location) (name bytes : Bytes) : Prop where
  parent : fs.HasDirectory there
  old : ∀ entry, fs.entry? (there ++ [name]) = some entry → ¬ entry.isWay
  tree : fs'.IsTree
  view : ∃ id executable, ∀ other, fs'.entry? other =
    if other = there ++ [name] then some (.file id ⟨bytes, 0⟩ executable) else fs.entry? other

theorem Wrote.view_of_ne {bytes : Bytes} (h : Wrote fs fs' there name bytes) {other : Location}
    (hne : other ≠ there ++ [name]) : fs'.entry? other = fs.entry? other := by
  obtain ⟨_, _, hview⟩ := h.view
  rw [hview, if_neg hne]

theorem Wrote.sameWays {bytes : Bytes} (h : Wrote fs fs' there name bytes) : SameWays fs fs' := by
  refine sameWays_of_entry? h.old (fun entry hnew => ?_) fun other => h.view_of_ne
  obtain ⟨_, _, hview⟩ := h.view
  rw [hview, if_pos rfl, Option.some.injEq] at hnew
  simp [← hnew, Entry.isWay]

theorem wrote_put (htree : fs.IsTree) {bytes : Bytes} (hparent : fs.HasDirectory there)
    (hold : ∀ entry, fs.entry? (there ++ [name]) = some entry → ¬ entry.isWay) (id : Nat)
    (executable : Bool) :
    Wrote fs (fs.put (there ++ [name]) (.file id ⟨bytes, 0⟩ executable)) there name bytes := by
  refine ⟨hparent, hold, htree.put (by simp) (by rwa [List.dropLast_concat]) ?_ _, id, executable,
    fs.entry?_put (by simp) _⟩
  rintro ⟨_, hdirectory⟩
  exact hold _ hdirectory rfl

/-- Writing a file puts it under its name in the directory that the names before lead to, unless
something else than a file stands there. -/
theorem exists_of_writeBytes (htree : fs.IsTree) (h : IsName name)
    (hkeeping : ∀ found entry,
      fs.resolve base (directory.join ⟨name⟩) false = .ok (found, some entry) → Keeping entry)
    {bytes : Bytes} (hwrite : fs.writeBytes base (directory.join ⟨name⟩) bytes = .ok fs') :
    (directory.join ⟨name⟩).Fits ∧ ∃ links there,
      Leads fs maxLinks (start base directory) directory.parts links there ∧
        Wrote fs fs' there name bytes := by
  have hfollow : ∀ {result}, fs.resolve base (directory.join ⟨name⟩) true = .ok result ↔
      fs.resolve base (directory.join ⟨name⟩) false = .ok result := by
    refine resolve_name_follow h fun found target hlink => ?_
    rcases hkeeping found _ hlink with hdirectory | ⟨_, _, _, hfile⟩
    · cases hdirectory
    · cases hfile
  rw [writeBytes, FileSystem.modify] at hwrite
  split at hwrite
  · cases hwrite
  · next found id content executable hresolve =>
      obtain rfl := Except.ok.inj hwrite
      obtain ⟨hfits, links, there, hway, rfl, hentry⟩ :=
        (resolve_name_iff h).mp (hfollow.mp hresolve)
      have hparent := htree (there ++ [name]) (by simp) (by rw [← hentry]; rfl)
      rw [List.dropLast_concat] at hparent
      refine ⟨hfits, links, there, hway, wrote_put htree hparent ?_ id executable⟩
      intro entry hold
      rw [← hentry, Option.some.injEq] at hold
      simp [← hold, Entry.isWay]
  · cases hwrite
  · next found entry hfile hdirectory hresolve =>
      rcases hkeeping found entry (hfollow.mp hresolve) with hkind | ⟨id, content, _, hkind⟩
      · cases entry with
        | directory id => exact absurd rfl (hdirectory id)
        | _ => cases hkind
      · exact absurd hkind (hfile id content _)
  · next found hresolve =>
      split at hwrite
      · cases hwrite
      · next hcheck =>
          obtain rfl := Except.ok.inj hwrite
          obtain ⟨hfits, links, there, hway, rfl, hentry⟩ :=
            (resolve_name_iff h).mp (hfollow.mp hresolve)
          have hparent := hasDirectory_of_checkParent hcheck
          rw [List.dropLast_concat] at hparent
          have hput : Wrote fs _ there name bytes :=
            wrote_put htree hparent (by simp [← hentry]) fs.nextId false
          exact ⟨hfits, links, there, hway, hparent, hput.old, hput.tree.congr fun _ => rfl,
            hput.view⟩

/-- Renaming a file within a directory moves it, unless a directory has its new name. -/
theorem rename_name (hformer : IsName former) (h : IsName name) (hne : former ≠ name)
    (hfitsFormer : (directory.join ⟨former⟩).Fits) (hfits : (directory.join ⟨name⟩).Fits)
    (hway : Leads fs maxLinks (start base directory) directory.parts links there)
    (hthere : fs.HasDirectory there) {entry : Entry}
    (hentry : fs.entry? (there ++ [former]) = some entry) (hfile : ¬ entry.isWay) :
    fs.rename base (directory.join ⟨former⟩) (directory.join ⟨name⟩) =
      match fs.entry? (there ++ [name]) with
      | some (.directory _) => .error .isDirectory
      | _ => .ok ((fs.prune (there ++ [former])).put (there ++ [name]) entry) := by
  have hsource : fs.resolve base (directory.join ⟨former⟩) false =
      .ok (there ++ [former], some entry) :=
    (resolve_name_iff hformer).mpr ⟨hfitsFormer, links, there, hway, rfl, hentry.symm⟩
  have htarget : fs.resolve base (directory.join ⟨name⟩) false =
      .ok (there ++ [name], fs.entry? (there ++ [name])) :=
    (resolve_name_iff h).mpr ⟨hfits, links, there, hway, rfl, rfl⟩
  have hmoved : there ++ [former] ≠ there ++ [name] := by simpa using hne
  have hcheck : fs.checkParent (there ++ [name]) = .ok () := by
    obtain ⟨id, hid⟩ := hthere
    rw [checkParent, if_neg (by simp [h.slash_not_mem]), List.dropLast_concat, hid]
  rw [rename, hsource, htarget]
  cases entry with
  | directory id => exact absurd rfl hfile
  | link target => exact absurd rfl hfile
  | _ =>
      cases hold : fs.entry? (there ++ [name]) with
      | none => simp only [if_neg hmoved, hcheck]
      | some old =>
          cases old with
          | directory id => rfl
          | _ => simp only [if_neg hmoved, hcheck]

end FileSystem

open FileSystem

/-- The directory from which relative paths are seen stays as long as the directories do. -/
theorem World.base_of_hasDirectory {world : World} {files : FileSystem}
    (h : ∀ location id, files.entry? location = some (.directory id) ↔
      world.files.entry? location = some (.directory id)) :
    World.base { world with files } = world.base := by
  have hexists : World.cwdExists { world with files } = world.cwdExists := by
    rw [Bool.eq_iff_iff, World.cwdExists, World.cwdExists, beq_iff_eq, beq_iff_eq]
    exact h world.cwd world.cwdId
  rw [World.base, World.base, hexists]

/-! ### Records -/

namespace BuildRecord

variable {world : World} {location : Path} {files : FileSystem} {links : Nat} {there : Location}

/-- Whether nothing but a file or a directory stands in the place of a draft. -/
def DraftKept (world : World) (location : Path) : Prop :=
  ∀ found entry, world.files.resolve world.base (recordDraft location) false =
    .ok (found, some entry) → Keeping entry

/-- Whether the way to a record does not lead through a link in the place of the record. -/
def OffTheWay (world : World) (location : Path) : Prop :=
  ∀ found target, world.files.resolve world.base (recordFile location) false =
      .ok (found, some (.link target)) →
    (world.files.prune found).resolve world.base (recordFile location) false = .ok (found, none)

theorem fits_recordFile (h : (recordDraft location).Fits) : (recordFile location).Fits := by
  have hdraft : recordDraft location = location.join ⟨entryName ++ Bytes.ofText ".tmp"⟩ := by
    rw [← Bytes.ofText_append]
    rfl
  have hbytes := location.bytes_join_append isName_recordName.isPart (Bytes.ofText ".tmp")
  rw [hdraft] at h
  refine h.of_prefix ⟨_, hbytes.symm⟩ ?_
  exact location.bytes_join_ne_nil isName_recordName.isPart

/-- What is loaded from a file that holds a text. -/
theorem load_of_file {found : Location} {id : Nat} {text : String} {executable : Bool}
    (h : world.files.resolve world.base (recordFile location) true =
      .ok (found, some (.file id ⟨Bytes.ofText text, 0⟩ executable))) :
    load world location = ofContent (recordFile location) text := by
  simp only [load, World.readText, readText, readBytes, find, h, Content.bytes,
    List.replicate_zero, List.append_nil, Bytes.text?_ofText]

theorem load_of_directory {found : Location} {id : Nat}
    (h : world.files.resolve world.base (recordFile location) true =
      .ok (found, some (.directory id))) :
    load world location = (none, []) := by
  simp only [load, World.readText, readText, readBytes, find, h]

/-- What stands in the place of a record is found there, unless it is a link. -/
theorem resolve_recordFile (world : World) (hfits : (recordFile location).Fits)
    (hway : Leads world.files maxLinks (start world.base location) location.parts links there)
    (hlink : ∀ target, world.files.entry? (there ++ [entryName]) ≠ some (.link target)) :
    world.files.resolve world.base (recordFile location) true =
      .ok (there ++ [entryName], world.files.entry? (there ++ [entryName])) := by
  refine (resolve_name_follow isName_recordName fun found target hfound => ?_).mpr
    ((resolve_name_iff isName_recordName).mpr ⟨hfits, links, there, hway, rfl, rfl⟩)
  obtain ⟨_, _, there', hway', rfl, hentry⟩ := (resolve_name_iff isName_recordName).mp hfound
  obtain ⟨_, rfl⟩ := hway.unique hway'
  exact hlink target hentry.symm

/-! ### Moving -/

/-- The files after a draft in a directory has become a record. -/
def moved (files : FileSystem) (there : Location) (draft : Entry) : FileSystem :=
  (files.prune (there ++ [draftName])).put (there ++ [entryName]) draft

theorem entry?_moved {text : String}
    (hwrote : Wrote world.files files there draftName (Bytes.ofText text)) (draft : Entry)
    (other : Location) :
    FileSystem.entry? (moved files there draft) other =
      if other = there ++ [entryName] then some draft
      else if other = there ++ [draftName] then none else world.files.entry? other := by
  have hnot : ¬ files.HasDirectory (there ++ [draftName]) := by
    obtain ⟨id, executable, hview⟩ := hwrote.view
    rintro ⟨id', hid⟩
    rw [hview, if_pos rfl] at hid
    cases hid
  rw [moved, entry?_put _ (by simp), entry?_prune_of_not_directory hwrote.tree (by simp) hnot]
  by_cases hother : other = there ++ [draftName]
  · rw [if_pos hother, if_pos hother]
  · rw [if_neg hother, if_neg hother, hwrote.view_of_ne hother]

/-- Moving a draft changes no directory and no link but one in the place of the record. -/
theorem entry?_moved_of_isWay {text : String}
    (hwrote : Wrote world.files files there draftName (Bytes.ofText text)) (draft : Entry)
    {other : Location} {entry : Entry} (hother : other ≠ there ++ [entryName])
    (hentry : entry.isWay) :
    FileSystem.entry? (moved files there draft) other = some entry ↔
      world.files.entry? other = some entry := by
  rw [entry?_moved hwrote, if_neg hother]
  split
  · next hd =>
      subst hd
      exact iff_of_false (by simp) fun hold => hwrote.old entry hold hentry
  · rfl

/-- Moving a draft within the directory of its environment, once it is written. -/
theorem moveDraft_of_wrote {text : String}
    (hfits : (recordDraft location).Fits)
    (hway : Leads world.files maxLinks (start world.base location) location.parts links there)
    (hwrote : Wrote world.files files there draftName (Bytes.ofText text)) :
    (∃ draft, files.entry? (there ++ [draftName]) = some draft ∧
        (∀ id, world.files.entry? (there ++ [entryName]) ≠ some (.directory id)) ∧
        moveDraft location { world with files } =
          (.ok (), { world with files := moved files there draft })) ∨
      ∃ id cause, world.files.entry? (there ++ [entryName]) = some (.directory id) ∧
        moveDraft location { world with files } = (.error cause, { world with files }) := by
  have hways := hwrote.sameWays
  have hbase : World.base { world with files } = world.base :=
    World.base_of_hasDirectory fun other id => (hways other (.directory id) rfl).symm
  obtain ⟨id, executable, hview⟩ := hwrote.view
  have hdraft := (hview (there ++ [draftName])).trans (if_pos rfl)
  have hrename := rename_name isName_draftName isName_recordName entryName_ne_draftName.symm hfits
    (fits_recordFile hfits) (hways.leads_iff.mp hway)
    ((hways.hasDirectory_iff there).mp hwrote.parent) hdraft (by simp [Entry.isWay])
  rw [hwrote.view_of_ne entryName_join_ne] at hrename
  rw [moveDraft, World.change, hbase]
  change files.rename world.base (recordDraft location) (recordFile location) = _ at hrename
  rw [hrename]
  cases hold : world.files.entry? (there ++ [entryName]) with
  | none => exact Or.inl ⟨_, hdraft, by simp, rfl⟩
  | some old =>
      cases old with
      | directory id => exact Or.inr ⟨id, _, rfl, rfl⟩
      | _ => exact Or.inl ⟨_, hdraft, by simp, rfl⟩

/-- The way to a record is still there when another file has taken the place of the record. -/
theorem leads_of_moved (hoff : OffTheWay world location) (hfits : (recordFile location).Fits)
    (hway : Leads world.files maxLinks (start world.base location) location.parts links there)
    (hplain : ∀ id, world.files.entry? (there ++ [entryName]) ≠ some (.directory id))
    (hview : ∀ other entry, other ≠ there ++ [entryName] → entry.isWay →
      world.files.entry? other = some entry → files.entry? other = some entry) :
    ∃ links', Leads files maxLinks (start world.base location) location.parts links' there := by
  by_cases hold : ∃ target, world.files.entry? (there ++ [entryName]) = some (.link target)
  · -- The way leads past the link, so it is there without it.
    obtain ⟨target, hlink⟩ := hold
    obtain ⟨_, links', there', hpast, hfound, _⟩ := (resolve_name_iff isName_recordName).mp
      (hoff _ target ((resolve_name_iff isName_recordName).mpr
        ⟨hfits, links, there, hway, rfl, hlink.symm⟩))
    obtain ⟨rfl, _⟩ := List.append_inj' hfound rfl
    refine ⟨links', hpast.mono fun other entry hentry hstood => ?_⟩
    rw [entry?_prune] at hstood
    split at hstood
    · cases hstood
    · next hkept =>
        refine hview other entry ?_ hentry hstood
        rintro rfl
        exact hkept ⟨by simp, List.prefix_rfl⟩
  · refine ⟨links, hway.mono fun other entry hentry hstood => ?_⟩
    refine hview other entry ?_ hentry hstood
    rintro rfl
    cases entry with
    | directory id => exact hplain id hstood
    | link target => exact hold ⟨target, hstood⟩
    | _ => cases hentry

/-- After the draft has become the record, its text is loaded. -/
theorem load_moved {text : String} {draft : Entry} (hoff : OffTheWay world location)
    (hfits : (recordFile location).Fits)
    (hway : Leads world.files maxLinks (start world.base location) location.parts links there)
    (hplain : ∀ id, world.files.entry? (there ++ [entryName]) ≠ some (.directory id))
    (hwrote : Wrote world.files files there draftName (Bytes.ofText text))
    (hdraft : files.entry? (there ++ [draftName]) = some draft) :
    load { world with files := moved files there draft } location =
      ofContent (recordFile location) text := by
  obtain ⟨id, executable, hfile⟩ := hwrote.view
  have hfile : draft = .file id ⟨Bytes.ofText text, 0⟩ executable :=
    Option.some.inj (hdraft.symm.trans ((hfile _).trans (if_pos rfl)))
  have hself := (entry?_moved hwrote draft (there ++ [entryName])).trans (if_pos rfl)
  rw [hfile] at hself
  have hbase : World.base { world with files := moved files there draft } = world.base := by
    refine World.base_of_hasDirectory fun other id' => ?_
    by_cases hother : other = there ++ [entryName]
    · subst hother
      rw [hfile, hself]
      exact iff_of_false (by simp) (hplain id')
    · exact entry?_moved_of_isWay hwrote draft hother rfl
  obtain ⟨links', hway'⟩ := leads_of_moved hoff hfits hway hplain
    fun other entry hother hentry => (entry?_moved_of_isWay hwrote draft hother hentry).mpr
  have hfound := resolve_recordFile { world with files := moved files there draft } hfits
    (hbase ▸ hway') (by simp [hfile, hself])
  exact load_of_file (hfound.trans (by rw [hfile, hself]))

/-! ### Storing -/

/-- **A record that is stored is the one that is loaded, and a store that fails leaves what is
loaded**, for every record, location and state of the files in which the draft keeps what is written
to it and the way to the record does not lead through the record. -/
theorem load_store (record : BuildRecord) (htree : world.files.IsTree)
    (hdraft : DraftKept world location) (hoff : OffTheWay world location) :
    ((record.store location world).1 = .ok () →
      (load (record.store location world).2 location).1 =
        if record.fingerprint.isWellFormed then some record else none) ∧
    ((record.store location world).1 ≠ .ok () →
      load (record.store location world).2 location = load world location) := by
  rw [store, writeDraft, World.change]
  cases hwrite : world.files.writeBytes world.base (recordDraft location)
      (Bytes.ofText record.text) with
  | error cause => exact ⟨fun hok => (by cases hok), fun _ => rfl⟩
  | ok files =>
      obtain ⟨hfits, links, there, hway, hwrote⟩ :=
        exists_of_writeBytes htree isName_draftName hdraft hwrite
      rcases moveDraft_of_wrote hfits hway hwrote with
        ⟨draft, hentry, hplain, hmove⟩ | ⟨id, cause, hdirectory, hmove⟩
      · dsimp only
        rw [hmove]
        refine ⟨fun _ => ?_, fun hfail => absurd rfl hfail⟩
        rw [load_moved hoff (fits_recordFile hfits) hway hplain hwrote hentry, ofContent,
          parse?_text]
        dsimp only
        split <;> rfl
      · -- A directory in the place of the record is loaded as none, before and after.
        dsimp only
        rw [hmove]
        refine ⟨fun hok => (by cases hok), fun _ => ?_⟩
        have hbase : World.base { world with files } = world.base :=
          World.base_of_hasDirectory fun other id =>
            (hwrote.sameWays other (.directory id) rfl).symm
        have hfitsRecord := fits_recordFile hfits
        have hbefore := resolve_recordFile world hfitsRecord hway (by simp [hdirectory])
        have hentry : files.entry? (there ++ [entryName]) = some (.directory id) := by
          rw [hwrote.view_of_ne entryName_join_ne, hdirectory]
        have hafter := resolve_recordFile { world with files } hfitsRecord
          (hbase ▸ hwrote.sameWays.leads_iff.mp hway) (by simp [hentry])
        rw [load_of_directory (hbefore.trans (by rw [hdirectory])),
          load_of_directory (hafter.trans (by rw [hentry]))]

theorem eq_ok_of_isOk {result : Except Failure Unit} (h : result.isOk) : result = .ok () := by
  cases result with
  | error failure => cases h
  | ok => rfl

/-- A record of nothing. -/
def sampleRecord : BuildRecord :=
  .make "tool" "python3" ⟨String.ofList (List.replicate 64 '0')⟩ [] .epoch

/-- A world with some files. -/
def worldWith (entries : List (Location × Entry)) : World :=
  { (default : World) with files := ⟨entries, entries.length⟩ }

/-- A record stored where there are no files yet. -/
theorem load_store_root :
    (worldWith []).files.IsTree ∧ DraftKept (worldWith []) (.ofText "/") ∧
      OffTheWay (worldWith []) (.ofText "/") ∧
      (sampleRecord.store (.ofText "/") (worldWith [])).1 = .ok () ∧
      (load (sampleRecord.store (.ofText "/") (worldWith [])).2 (.ofText "/")).1 =
        some sampleRecord := by
  have htree : (worldWith []).files.IsTree := isTree_of_entries (by decide)
  have hdraft : ((worldWith []).files.resolve (worldWith []).base (recordDraft (.ofText "/"))
      false).toOption = some ([draftName], none) := by
    decide +kernel
  have hfile : ((worldWith []).files.resolve (worldWith []).base (recordFile (.ofText "/"))
      false).toOption = some ([entryName], none) := by
    decide +kernel
  have hkept : DraftKept (worldWith []) (.ofText "/") := fun found entry hfound => by
    rw [hfound] at hdraft
    cases hdraft
  have hoff : OffTheWay (worldWith []) (.ofText "/") := fun found target hfound => by
    rw [hfound] at hfile
    cases hfile
  have hok : (sampleRecord.store (.ofText "/") (worldWith [])).1 = .ok () := by
    refine eq_ok_of_isOk ?_
    rw [store, writeDraft_eq]
    decide +kernel
  have hload := (load_store sampleRecord htree hkept hoff).1 hok
  exact ⟨htree, hkept, hoff, hok, hload.trans (if_pos (by decide))⟩

/-! ### In and out of the way -/

/-- The files where a link to a directory stands in the place of a record, and the location that is
reached through the link. -/
def linkedFiles : List (Location × Entry) :=
  [(.ofText "/d", .directory 0), (.ofText "/d/sub", .directory 1),
    (.ofText "/d/.spycery_build.json", .link (.ofText "sub"))]

def linkedLocation : Path := .ofText "/d/.spycery_build.json/.."

/-- The files where a device that keeps nothing stands in the place of a draft. -/
def sinkFiles : List (Location × Entry) :=
  [(.ofText "/e", .directory 0), (.ofText "/e/.spycery_build.json.tmp", .device .null)]

/-- Whether nothing is loaded although a record was stored. -/
def IsLost (record : BuildRecord) (location : Path) (world : World) : Prop :=
  (record.store location world).1.isOk ∧ (load (record.store location world).2 location).1 = none

/-- Nothing is loaded after a store that succeeds where the way to the record leads through the
record, although nothing stands in the place of the draft, and where the draft keeps nothing. -/
theorem not_load_store :
    sampleRecord.fingerprint.isWellFormed ∧
      ((worldWith linkedFiles).files.IsTree ∧
        ((worldWith linkedFiles).files.resolve [] (recordDraft linkedLocation) false).toOption =
          some (Location.ofText "/d" ++ [draftName], none) ∧
        sampleRecord.IsLost linkedLocation (worldWith linkedFiles)) ∧
      ((worldWith sinkFiles).files.IsTree ∧
        ((worldWith sinkFiles).files.resolve [] (recordDraft (.ofText "/e")) false).toOption =
          some (Location.ofText "/e" ++ [draftName], some (.device .null)) ∧
        sampleRecord.IsLost (.ofText "/e") (worldWith sinkFiles)) := by
  have hlinked : (worldWith linkedFiles).files.IsTree := isTree_of_entries (by decide +kernel)
  have hsink : (worldWith sinkFiles).files.IsTree := isTree_of_entries (by decide +kernel)
  simp only [hlinked, hsink, true_and, IsLost, load_eq, store, writeDraft_eq]
  decide +kernel

end BuildRecord
end Enclave
