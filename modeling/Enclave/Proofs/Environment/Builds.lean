import Enclave.Proofs.Environment.Records
import Enclave.Proofs.Lock.Paths
import Enclave.Proofs.Lock.Waiting

/-! # What a build does to the records

Acquiring a lock, removing a record and writing a draft keep the records (`keeps_acquireIn`,
`keeps_remove`, `keeps_writeDraft`).  After a removal that succeeds there is no record, after
writing a draft the file in its place holds the text of the record (`Drafted`), and moving the draft
makes what stands there the record of its environment and of no other (`moveDraft_spec`). -/

namespace Enclave

open Layout FileSystem
open BuildRecord (entryName draftName)

variable {root location : Path} {ban : Ban}

/-! ### Locks -/

namespace BuildLock

theorem keeps_attempt (habsolute : root.isAbsolute) (henvironment : IsEnvironment root location)
    (world : World) :
    Keeps root ban world.files (attempt (lockFile location) world).2.files := by
  obtain ⟨name, hname, _, rfl⟩ := henvironment.exists_name
  have hprepare : ∀ parent, (lockFile (root.join ⟨name⟩)).parent? = some parent →
      Keeps root ban world.files (world.createDirectories parent).2.files := by
    intro parent hparent
    obtain ⟨hparent, hnames⟩ := Path.names_parent?_lockFile habsolute hname hparent
    exact keeps_createDirectoriesUpTo habsolute _ hparent (hnames ▸ List.prefix_rfl)
  have htouch : ∀ prepared : World, Keeps root ban world.files prepared.files →
      ∀ files id, prepared.files.touch prepared.base (lockFile (root.join ⟨name⟩)) =
        .ok (files, id) → Keeps root ban world.files files :=
    fun _ hkeeps _ _ htouch => hkeeps.trans (keeps_touch habsolute htouch)
  rw [attempt]
  cases hparent : (lockFile (root.join ⟨name⟩)).parent? with
  | none =>
      dsimp only
      split
      · exact .refl root ban _
      · next files id hfiles =>
          have hkeeps := htouch world (.refl root ban _) files id hfiles
          split <;> exact hkeeps
  | some parent =>
      have hprepared := hprepare parent hparent
      dsimp only
      split
      · exact hprepared
      · split
        · exact hprepared
        · next files id hfiles =>
            have hkeeps := htouch _ hprepared files id hfiles
            split <;> exact hkeeps

/-- Acquiring the lock of an environment keeps the records. -/
theorem keeps_acquireIn (habsolute : root.isAbsolute) (henvironment : IsEnvironment root location)
    (mode : LockMode) (timeout : Duration) (world : World) :
    Keeps root ban world.files (acquireIn (lockFile location) mode timeout world).2.files := by
  have htries : Tries (lockFile location) (fun now => Keeps root ban world.files now.files)
      fun _ now => Keeps root ban world.files now.files := by
    refine ⟨fun now hnow => ?_, fun _ _ h => h, fun _ _ h => h, fun _ _ h => h⟩
    have hattempt := hnow.trans (keeps_attempt habsolute henvironment now)
    split <;> exact hattempt
  exact htries.acquireIn mode timeout (.refl root ban _)

end BuildLock

/-! ### Records -/

namespace BuildRecord

/-- Where the files of an environment are, if its directory is there. -/
theorem resolve_recordFile_iff {fs : FileSystem} (habsolute : root.isAbsolute)
    (henvironment : IsEnvironment root location) {base : Location} {found : Location}
    {entry : Option Entry} :
    fs.resolve base (recordFile location) false = .ok (found, entry) ↔
      (recordFile location).Fits ∧ ∃ links there, Leads fs maxLinks [] location.parts links there ∧
        found = there ++ [entryName] ∧ entry = fs.entry? (there ++ [entryName]) :=
  resolve_join_iff (henvironment.isAbsolute habsolute) isName_recordName

theorem resolve_recordDraft_iff {fs : FileSystem} (habsolute : root.isAbsolute)
    (henvironment : IsEnvironment root location) {base : Location} {found : Location}
    {entry : Option Entry} :
    fs.resolve base (recordDraft location) false = .ok (found, entry) ↔
      (recordDraft location).Fits ∧ ∃ links there, Leads fs maxLinks [] location.parts links there ∧
        found = there ++ [draftName] ∧ entry = fs.entry? (there ++ [draftName]) :=
  resolve_join_iff (henvironment.isAbsolute habsolute) isName_draftName

variable {fs fs' : FileSystem} {base : Location}

theorem removeFile_recordFile (h : Orderly fs root ban) (habsolute : root.isAbsolute)
    (henvironment : IsEnvironment root location)
    (hremove : fs.removeFile base (recordFile location) = .ok fs') :
    Orderly fs' root ban ∧ fs'.recordAt location = none ∧
      ∀ other, IsEnvironment root other → ∀ record, fs'.recordAt other = some record →
        fs.recordAt other = some record := by
  rw [removeFile] at hremove
  split at hremove
  · cases hremove
  · cases hremove
  · cases hremove
  · next found entry hdirectory hresolve =>
      obtain rfl := Except.ok.inj hremove
      have hentry := entry?_of_resolve hresolve
      have hold : ∀ entry', fs.entry? found = some entry' → ¬ entry'.isWay := by
        intro entry' hentry'
        obtain rfl := Option.some.inj (hentry.symm.trans hentry')
        rw [resolve_base (henvironment.isAbsolute_recordFile habsolute)] at hresolve
        exact h.not_isWay henvironment (recordFile_mem_places location) hresolve hdirectory
      have hne : found ≠ [] := by
        rintro rfl
        exact hold _ fs.entry?_nil rfl
      obtain ⟨horder', hways⟩ := h.of_prune habsolute hne hold
      have hview := entry?_prune_of_not_directory h.tree hne fun hdir => hold _ hdir.choose_spec rfl
      obtain ⟨_, links, there, hway, rfl, _⟩ :=
        (resolve_recordFile_iff habsolute henvironment).mp hresolve
      refine ⟨horder', ?_, fun other hother record hrecord => ?_⟩
      · rw [Option.eq_none_iff_forall_ne_some]
        intro record hrecord
        obtain ⟨_, _, _, _, hway', hentry', _⟩ :=
          (recordAt_eq_some_iff horder' habsolute henvironment).mp hrecord
        obtain ⟨_, rfl⟩ := hway.unique (hways.leads_iff.mpr hway')
        simp [hview] at hentry'
      · refine recordAt_of_sameWays h horder' habsolute hways hother ?_ hrecord
        intro _ there' _ entry' _ hentry' _
        rw [hview] at hentry'
        split at hentry'
        · cases hentry'
        · exact hentry'

/-- A missing record counts as removed. -/
theorem remove_eq (location : Path) (world : World) :
    remove location world =
      match world.files.removeFile world.base (recordFile location) with
      | .ok files => (.ok (), { world with files })
      | .error .notFound => (.ok (), world)
      | .error cause => (.error (.remove (recordFile location) cause), world) := by
  rw [remove, World.change]
  cases world.files.removeFile world.base (recordFile location) with
  | ok files => rfl
  | error cause => cases cause <;> rfl

/-- Removing the record of an environment keeps the other records, and leaves none if it
succeeds. -/
theorem keeps_remove (habsolute : root.isAbsolute) (henvironment : IsEnvironment root location)
    (world : World) :
    Keeps root ban world.files (remove location world).2.files ∧
      ((remove location world).1 = .ok () → Orderly world.files root ban →
        (remove location world).2.files.recordAt location = none) := by
  rw [remove_eq]
  split
  · next files hremove =>
      refine ⟨fun horder => ?_, fun _ horder => ?_⟩
      · obtain ⟨horder', _, hrecords⟩ :=
          removeFile_recordFile horder habsolute henvironment hremove
        exact ⟨horder', hrecords⟩
      · exact (removeFile_recordFile horder habsolute henvironment hremove).2.1
  · next hremove =>
      refine ⟨.refl root ban _, fun _ horder => ?_⟩
      -- A record that could be read could be removed.
      rw [Option.eq_none_iff_forall_ne_some]
      intro record hrecord
      obtain ⟨hfits, links, there, entry, hway, hentry, hread⟩ :=
        (recordAt_eq_some_iff horder habsolute henvironment).mp hrecord
      have hresolve : world.files.resolve world.base (recordFile location) false =
          .ok (there ++ [entryName], some entry) :=
        (resolve_recordFile_iff habsolute henvironment).mpr
          ⟨hfits, links, there, hway, rfl, hentry.symm⟩
      cases entry with
      | file => simp [removeFile, hresolve] at hremove
      | _ => simp [Entry.record?] at hread
  · exact ⟨.refl root ban _, fun hok => absurd hok (by simp)⟩

/-! ### Drafts -/

/-- Whether a file in the place of the draft holds a text. -/
def Drafted (fs : FileSystem) (location : Path) (text : String) : Prop :=
  ∀ links there, Leads fs maxLinks [] location.parts links there → ∀ id content executable,
    fs.entry? (there ++ [draftName]) = some (.file id content executable) →
      content = ⟨Bytes.ofText text, 0⟩

theorem entryName_ne_draftName : entryName ≠ draftName := by decide

theorem entryName_join_ne {a b : Location} : a ++ [entryName] ≠ b ++ [draftName] := fun heq =>
  entryName_ne_draftName (List.cons.inj (List.append_inj_right' heq rfl)).1

/-- A file that is put in the place of a draft is no record. -/
theorem drafted_of_view (h : Orderly fs root ban) (habsolute : root.isAbsolute)
    {links : Nat} {there : Location} (hway : Leads fs maxLinks [] location.parts links there)
    (hold : ∀ entry, fs.entry? (there ++ [draftName]) = some entry → ¬ entry.isWay)
    {text : String} {id : Nat} {executable : Bool}
    (hview : ∀ other, fs'.entry? other = if other = there ++ [draftName] then
      some (.file id ⟨Bytes.ofText text, 0⟩ executable) else fs.entry? other) :
    (Orderly fs' root ban ∧ ∀ other, IsEnvironment root other → ∀ record,
        fs'.recordAt other = some record → fs.recordAt other = some record) ∧
      Drafted fs' location text := by
  have hparent : fs.HasDirectory (there ++ [draftName]).dropLast := by
    rw [List.dropLast_concat]
    exact hway.hasDirectory h.tree hasDirectory_nil
  obtain ⟨horder', hways⟩ := h.of_file habsolute (by simp) hparent hold (by simp [Entry.isWay])
    (ban.file _ _ _) hview
  refine ⟨⟨horder', fun other hother record hrecord => ?_⟩, ?_⟩
  · refine recordAt_of_sameWays h horder' habsolute hways hother ?_ hrecord
    intro _ there' _ entry record' hentry _
    rwa [hview, if_neg entryName_join_ne] at hentry
  · intro _ there' hway' id' content executable' hentry
    obtain ⟨_, rfl⟩ := hway.unique (hways.leads_iff.mpr hway')
    rw [hview, if_pos rfl, Option.some.injEq, Entry.file.injEq] at hentry
    exact hentry.2.1.symm

theorem writeBytes_recordDraft (h : Orderly fs root ban) (habsolute : root.isAbsolute)
    (henvironment : IsEnvironment root location) {text : String}
    (hwrite : fs.writeBytes base (recordDraft location) (Bytes.ofText text) = .ok fs') :
    (Orderly fs' root ban ∧ ∀ other, IsEnvironment root other → ∀ record,
        fs'.recordAt other = some record → fs.recordAt other = some record) ∧
      Drafted fs' location text := by
  have hresolves : ∀ {found entry},
      fs.resolve base (recordDraft location) true = .ok (found, entry) →
        ∃ links there, Leads fs maxLinks [] location.parts links there ∧
          found = there ++ [draftName] ∧ entry = fs.entry? (there ++ [draftName]) := by
    intro found entry hresolve
    exact ((resolve_recordDraft_iff habsolute henvironment).mp ((h.resolve_iff habsolute
      henvironment isName_draftName (recordDraft_mem_places location)).mp hresolve)).2
  rw [writeBytes, FileSystem.modify] at hwrite
  split at hwrite
  · cases hwrite
  · next found id content executable hresolve =>
      obtain rfl := Except.ok.inj hwrite
      obtain ⟨links, there, hway, rfl, hentry⟩ := hresolves hresolve
      refine drafted_of_view h habsolute hway ?_ (fs.entry?_put (by simp) _)
      intro entry hold
      rw [← hentry, Option.some.injEq] at hold
      simp [← hold, Entry.isWay]
  · cases hwrite
  · next found entry hfile hdirectory hresolve =>
      obtain rfl := Except.ok.inj hwrite
      obtain ⟨links, there, hway, rfl, hentry⟩ := hresolves hresolve
      refine ⟨⟨h, fun _ _ _ => id⟩, ?_⟩
      intro _ there' hway' id content executable hdraft
      obtain ⟨_, rfl⟩ := hway.unique hway'
      rw [← hentry, Option.some.injEq] at hdraft
      exact absurd hdraft (hfile id content executable)
  · next found hresolve =>
      split at hwrite
      · cases hwrite
      · obtain rfl := Except.ok.inj hwrite
        obtain ⟨links, there, hway, rfl, hentry⟩ := hresolves hresolve
        exact drafted_of_view h habsolute hway (by simp [← hentry]) (fs.entry?_putNew (by simp) _)

/-- Writing a draft keeps the records, and if it succeeds, the draft holds the text of the
record. -/
theorem keeps_writeDraft (habsolute : root.isAbsolute) (henvironment : IsEnvironment root location)
    (record : BuildRecord) (world : World) :
    Keeps root ban world.files (record.writeDraft location world).2.files ∧
      ((record.writeDraft location world).1 = .ok () → Orderly world.files root ban →
        Drafted (record.writeDraft location world).2.files location record.text) := by
  rw [writeDraft, World.change]
  cases hwrite : world.files.writeBytes world.base (recordDraft location)
      (Bytes.ofText record.text) with
  | error cause => exact ⟨.refl root ban _, fun hok => absurd hok (by simp)⟩
  | ok files =>
      exact ⟨fun horder => (writeBytes_recordDraft horder habsolute henvironment hwrite).1,
        fun _ horder => (writeBytes_recordDraft horder habsolute henvironment hwrite).2⟩

/-! ### Moving a draft -/

/-- Two environments have two directories. -/
theorem eq_of_leads (h : Orderly fs root ban) (habsolute : root.isAbsolute) {other : Path}
    (henvironment : IsEnvironment root location) (hother : IsEnvironment root other)
    (hfits : location.Fits) (hotherFits : other.Fits) {links links' : Nat} {there : Location}
    (hway : Leads fs maxLinks [] location.parts links there)
    (hway' : Leads fs maxLinks [] other.parts links' there) : other = location := by
  obtain ⟨name, hname, _, rfl⟩ := henvironment.exists_name
  obtain ⟨name', hname', _, rfl⟩ := hother.exists_name
  obtain ⟨_, above, habove, rfl, _⟩ := h.leads_environment habsolute hname henvironment hfits hway
  obtain ⟨_, above', habove', heq, _⟩ :=
    h.leads_environment habsolute hname' hother hotherFits hway'
  obtain ⟨_, rfl⟩ := habove.unique habove'
  rw [List.append_cancel_left_eq, List.cons.injEq] at heq
  rw [heq.1]

/-- A draft that is moved is taken from its place in the directory of its environment and put in
that of the record. -/
theorem exists_of_rename (h : Orderly fs root ban) (habsolute : root.isAbsolute)
    (henvironment : IsEnvironment root location)
    (hrename : fs.rename base (recordDraft location) (recordFile location) = .ok fs') :
    ∃ links there entry, Leads fs maxLinks [] location.parts links there ∧
      (recordFile location).Fits ∧ fs.entry? (there ++ [draftName]) = some entry ∧
      ¬ entry.isWay ∧ ¬ ban.bans entry ∧
      (∀ replaced, fs.entry? (there ++ [entryName]) = some replaced → ¬ replaced.isWay) ∧
      fs' = (fs.prune (there ++ [draftName])).put (there ++ [entryName]) entry := by
  rw [rename] at hrename
  split at hrename
  · cases hrename
  · cases hrename
  · cases hrename
  · cases hrename
  · cases hrename
  · cases hrename
  · next former entry latter entry' _ hdirectory hold hdraft hrecord =>
      rw [resolve_base (henvironment.isAbsolute_recordDraft habsolute)] at hdraft
      rw [resolve_base (henvironment.isAbsolute_recordFile habsolute)] at hrecord
      have hnotWay := h.not_isWay henvironment (recordDraft_mem_places location) hdraft hdirectory
      have hfree := h.free location henvironment _ (recordDraft_mem_places location) _ _ hdraft
      have hnotWay' : ∀ replaced, entry' = some replaced → ¬ replaced.isWay := by
        rintro replaced rfl
        exact h.not_isWay henvironment (recordFile_mem_places location) hrecord
          fun id heq => hold id (congrArg some heq)
      obtain ⟨_, links, there, hway, rfl, hentry⟩ :=
        (resolve_recordDraft_iff habsolute henvironment).mp hdraft
      obtain ⟨hfits, _, there', hway', rfl, hentry'⟩ :=
        (resolve_recordFile_iff habsolute henvironment).mp hrecord
      obtain ⟨_, rfl⟩ := hway.unique hway'
      rw [if_neg entryName_join_ne.symm] at hrename
      split at hrename
      · cases hrename
      · obtain rfl := Except.ok.inj hrename
        exact ⟨links, there, entry, hway, hfits, hentry.symm, hnotWay, hfree,
          fun replaced hreplaced => hnotWay' replaced (hentry'.trans hreplaced), rfl⟩

/-- Moving a draft makes what stands there the record of its environment, and shows no record of
another one that was not there. -/
theorem rename_recordDraft (h : Orderly fs root ban) (habsolute : root.isAbsolute)
    (henvironment : IsEnvironment root location)
    (hrename : fs.rename base (recordDraft location) (recordFile location) = .ok fs') :
    ∃ links there entry, Leads fs maxLinks [] location.parts links there ∧
      fs.entry? (there ++ [draftName]) = some entry ∧ ¬ entry.isWay ∧ ¬ ban.bans entry ∧
      Orderly fs' root ban ∧ fs'.recordAt location = entry.record? ∧
      ∀ other, IsEnvironment root other → other ≠ location → ∀ record,
        fs'.recordAt other = some record → fs.recordAt other = some record := by
  obtain ⟨links, there, entry, hway, hfits, hentry, hnotWay, hfree, hreplaced, rfl⟩ :=
    exists_of_rename h habsolute henvironment hrename
  have hpruned : ∀ old, fs.entry? (there ++ [draftName]) = some old → ¬ old.isWay := by
    intro old hold
    rw [hentry, Option.some.injEq] at hold
    exact hold ▸ hnotWay
  obtain ⟨horder, hways⟩ := h.of_prune habsolute (by simp) hpruned
  have hview := entry?_prune_of_not_directory h.tree (by simp)
    fun hdir => hpruned _ hdir.choose_spec rfl
  have hparent : (fs.prune (there ++ [draftName])).HasDirectory
      (there ++ [entryName]).dropLast := by
    rw [List.dropLast_concat, ← hways.hasDirectory_iff]
    exact hway.hasDirectory h.tree hasDirectory_nil
  have hlatter : ∀ replaced,
      entry? (fs.prune (there ++ [draftName])) (there ++ [entryName]) = some replaced →
        ¬ replaced.isWay := by
    intro replaced hold
    rw [hview, if_neg entryName_join_ne] at hold
    exact hreplaced replaced hold
  obtain ⟨horder', hways'⟩ := horder.of_file habsolute (by simp) hparent hlatter hnotWay
    hfree ((fs.prune (there ++ [draftName])).entry?_put (by simp) entry)
  refine ⟨links, there, entry, hway, hentry, hnotWay, hfree, horder', ?_, ?_⟩
  · apply recordAt_of_resolve
    refine (horder'.resolve_iff habsolute henvironment isName_recordName
      (recordFile_mem_places location)).mpr ?_
    refine (resolve_recordFile_iff habsolute henvironment).mpr
      ⟨hfits, links, there, (hways.trans hways').leads_iff.mp hway, rfl, ?_⟩
    rw [entry?_put _ (by simp), if_pos rfl]
  · intro other hother hdiffer record hread
    have hotherFits := ((recordAt_eq_some_iff horder' habsolute hother).mp hread).1
    refine recordAt_of_sameWays h horder' habsolute (hways.trans hways') hother ?_ hread
    intro _ there' hway' moved _ hmoved _
    rw [entry?_put _ (by simp)] at hmoved
    split at hmoved
    · next heq =>
        rw [List.append_cancel_right_eq] at heq
        exact absurd (eq_of_leads h habsolute henvironment hother
          (Path.fits_of_fits_join isName_recordName (henvironment.isAbsolute habsolute) hfits)
          (Path.fits_of_fits_join isName_recordName (hother.isAbsolute habsolute) hotherFits)
          hway (heq ▸ hway')) hdiffer
    · rwa [hview, if_neg entryName_join_ne] at hmoved

/-- Moving the draft of an environment that holds the text of a record makes it the record of this
environment. -/
theorem moveDraft_spec (habsolute : root.isAbsolute) (henvironment : IsEnvironment root location)
    {world : World} (h : Orderly world.files root ban) {text : String}
    (hdrafted : Drafted world.files location text) :
    Orderly (moveDraft location world).2.files root ban ∧
      (∀ other, IsEnvironment root other →
        other ≠ location ∨ (moveDraft location world).1 ≠ .ok () → ∀ record,
          (moveDraft location world).2.files.recordAt other = some record →
            world.files.recordAt other = some record) ∧
      ((moveDraft location world).1 = .ok () →
        (∀ record, (moveDraft location world).2.files.recordAt location = some record →
          read? text = some record) ∧
        (ban.IsStrict → (moveDraft location world).2.files.recordAt location = read? text)) := by
  rw [moveDraft, World.change]
  cases hrename : world.files.rename world.base (recordDraft location) (recordFile location) with
  | error cause => exact ⟨h, fun _ _ _ _ => id, fun hok => absurd hok (by simp)⟩
  | ok files =>
      obtain ⟨links, there, entry, hway, hentry, hnotWay, hban, horder, hrecord, hothers⟩ :=
        rename_recordDraft h habsolute henvironment hrename
      have hfile : ∀ id content executable, entry = .file id content executable →
          files.recordAt location = read? text := by
        rintro id content executable rfl
        rw [hrecord, Entry.record?, hdrafted links there hway id content executable hentry,
          Content.bytes, List.replicate_zero, List.append_nil, Bytes.text?_ofText]
        rfl
      refine ⟨horder, fun other hother hcase => ?_, fun _ => ⟨fun record hread => ?_, ?_⟩⟩
      · exact hothers other hother (hcase.resolve_right fun hne => hne rfl)
      · cases entry with
        | file id content executable => exact (hfile id content executable rfl).symm.trans hread
        | _ => simp [hrecord, Entry.record?] at hread
      · intro hstrict
        obtain ⟨id, content, executable, heq⟩ := hstrict entry hban hnotWay
        exact hfile id content executable heq

end BuildRecord
end Enclave
