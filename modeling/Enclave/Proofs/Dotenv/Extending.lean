import Enclave.Proofs.Dotenv.Loading

/-! # Files of variables as extensions of the environment

A file without NUL is loaded whatever it says.  It gives every variable that was not set the value of
its first assignment and changes nothing else, and it does nothing when it is loaded again
(`load_extends`).  Assignments can be performed in parts (`assignAll_append`), so files that are
loaded one after the other do what one file with the lines of both does (`parse_of_isJoined`). -/

namespace Enclave

/-- Whether every variable that is set is set to a text. -/
def Environ.IsText (env : Environ) : Prop :=
  ∀ key bytes, env.get? key = some bytes → bytes.text?.isSome

namespace Dotenv

open Text

variable {env middle after : Environ} {entries first : List (String × String)} {key value : String}

/-! ### Assignments in parts -/

theorem assignAll_append (h : assignAll env first = (none, middle))
    (second : List (String × String)) :
    assignAll env (first ++ second) = assignAll middle second := by
  induction first generalizing env with
  | nil =>
      obtain ⟨_, rfl⟩ := Prod.mk.inj h
      rfl
  | cons entry first ih =>
      obtain ⟨key, value⟩ := entry
      rw [assignAll] at h
      rw [List.cons_append, assignAll]
      cases hassign : assign env key value with
      | error refusal => simp [hassign] at h
      | ok next =>
          rw [hassign] at h
          exact ih h

/-- Once a file is loaded, a variable has the text that it had, or else that of its first
assignment. -/
theorem text?_assignAll (h : assignAll env entries = (none, after)) (key : String) :
    after.text? key = (env.text? key).or (entries.lookup key) := by
  rw [Environ.text?, get?_assignAll h]
  cases htext : env.text? key with
  | some text =>
      rw [pending?_of_text (by rw [htext]; rfl)]
      exact htext
  | none =>
      rw [pending?_of_none htext]
      cases entries.lookup key with
      | some value => exact Bytes.text?_ofText value
      | none => exact htext

/-- Where all variables are set to texts, the entries for them come to nothing. -/
theorem assignAll_of_text (h : ∀ entry ∈ entries, (env.text? entry.1).isSome) :
    assignAll env entries = (none, env) := by
  induction entries with
  | nil => rfl
  | cons entry entries ih =>
      rw [assignAll, assign_of_text (h entry List.mem_cons_self)]
      exact ih fun other hother => h other (List.mem_cons_of_mem _ hother)

theorem assignAll_again (h : assignAll env entries = (none, after)) :
    assignAll after entries = (none, after) := by
  refine assignAll_of_text fun entry hentry => ?_
  rw [text?_assignAll h, Option.isSome_or, Bool.or_eq_true]
  right
  rw [Option.isSome_iff_ne_none]
  exact fun hnone => Table.get?_eq_none_iff.mp hnone (List.mem_map_of_mem hentry)

/-- Where every variable is set to a text or not set, the first assignment counts for those that are
not set. -/
theorem get?_assignAll_of_isText (htext : env.IsText) (h : assignAll env entries = (none, after))
    (key : String) :
    after.get? key = (env.get? key).or ((entries.lookup key).map Bytes.ofText) := by
  rw [get?_assignAll h]
  cases hget : env.get? key with
  | some bytes =>
      have hsome : (env.text? key).isSome := by
        rw [Environ.text?, hget]
        exact htext key bytes hget
      rw [pending?_of_text hsome]
      rfl
  | none => rw [pending?_of_none (by rw [Environ.text?, hget]; rfl), Option.or_none, Option.none_or]

/-! ### Characters of a file -/

theorem mem_of_mem_dropQuotes {text : List Char} {c : Char} (h : c ∈ dropQuotes text) :
    c ∈ text := by
  rw [dropQuotes] at h
  split at h
  · exact List.mem_of_mem_tail (List.dropLast_subset _ h)
  · exact h

theorem mem_of_mem_dropComment {text : List Char} {c : Char} (h : c ∈ dropComment text) :
    c ∈ text := by
  rw [dropComment] at h
  dsimp only at h
  split at h
  · split at h
    · exact h
    · obtain ⟨back, _, hback⟩ := exists_trimEnd (text.takeWhile (· != '#'))
      have hbefore : c ∈ text.takeWhile (· != '#') := hback ▸ List.mem_append_left back h
      exact (List.takeWhile_prefix _).subset hbefore
  · exact h

theorem mem_of_mem_valueOf {text : List Char} {c : Char} (h : c ∈ valueOf text) : c ∈ text :=
  mem_of_mem_trim (mem_of_mem_dropComment (mem_of_mem_dropQuotes h))

theorem mem_of_parseLine {line key value : List Char} (h : parseLine line = some (key, value))
    {c : Char} (hc : c ∈ key ∨ c ∈ value) : c ∈ line := by
  rw [parseLine] at h
  dsimp only at h
  split at h
  · cases h
  · split at h
    · cases h
    · obtain ⟨rfl, rfl⟩ := Prod.mk.inj (Option.some.inj h)
      refine mem_of_mem_trim ?_
      rcases hc with hkey | hvalue
      · exact (List.takeWhile_prefix _).subset (mem_of_mem_keyOf hkey)
      · exact (List.dropWhile_suffix _).subset (List.mem_of_mem_tail (mem_of_mem_valueOf hvalue))

/-- What a file assigns has no characters but those of the file. -/
theorem mem_of_mem_parse {text : String} (h : (key, value) ∈ parse text) {c : Char}
    (hc : c ∈ key.toList ∨ c ∈ value.toList) : c ∈ text.toList := by
  obtain ⟨line, hline, hentry⟩ := List.mem_filterMap.mp h
  obtain ⟨⟨keyChars, valueChars⟩, hparse, heq⟩ := Option.map_eq_some_iff.mp hentry
  obtain ⟨rfl, rfl⟩ := Prod.mk.inj heq
  rw [String.toList_ofList, String.toList_ofList] at hc
  exact mem_of_mem_lines hline (mem_of_parseLine hparse hc)

/-! ### Files one after the other -/

/-- Whether a text has the lines of one text followed by those of another, but for blank characters
at the ends of lines. -/
def IsJoined (whole first second : String) : Prop :=
  (lines whole.toList).map trim = (lines first.toList ++ lines second.toList).map trim

/-- Two texts are joined by writing the second one after the first one with its last line ended. -/
theorem isJoined_closed (first second : String) :
    IsJoined (String.ofList (closed first.toList ++ second.toList)) first second := by
  rw [IsJoined, String.toList_ofList]
  exact map_trim_lines_closed_append _ _

theorem parseLine_trim (line : List Char) : parseLine (trim line) = parseLine line := by
  rw [parseLine, parseLine, (isTrimmed_trim line).trim_eq]

theorem parse_of_isJoined {whole first second : String} (h : IsJoined whole first second) :
    parse whole = parse first ++ parse second := by
  have htrimmed : ∀ {β : Type} (entry : List Char × List Char → β) (texts : List (List Char)),
      texts.filterMap (fun line => (parseLine line).map entry) =
        (texts.map trim).filterMap fun line => (parseLine line).map entry := by
    intro β entry texts
    rw [List.filterMap_map]
    exact List.filterMap_congr fun line _ => by rw [Function.comp_apply, parseLine_trim]
  rw [parse, parse, parse, ← List.filterMap_append, htrimmed, h, ← htrimmed]

/-! ### Loading -/

/-- Whether the file of a directory holds a text without NUL. -/
structure Holds (world : World) (directory : Path) (text : String) : Prop where
  readText : world.readText (directory.child fileName) = .ok text
  nul_not_mem : '\x00' ∉ text.toList

/-- The report about the file of a directory that was loaded. -/
def loaded (directory : Path) : Event :=
  ⟨.debug, .loader, "loaded .env", [("path", (directory.child fileName).display)]⟩

variable {world : World} {directory : Path} {text : String}

/-- A file without NUL is loaded to its end. -/
theorem Holds.load_eq (h : Holds world directory text) :
    ∃ environ, assignAll world.environ (parse text) = (none, environ) ∧
      load directory world = (none, { world with environ }.report (loaded directory)) := by
  have hnone : (assignAll world.environ (parse text)).1 = none := by
    rw [← Option.not_isSome_iff_eq_none, isSome_assignAll_iff]
    rintro ⟨key, value, hpending, hnot⟩
    have hassigns : assignments directory world = parse text := by rw [assignments, h.readText]
    have hmem : (key, value) ∈ parse text := by
      rw [pending?] at hpending
      split at hpending
      · cases hpending
      · obtain ⟨front, back, hentries, _⟩ := List.lookup_eq_some_iff.mp hpending
        simp [hentries]
    refine hnot ((admissible_iff (hassigns ▸ hmem)).mpr ⟨fun hkey => ?_, fun hvalue => ?_⟩)
    · exact h.nul_not_mem (mem_of_mem_parse hmem (.inl hkey))
    · exact h.nul_not_mem (mem_of_mem_parse hmem (.inr hvalue))
  have hall : assignAll world.environ (parse text) =
      (none, (assignAll world.environ (parse text)).2) := Prod.ext hnone rfl
  refine ⟨(assignAll world.environ (parse text)).2, hall, ?_⟩
  rw [load, h.readText]
  dsimp only
  rw [hall]
  rfl

/-- **What a file of variables means**, where every variable is set to a text or not set.  Loading
the file succeeds and gives every variable that was not set the value of its first assignment, if
there is one; nothing else is changed.  Loading it again changes nothing.  Loading another file after
it, from wherever, gives the environment that one file with the lines of both gives. -/
theorem load_extends (htext : world.environ.IsText) (h : Holds world directory text) :
    ∃ environ : Environ,
      load directory world = (none, { world with environ }.report (loaded directory)) ∧
      (∀ key, environ.get? key =
        (world.environ.get? key).or (((parse text).lookup key).map Bytes.ofText)) ∧
      load directory (load directory world).2 =
        (none, (load directory world).2.report (loaded directory)) ∧
      ∀ (next other : World) (directory' directory'' : Path) (second whole : String),
        Holds next directory' second → next.environ = environ →
        Holds other directory'' whole → other.environ = world.environ →
        IsJoined whole text second →
        (load directory' next).1 = none ∧ (load directory'' other).1 = none ∧
          (load directory'' other).2.environ = (load directory' next).2.environ := by
  obtain ⟨environ, hassign, hload⟩ := h.load_eq
  have hagain : Holds (load directory world).2 directory text := by
    rw [hload]
    exact ⟨h.readText, h.nul_not_mem⟩
  refine ⟨environ, hload, get?_assignAll_of_isText htext hassign, ?_, ?_⟩
  · obtain ⟨environ', hassign', hload'⟩ := hagain.load_eq
    rw [hload] at hassign'
    obtain ⟨_, rfl⟩ := Prod.mk.inj ((assignAll_again hassign).symm.trans hassign')
    rw [hload', hload]
    rfl
  · intro next other directory' directory'' second whole hnext henviron hother hsame hjoined
    obtain ⟨last, hlast, hloadNext⟩ := hnext.load_eq
    obtain ⟨last', hlast', hloadOther⟩ := hother.load_eq
    rw [hsame, parse_of_isJoined hjoined, assignAll_append hassign, ← henviron] at hlast'
    obtain ⟨_, rfl⟩ := Prod.mk.inj (hlast.symm.trans hlast')
    rw [hloadNext, hloadOther]
    exact ⟨rfl, rfl, rfl⟩

theorem isText_sampleWorld (value text : String) :
    (sampleWorld (Bytes.ofText value) text).environ.IsText := by
  intro key bytes h
  have hlookup : [("A", Bytes.ofText value)].lookup key = some bytes := h
  rw [List.lookup_cons] at hlookup
  split at hlookup
  · rw [← Option.some.inj hlookup, Bytes.text?_ofText]
    rfl
  · cases hlookup

/-- Of two files the first one counts, and of its assignments to one key the first. -/
theorem load_extends_sample :
    let world := sampleWorld (Bytes.ofText "1") "export B='b'\nA=2\nB=3"
    let after := (load topPath world).2
    let next := { sampleWorld [] "C=4\r\nB=5" with environ := after.environ }
    let other := sampleWorld (Bytes.ofText "1") "export B='b'\nA=2\nB=3\nC=4\nB=5"
    after.environ.get? "A" = some (Bytes.ofText "1") ∧
      after.environ.get? "B" = some (Bytes.ofText "b") ∧
      load topPath after = (none, after.report (loaded topPath)) ∧
      (load topPath other).2.environ = (load topPath next).2.environ := by
  intro world after next other
  have hholds : Holds world topPath "export B='b'\nA=2\nB=3" :=
    ⟨readText_sampleWorld _ _, by decide⟩
  have hnext : Holds next topPath "C=4\r\nB=5" := ⟨readText_sampleWorld [] _, by decide⟩
  have hother : Holds other topPath "export B='b'\nA=2\nB=3\nC=4\nB=5" :=
    ⟨readText_sampleWorld _ _, by decide⟩
  have hparse : parse "export B='b'\nA=2\nB=3" = [("B", "b"), ("A", "2"), ("B", "3")] := by decide
  obtain ⟨environ, hload, hget, hagain, hjoin⟩ := load_extends (isText_sampleWorld _ _) hholds
  have henviron : after.environ = environ := congrArg (fun result => result.2.environ) hload
  rw [hparse] at hget
  refine ⟨by rw [henviron, hget]; rfl, by rw [henviron, hget]; rfl, hagain, ?_⟩
  exact (hjoin next other topPath topPath _ _ hnext henviron hother rfl
    (by rw [IsJoined]; decide)).2.2

end Dotenv
end Enclave
