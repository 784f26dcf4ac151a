import Enclave.Proofs.Context.Application
import Enclave.Proofs.Shell.Running

/-! # Three ways of applying a context

A context is applied in the process, in a child and through statements for a shell.  All of them go
through the same settings in the same order (`settings`), and each statement is a line that a shell
reads as one setter with literal words (`isLine_overrideStatement`).  So where the search path has a
text they change every environment in the same way, and elsewhere all of them fail
(`applications_agree`). -/

namespace Enclave

namespace Shell

open ResolutionContext (quoted)

/-! ### Texts in a script -/

theorem ofBytes_append (a b : Bytes) : ofBytes (a ++ b) = ofBytes a ++ ofBytes b := List.map_append

theorem ofText_append (a b : String) : ofText (a ++ b) = ofText a ++ ofText b := by
  rw [ofText, Bytes.ofText_append, ofBytes_append]
  rfl

theorem ofText_join (texts : List String) :
    ofText (String.join texts) = (texts.map ofText).flatten := by
  induction texts with
  | nil => rfl
  | cons text texts ih => rw [String.join_cons, ofText_append, ih, List.map_cons, List.flatten_cons]

theorem ofBytes_ofChars_cons (c : Char) (rest : List Char) :
    ofBytes (Bytes.ofChars (c :: rest)) =
      ofBytes (String.utf8EncodeChar c) ++ ofBytes (Bytes.ofChars rest) := by
  rw [Bytes.ofChars, List.flatMap_cons, ofBytes_append]
  rfl

/-- The characters below the 128th are seen as themselves. -/
theorem ofBytes_ofChars_of_lt {text : List Char} (h : ∀ c ∈ text, c.toNat < 0x80) :
    ofBytes (Bytes.ofChars text) = text := by
  induction text with
  | nil => rfl
  | cons c rest ih =>
      have hc := h c List.mem_cons_self
      have hfirst : ofBytes (String.utf8EncodeChar c) = [c] := by
        rw [Bytes.utf8EncodeChar_of_lt hc, ofBytes, List.map_singleton,
          UInt8.toNat_ofNat_of_lt' (Nat.lt_trans hc (by decide)), Char.ofNat_toNat]
      rw [ofBytes_ofChars_cons, hfirst, ih fun d hd => h d (List.mem_cons_of_mem c hd),
        List.singleton_append]

/-- No byte of another character looks like a quote. -/
theorem quote_not_mem {c : Char} (hc : c ≠ '\x27') :
    '\x27' ∉ ofBytes (String.utf8EncodeChar c) := by
  intro hmem
  obtain ⟨b, hb, heq⟩ := List.mem_map.mp hmem
  have hquote : b.toNat = '\x27'.toNat := by rw [← toNat_ofNat_byte, heq]
  have hsame := (Bytes.mem_utf8EncodeChar (by rw [hquote]; decide)).mp hb
  exact hc (Char.toNat_inj.mp (hsame.symm.trans hquote))

/-- What stands for a character between single quotes. -/
def escaped (c : Char) : List Char :=
  if c = '\x27' then ['\x27', '\\', '\x27', '\x27'] else [c]

theorem flatMap_escaped {text : List Char} (h : '\x27' ∉ text) : text.flatMap escaped = text := by
  induction text with
  | nil => rfl
  | cons c text ih =>
      rw [List.mem_cons, not_or] at h
      rw [List.flatMap_cons, ih h.2, escaped, if_neg (Ne.symm h.1), List.singleton_append]

theorem ofBytes_ofChars_flatMap_escaped (text : List Char) :
    ofBytes (Bytes.ofChars (text.flatMap escaped)) =
      (ofBytes (Bytes.ofChars text)).flatMap escaped := by
  induction text with
  | nil => rfl
  | cons c text ih =>
      have hfirst : ofBytes (Bytes.ofChars (escaped c)) =
          (ofBytes (String.utf8EncodeChar c)).flatMap escaped := by
        by_cases hc : c = '\x27'
        · subst hc
          rfl
        · rw [escaped, if_neg hc, flatMap_escaped (quote_not_mem hc), ofBytes_ofChars_cons]
          exact List.append_nil _
      rw [List.flatMap_cons, Bytes.ofChars_append, ofBytes_append, hfirst, ih, ofBytes_ofChars_cons,
        List.flatMap_append]

/-- A quoted text is seen as the quoted form of what is seen of the text. -/
theorem ofText_quoted (text : String) :
    ofText (String.ofList (quoted text.toList)) = quoted (ofText text) := by
  have hquote : ofBytes (Bytes.ofChars ['\x27']) = ['\x27'] := rfl
  have hquoted : ∀ text : List Char,
      quoted text = ['\x27'] ++ (text.flatMap escaped ++ ['\x27']) := fun _ => rfl
  rw [ofText, Bytes.ofText, String.toList_ofList, hquoted, hquoted, Bytes.ofChars_append,
    Bytes.ofChars_append, ofBytes_append, ofBytes_append, hquote, ofBytes_ofChars_flatMap_escaped]
  rfl

theorem toBytes_ofText (text : String) : toBytes (ofText text) = Bytes.ofText text :=
  toBytes_ofBytes _

/-! ### Statements -/

variable {key : String}

/-- A name has no characters of several bytes. -/
theorem toNat_lt_of_isNameInner {c : Char} (h : isNameInner c = true) : c.toNat < 0x80 := by
  have hle : c.val ≤ 122 := by
    rcases isNameInner_iff.mp h with h | h
    · rcases isNameStart_iff.mp h with (hupper | hlower) | rfl
      · grind
      · exact hlower.2
      · decide
    · have hdigit := isDigit_iff.mp h
      grind
  exact Nat.lt_of_le_of_lt (UInt32.le_iff_toNat_le.mp hle) (by decide)

theorem ofText_of_isVariableName (h : isVariableName key.toList = true) :
    ofText key = key.toList :=
  ofBytes_ofChars_of_lt fun c hc => toNat_lt_of_isNameInner (isNameInner_of_mem h c hc)

theorem ofText_overrideStatement_none (h : isVariableName key.toList = true) :
    ofText (ResolutionContext.overrideStatement (key, none)) =
      ['u', 'n', 's', 'e', 't'] ++ ' ' :: (key.toList ++ ['\n']) := by
  have hparts : ResolutionContext.overrideStatement (key, none) = "unset " ++ key ++ "\n" := rfl
  rw [hparts, ofText_append, ofText_append, ofText_of_isVariableName h, List.append_assoc]
  rfl

theorem ofText_overrideStatement_some (h : isVariableName key.toList = true) (value : String) :
    ofText (ResolutionContext.overrideStatement (key, some value)) =
      ['e', 'x', 'p', 'o', 'r', 't'] ++ ' ' ::
        ((key.toList ++ ['=']) ++ quoted (ofText value) ++ ['\n']) := by
  have hparts : ResolutionContext.overrideStatement (key, some value) =
      "export " ++ key ++ "=" ++ String.ofList (quoted value.toList) ++ "\n" := rfl
  have hexport : ofText "export " = ['e', 'x', 'p', 'o', 'r', 't'] ++ [' '] := rfl
  have hequals : ofText "=" = ['='] := rfl
  have hend : ofText "\n" = ['\n'] := rfl
  rw [hparts, ofText_append, ofText_append, ofText_append, ofText_append,
    ofText_of_isVariableName h, ofText_quoted, hexport, hequals, hend]
  simp only [List.append_assoc, List.cons_append, List.nil_append]

/-- The statement for a setting is a line with its setter. -/
theorem isLine_overrideStatement (h : isVariableName key.toList = true) (value : Option String) :
    IsLine (ofText (ResolutionContext.overrideStatement (key, value)))
      (setterWords (key, value.map ofText)) := by
  obtain ⟨first, inner, hkey, hfirst, _⟩ := isVariableName_iff.mp h
  cases value with
  | none =>
      obtain ⟨word, hspells, hliteral, hne⟩ := exists_spells_inert (isInert_of_mem h)
      have hword : word ≠ [] := hne (by rw [hkey]; exact List.cons_ne_nil _ _)
      rw [ofText_overrideStatement_none h]
      exact .intro .unset ⟨hspells, hword, first, inner, hkey, hfirst⟩ hliteral
  | some value =>
      have hequals : IsInert '=' := ⟨⟨by decide, by decide, by decide, by decide, by decide,
        by decide⟩, by decide, by decide, by decide⟩
      have hinert : ∀ c ∈ key.toList ++ ['='], IsInert c := by
        simpa [or_imp, forall_and, hequals] using isInert_of_mem h
      obtain ⟨front, hfrontSpells, hfrontLiteral, hfront⟩ := exists_spells_inert hinert
      obtain ⟨back, hback, hbackLiteral, hbackSpells⟩ := exists_spells_quoted (ofText value)
      have hword : front ++ back ≠ [] := List.append_ne_nil_of_right_ne_nil front hback
      have hliteral : Literal (front ++ back) (key.toList ++ '=' :: ofText value) := by
        simpa using hfrontLiteral.append hbackLiteral
      rw [ofText_overrideStatement_some h]
      exact .intro .export_ ⟨hfrontSpells.append hbackSpells, hword, first, _, by rw [hkey]; rfl,
        hfirst⟩ hliteral

end Shell

namespace ResolutionContext

open Shell.Act (Settles)

variable {context : ResolutionContext} {text : Bytes}

/-! ### Settings -/

/-- What a context sets and removes, in the order in which all ways of applying it do so: the search
path comes first, so that an override of its variable wins. -/
def settings (context : ResolutionContext) (text : Bytes) : List (String × Option String) :=
  (Variable.searchPath, some text.display) :: context.sortedOverrides

/-- The settings as assignments to variables. -/
def assignments (context : ResolutionContext) (text : Bytes) : List (String × Option Bytes) :=
  (context.settings text).map fun setting => (setting.1, setting.2.map Bytes.ofText)

/-- The settings as a script sees them. -/
def scriptSettings (context : ResolutionContext) (text : Bytes) :
    List (String × Option (List Char)) :=
  (context.settings text).map fun setting => (setting.1, setting.2.map Shell.ofText)

theorem processAssignments?_eq (h : context.searchPathText? = some text) :
    context.processAssignments? = some (context.assignments text) := by
  rw [processAssignments?, h]
  rfl

theorem shellStatements_eq (h : context.searchPathText? = some text) :
    context.shellStatements =
      .ok (String.join ((context.settings text).map overrideStatement)) := by
  rw [shellStatements, h, settings, List.map_cons, String.join_cons]
  rfl

/-- Where all entries are text, a child gets the assignments of the process. -/
theorem childVariables?_eq (h : context.searchPathText? = some text)
    (hentries : ∀ entry ∈ context.searchPath, entry.bytes.text?.isSome) :
    context.childVariables? = some (Table.ofList (context.assignments text)) := by
  rw [childVariables?, h, assignments, settings, List.map_cons]
  simp only [Option.map_some, ofText_display_of_searchPathText? h hentries]
  rfl

theorem toBytes_scriptSettings :
    (context.scriptSettings text).map (fun setting => (setting.1, setting.2.map Shell.toBytes)) =
      context.assignments text := by
  rw [scriptSettings, assignments, List.map_map]
  refine List.map_congr_left fun setting _ => ?_
  rw [Function.comp_apply, Option.map_map]
  simp only [Function.comp_def, Shell.toBytes_ofText]

/-! ### Agreement -/

/-- Whether a context holds nothing that an environment or a shell refuses: its entries are text
without NUL, its keys are names of variables, and its values have no NUL. -/
structure Portable (context : ResolutionContext) : Prop where
  entries : ∀ entry ∈ context.searchPath, entry.bytes.text?.isSome ∧ 0 ∉ entry.bytes
  keys : ∀ override ∈ context.overrides.entries, Shell.isVariableName override.1.toList = true
  values : ∀ override ∈ context.overrides.entries, ∀ value, override.2 = some value →
    '\x00' ∉ value.toList

theorem Portable.writable (h : context.Portable) : context.Writable := by
  refine ⟨fun entry hentry => (h.entries entry hentry).2, fun override hoverride => ?_⟩
  have hname := h.keys override hoverride
  have hinner := Shell.isNameInner_of_mem hname
  refine ⟨Environ.validKey_iff.mpr ⟨fun hnil => ?_, fun hequals => ?_, fun hnul => ?_⟩,
    h.values override hoverride⟩
  · rw [hnil] at hname
    cases hname
  · exact absurd (hinner _ hequals) (by decide)
  · exact absurd (hinner _ hnul) (by decide)

theorem Portable.isVariableName (h : context.Portable) :
    ∀ setting ∈ context.settings text, Shell.isVariableName setting.1.toList = true := by
  intro setting hsetting
  rcases List.mem_cons.mp hsetting with rfl | hoverride
  · exact (by decide : Shell.isVariableName Variable.searchPath.toList = true)
  · exact h.keys setting (List.mem_mergeSort.mp hoverride)

/-- Statements, variables of a child and assignments that change every environment in the same
way. -/
structure Agree (context : ResolutionContext) (statements : String)
    (changes : Table (Option Bytes)) (assignments : List (String × Option Bytes)) : Prop where
  /-- In the process nothing is refused. -/
  process : ∀ start, (Environ.assignAll start assignments).1 = none
  /-- A child gets the variables of the process. -/
  child : ∀ start program arguments,
    (ChildCommand.environ ⟨program, arguments, changes⟩ start).Same
      (Environ.assignAll start assignments).2
  /-- A shell reads the statements as one call of a setter with literal words for each setting. -/
  words : ∃ settings commands,
    settings.map (fun setting => (setting.1, setting.2.map Shell.toBytes)) = assignments ∧
    Shell.parse? (Shell.ofText statements) = some (Shell.inSequence commands) ∧
    List.Forall₂ (fun command setting => Shell.Calls command (Shell.setterWords setting)) commands
      settings
  /-- A shell that executes the statements succeeds and changes nothing but its variables. -/
  shell : ∀ start (frame : Shell.Frame) state, frame.KeepsSetters →
    (Shell.exportedOf frame.bindings).Same start → ∃ bindings,
      Settles (fun fuel => Shell.runText fuel (Shell.ofText statements)) (frame, state) 0
        ({ frame with bindings, status := 0 }, state) ∧
      (Shell.exportedOf bindings).Same (Environ.assignAll start assignments).2
  /-- Overrides count before the search path, and the search path before what was there. -/
  values : context.overrides.Distinct → ∀ start key,
    (Environ.assignAll start assignments).2.get? key =
      match context.override? key with
      | some value => value.map Bytes.ofText
      | none => if key = Variable.searchPath then context.searchPathText? else start.get? key

theorem lookup_overrideAssignments (h : context.overrides.Distinct) (key : String) :
    context.overrideAssignments.reverse.lookup key =
      (context.override? key).map fun value => value.map Bytes.ofText := by
  rw [overrideAssignments, sortedOverrides, ← List.map_reverse, Table.lookup_map_value,
    Table.lookup_reverse h.nodup_sorted, h.lookup_sorted]
  rfl

theorem get?_assignments (h : context.overrides.Distinct) (start : Environ) (key : String) :
    (start.putAll (context.assignments text)).get? key =
      match context.override? key with
      | some value => value.map Bytes.ofText
      | none => if key = Variable.searchPath then some (Bytes.ofText text.display)
          else start.get? key := by
  have hsplit : context.assignments text =
      (Variable.searchPath, some (Bytes.ofText text.display)) :: context.overrideAssignments := rfl
  rw [Table.get?_putAll, hsplit, List.reverse_cons, List.lookup_append,
    lookup_overrideAssignments h]
  cases context.override? key with
  | some value => rfl
  | none =>
      by_cases hkey : key = Variable.searchPath
      · simp [hkey]
      · have hbeq : (key == Variable.searchPath) = false := by simpa using hkey
        simp [List.lookup_cons, hkey, hbeq]

/-- The statements are lines with the setters for the settings. -/
theorem Portable.lines (h : context.Portable) :
    List.Forall₂ (fun source setting => Shell.IsLine source (Shell.setterWords setting))
      (((context.settings text).map overrideStatement).map Shell.ofText)
      (context.scriptSettings text) := by
  rw [List.map_map, scriptSettings, List.forall₂_map_left_iff, List.forall₂_map_right_iff,
    List.forall₂_same]
  exact fun setting hsetting =>
    Shell.isLine_overrideStatement (h.isVariableName setting hsetting) setting.2

/-- Where the search path has a text, all ways of applying a context make the same assignments. -/
theorem Portable.agree (h : context.Portable) (htext : context.searchPathText? = some text) :
    context.Agree (String.join ((context.settings text).map overrideStatement))
      (Table.ofList (context.assignments text)) (context.assignments text) := by
  have hentries := fun entry hentry => (h.entries entry hentry).1
  have hassign : ∀ start : Environ, Environ.assignAll start (context.assignments text) =
      (none, start.putAll (context.assignments text)) :=
    h.writable.assignAll_eq (processAssignments?_eq htext)
  constructor
  case process => exact fun start => by rw [hassign]
  case child =>
      intro start program arguments key
      rw [ChildCommand.environ_eq, hassign, Table.get?_putAll_entries (Table.distinct_ofList _),
        Table.get?_ofList, Table.get?_putAll]
  case words =>
      obtain ⟨commands, hcalls, hparse⟩ :=
        Shell.parse?_lines (List.forall₂_map_right_iff.mpr h.lines)
      refine ⟨context.scriptSettings text, commands, toBytes_scriptSettings, ?_,
        List.forall₂_map_right_iff.mp hcalls⟩
      rw [Shell.ofText_join, hparse]
  case shell =>
      intro start frame state hkeeps hsame
      have hnames : ∀ setting ∈ context.scriptSettings text,
          Shell.isVariableName setting.1.toList = true := by
        intro setting hsetting
        obtain ⟨original, horiginal, rfl⟩ := List.mem_map.mp hsetting
        exact h.isVariableName original horiginal
      have hrun : Settles _ (frame, state) 0 _ := Shell.settles_runText h.lines hnames hkeeps
      refine ⟨_, Shell.ofText_join _ ▸ hrun, ?_⟩
      rw [hassign, ← toBytes_scriptSettings]
      exact Shell.same_exportedOf_putAll _ hsame
  case values =>
      intro hdistinct start key
      rw [hassign, get?_assignments hdistinct, ofText_display_of_searchPathText? htext hentries,
        htext]

/-- **The ways of applying a context agree.**  If entries, keys and values are admissible, and an
entry contains the separator, all of them fail.  Otherwise all of them succeed: in the process
nothing is refused, a child and a shell end up with the variables of the process, and a shell reads
no more commands and no other words from the statements than one setter for each setting, whatever
characters the values have. -/
theorem applications_agree (h : context.Portable) :
    ((∃ entry ∈ context.searchPath, Path.colon ∈ entry.bytes) ∧ context.Stuck) ∨
    ((∀ entry ∈ context.searchPath, Path.colon ∉ entry.bytes) ∧
      ∃ statements changes assignments, context.shellStatements = .ok statements ∧
        context.childVariables? = some changes ∧
        context.processAssignments? = some assignments ∧
        context.Agree statements changes assignments) := by
  cases htext : context.searchPathText? with
  | none =>
      obtain ⟨entry, hentry, hcolon⟩ := searchPathText?_eq_none_iff.mp htext
      exact .inl ⟨⟨entry, hentry, hcolon⟩, stuck_of_colon_mem hentry hcolon⟩
  | some text =>
      refine .inr ⟨(searchPathText?_eq_some_iff.mp htext).1, _, _, _, shellStatements_eq htext,
        childVariables?_eq htext fun entry hentry => (h.entries entry hentry).1,
        processAssignments?_eq htext, h.agree htext⟩

/-- An override of the search path, and a value full of characters that mean something to a shell:
in every environment there is a shell that executes the statements and ends up with the override. -/
theorem applications_agree_quotes :
    let context : ResolutionContext := ⟨[.ofText "/opt/bin"],
      ⟨[("OLD", none), ("PATH", some "/bin"), ("TEXT", some "it's $HOME; exit\n")]⟩⟩
    ∃ statements, context.shellStatements = .ok statements ∧ ∀ start state,
      ∃ frame after : Shell.Frame, (Shell.exportedOf frame.bindings).Same start ∧
        Settles (fun fuel => Shell.runText fuel (Shell.ofText statements)) (frame, state) 0
          (after, state) ∧
        (Shell.exportedOf after.bindings).get? "PATH" = some (Bytes.ofText "/bin") := by
  intro context
  have hportable : context.Portable := by
    refine ⟨fun entry hentry => ?_, fun override hoverride => ?_,
      fun override hoverride value hvalue => ?_⟩
    · obtain rfl := List.mem_singleton.mp hentry
      exact ⟨by rw [Path.ofText, Bytes.text?_ofText]; rfl, by decide⟩
    · revert override
      decide
    · have hall : ∀ override ∈ context.overrides.entries,
          override.2.all (fun value => !value.toList.contains '\x00') = true := by decide
      have hmem := hall override hoverride
      rw [hvalue] at hmem
      simpa using hmem
  rcases applications_agree hportable with ⟨⟨entry, hentry, hcolon⟩, _⟩ |
    ⟨_, statements, changes, assignments, hstatements, _, _, hagree⟩
  · obtain rfl := List.mem_singleton.mp hentry
    exact absurd hcolon (by decide)
  · refine ⟨statements, hstatements, fun start state => ?_⟩
    obtain ⟨bindings, hbindings⟩ := Shell.exists_same_exportedOf start
    obtain ⟨after, hrun, hafter⟩ :=
      hagree.shell start { name := [], bindings } state (fun _ _ => rfl) hbindings
    refine ⟨_, _, hbindings, hrun, (hafter "PATH").trans ?_⟩
    exact hagree.values (by rw [Table.Distinct]; decide) start "PATH"

/-- An entry with a NUL has a text and statements, but in the process it is refused. -/
theorem not_applications_agree :
    let context := ofSearchPath [.ofText "/a\x00b"]
    (∀ entry ∈ context.searchPath, entry.bytes.text?.isSome ∧ Path.colon ∉ entry.bytes) ∧
      context.overrides.entries = [] ∧
      (∃ statements, context.shellStatements = .ok statements) ∧
      (∃ changes, context.childVariables? = some changes) ∧
      ∃ assignments, context.processAssignments? = some assignments ∧
        (∀ start, Environ.assignAll start assignments = (some (.badValue "PATH"), start)) ∧
        ∀ statements changes, ¬ context.Agree statements changes assignments := by
  intro context
  have hentries : ∀ entry ∈ context.searchPath,
      entry.bytes.text?.isSome ∧ Path.colon ∉ entry.bytes := by
    intro entry hentry
    obtain rfl := List.mem_singleton.mp hentry
    exact ⟨by rw [Path.ofText, Bytes.text?_ofText]; rfl, by decide⟩
  have htext : context.searchPathText? = some (Bytes.ofText "/a\x00b") := rfl
  have hrefused : ∀ start, Environ.assignAll start
      (context.assignments (Bytes.ofText "/a\x00b")) = (some (.badValue "PATH"), start) := by
    intro start
    have hvalue : Environ.validValue (Bytes.ofText "/a\x00b") = false := by decide
    have hassign : Environ.assign start Variable.searchPath (some (Bytes.ofText "/a\x00b")) =
        .error (.badValue "PATH") := by
      rw [Environ.assign, validKey_searchPath, Option.all_some, hvalue]
      rfl
    have hassignments : context.assignments (Bytes.ofText "/a\x00b") =
        [(Variable.searchPath, some (Bytes.ofText (Bytes.ofText "/a\x00b").display))] := by
      simp [assignments, settings, sortedOverrides, Table.sorted, context, ofSearchPath,
        Table.empty]
    rw [hassignments, Bytes.display_ofText, Environ.assignAll, hassign]
  refine ⟨hentries, rfl, ⟨_, shellStatements_eq htext⟩,
    ⟨_, childVariables?_eq htext fun entry hentry => (hentries entry hentry).1⟩, _,
    processAssignments?_eq htext, hrefused, fun statements changes h => ?_⟩
  have hprocess := h.process .empty
  rw [hrefused] at hprocess
  cases hprocess

end ResolutionContext
end Enclave
