import Enclave.Proofs.Shell.Reading
import Enclave.Proofs.Table
import Enclave.Shell.Evaluate

/-! # Running commands that change variables

`Act.Gives` says what an act comes to, and `Act.Settles` what an act with a bound on its nested
calls comes to when the bound is large enough.  A word that is literal becomes one field
(`settles_fields`), so a setter changes the variable that its words name and no other
(`settles_evaluate_setter`), and a script of setters makes their changes in order
(`settles_runText`).  What a shell passes on changes like an environment to which the same values
are assigned (`same_exportedOf_putAll`). -/

namespace Enclave.Shell

/-! ### Results of acts -/

namespace Act

variable {α β : Type} {before between after : Frame × State}

/-- Whether an act gives a value and changes frame and state in this way. -/
def Gives (act : Act α) (before : Frame × State) (value : α) (after : Frame × State) : Prop :=
  act.run.run before = (.ok value, after)

theorem gives_pure (value : α) : Gives (pure value) before value before := rfl

theorem Gives.bind {act : Act α} {next : α → Act β} {value : α} {result : β}
    (h : Gives act before value between) (hnext : Gives (next value) between result after) :
    Gives (act >>= next) before result after := by
  rw [Gives, ExceptT.run_bind, StateT.run_bind, show act.run.run before = _ from h]
  exact hnext

theorem gives_frame : Gives frame before before.1 before := rfl

theorem gives_world : Gives world before before.2.world before := rfl

theorem gives_changeFrame (change : Frame → Frame) :
    Gives (changeFrame change) before () (change before.1, before.2) := rfl

theorem Gives.tryCatch {act : Act α} {value : α} (h : Gives act before value after)
    (handler : Stop → Act α) : Gives (tryCatch act handler) before value after := by
  rw [Gives, ExceptT.run_tryCatch, StateT.run_bind, show act.run.run before = _ from h]
  rfl

/-- An act that leaves the streams alone does the same while they are kept. -/
theorem Gives.keepingStreams {act : Act α} {value : α} (h : Gives act before value after)
    (hstreams : after.1.streams = before.1.streams) :
    Gives (keepingStreams act) before value after := by
  have hrestored : ({ after.1 with streams := before.1.streams }, after.2) = after := by
    rw [← hstreams]
  refine gives_frame.bind ((h.tryCatch _).bind ((gives_changeFrame _).bind ?_))
  exact hrestored ▸ gives_pure value

/-- Whether an act with a bound gives a value whenever the bound is large enough. -/
def Settles (act : Nat → Act α) (before : Frame × State) (value : α) (after : Frame × State) :
    Prop :=
  ∃ bound, ∀ fuel, bound ≤ fuel → Gives (act fuel) before value after

theorem Gives.settles {act : Act α} {value : α} (h : Gives act before value after) :
    Settles (fun _ => act) before value after :=
  ⟨0, fun _ _ => h⟩

theorem Settles.bind {act : Nat → Act α} {next : Nat → α → Act β} {value : α} {result : β}
    (h : Settles act before value between)
    (hnext : Settles (fun fuel => next fuel value) between result after) :
    Settles (fun fuel => act fuel >>= next fuel) before result after := by
  obtain ⟨first, hfirst⟩ := h
  obtain ⟨second, hsecond⟩ := hnext
  refine ⟨max first second, fun fuel hfuel => ?_⟩
  obtain ⟨hleft, hright⟩ := Nat.max_le.mp hfuel
  exact (hfirst fuel hleft).bind (hsecond fuel hright)

theorem Settles.keepingStreams {act : Nat → Act α} {value : α}
    (h : Settles act before value after) (hstreams : after.1.streams = before.1.streams) :
    Settles (fun fuel => keepingStreams (act fuel)) before value after :=
  h.imp fun _ hbound fuel hfuel => (hbound fuel hfuel).keepingStreams hstreams

/-- One nested call more. -/
theorem Settles.succ {act called : Nat → Act α} {value : α}
    (h : Settles called before value after)
    (hcall : ∀ fuel, act (fuel + 1) = called fuel) : Settles act before value after := by
  obtain ⟨bound, hbound⟩ := h
  refine ⟨bound + 1, fun fuel hfuel => ?_⟩
  obtain ⟨left, rfl⟩ : ∃ left, fuel = left + 1 := ⟨fuel - 1, by omega⟩
  exact hcall left ▸ hbound left (by omega)

end Act

/-! ### Words -/

open Act

/-- The segments of a literal word. -/
def literalSegment : Piece → Segment
  | .plain text => .plain text
  | .quoted text => .quoted text
  | _ => .fields []

theorem settles_wordSegments_cons {piece : Piece} {rest : Word} {before : Frame × State}
    (hpiece : Settles (fun fuel => pieceSegments fuel piece) before [literalSegment piece] before)
    (hrest : Settles (fun fuel => wordSegments fuel rest) before (rest.map literalSegment) before) :
    Settles (fun fuel => wordSegments fuel (piece :: rest)) before
      ((piece :: rest).map literalSegment) before := by
  refine Settles.succ ?_ fun _ => rfl
  exact hpiece.bind (hrest.bind (gives_pure _).settles)

theorem settles_wordSegments {word : Word} {text : List Char} (h : Literal word text)
    (before : Frame × State) :
    Settles (fun fuel => wordSegments fuel word) before (word.map literalSegment) before := by
  induction h with
  | nil => exact (gives_pure []).settles.succ fun _ => rfl
  | plain _ _ _ _ ih =>
      exact settles_wordSegments_cons ((gives_pure _).settles.succ fun _ => rfl) ih
  | quoted _ ih =>
      exact settles_wordSegments_cons ((gives_pure _).settles.succ fun _ => rfl) ih

/-- A literal word adds its text, in which nothing is special, to the current field. -/
theorem exists_foldl_add {word : Word} {text : List Char} (h : Literal word text) :
    ∀ current : List PatternChar, ∃ pattern, hasSpecial pattern = false ∧
      patternText pattern = text ∧
      (word.map literalSegment).foldl Fields.add ⟨[], some current⟩ =
        ⟨[], some (current ++ pattern)⟩ := by
  induction h with
  | nil => exact fun current => ⟨[], rfl, rfl, by simp⟩
  | @plain c word text hstar hmark hbracket _ ih =>
      intro current
      obtain ⟨pattern, hspecial, htext, hfold⟩ := ih (current ++ [(c, false)])
      refine ⟨(c, false) :: pattern, ?_, ?_, ?_⟩
      · simpa [hasSpecial, hstar, hmark, hbracket] using hspecial
      · simpa [patternText] using htext
      · simpa [literalSegment, Fields.add, Fields.append, specially] using hfold
  | @quoted part word text _ ih =>
      intro current
      obtain ⟨pattern, hspecial, htext, hfold⟩ := ih (current ++ literally part)
      refine ⟨literally part ++ pattern, ?_, ?_, ?_⟩
      · simpa [hasSpecial, literally] using hspecial
      · simpa [patternText, literally, Function.comp_def] using htext
      · simpa [literalSegment, Fields.add, Fields.append] using hfold

/-- A literal word makes a single field, its text. -/
theorem flatMap_ofSegments {word : Word} {text : List Char} (h : Literal word text)
    (hne : word ≠ []) (world : World) :
    (Fields.ofSegments (word.map literalSegment)).flatMap (matchingPaths world) = [text] := by
  obtain ⟨pattern, hspecial, htext, hfold⟩ := exists_foldl_add h []
  have hstart : (word.map literalSegment).foldl Fields.add {} =
      (word.map literalSegment).foldl Fields.add ⟨[], some []⟩ := by
    cases h with
    | nil => exact absurd rfl hne
    | plain => rfl
    | quoted => rfl
  rw [Fields.ofSegments, hstart, hfold]
  simp [Fields.next, matchingPaths, hspecial, htext]

theorem settles_fields {words : List Word} {texts : List (List Char)}
    (h : List.Forall₂ Literal words texts) (hwords : [] ∉ words) (before : Frame × State) :
    Settles (fun fuel => fields fuel words) before texts before := by
  induction h with
  | nil => exact (gives_pure []).settles.succ fun _ => rfl
  | @cons word text words texts hword _ ih =>
      have hfield := flatMap_ofSegments hword (fun h => hwords (h ▸ List.mem_cons_self))
        before.2.world
      refine Settles.succ ?_ fun _ => rfl
      refine (settles_wordSegments hword before).bind ?_
      refine gives_world.settles.bind ?_
      refine (ih fun h => hwords (List.mem_cons_of_mem _ h)).bind ?_
      rw [hfield]
      exact (gives_pure _).settles

/-! ### Setters -/

section

variable {before after : Frame × State} {name : List Char} {arguments : List (List Char)}

/-- A setter that is not redefined runs the command of the shell with its name. -/
theorem IsSetter.settles_runNamed (h : IsSetter name) {line : Nat} {act : Act Nat} {status : Nat}
    (hfunction : before.1.functions.get? (String.ofList name) = none)
    (hbuiltin : builtin? line name arguments = some act) (hact : Gives act before status after) :
    Settles (fun fuel => runNamed line fuel name arguments) before status after := by
  refine Settles.succ ?_ fun _ => rfl
  refine gives_frame.settles.bind ?_
  simp only [hfunction, hbuiltin]
  cases h <;> exact hact.settles

/-- A call of a setter with literal words. -/
theorem IsSetter.settles_evaluate (h : IsSetter name) {command : Command} {act : Act Nat}
    {status : Nat} (hcalls : Calls command (name :: arguments))
    (hfunction : before.1.functions.get? (String.ofList name) = none)
    (hbuiltin : ∀ line, builtin? line name arguments = some act)
    (hact : Gives act before status after) (hstreams : after.1.streams = before.1.streams) :
    Settles (fun fuel => evaluate fuel command) before status after := by
  cases hcalls with
  | @intro line words _ hwords hliteral =>
      refine Settles.succ ?_ fun _ => rfl
      refine (settles_fields hliteral hwords before).bind ?_
      have hspecial : isSpecialCommand name = true := by cases h <;> decide
      have hexec : name ≠ "exec".toList := by cases h <;> decide
      simp only [hexec, if_false, hspecial, Bool.true_or, if_true]
      -- there is nothing to redirect and nothing to assign before the setter is run
      refine Settles.keepingStreams ?_ hstreams
      refine Settles.bind ((gives_pure true).settles.succ fun _ => rfl) ?_
      refine gives_frame.settles.bind ?_
      refine Settles.bind ((gives_pure ()).settles.succ fun _ => rfl) ?_
      exact h.settles_runNamed hfunction (hbuiltin line) hact

/-! ### Settings -/

/-- The words of the setter that gives a variable a value or removes it. -/
def setterWords : String × Option (List Char) → List (List Char)
  | (key, some value) => [['e', 'x', 'p', 'o', 'r', 't'], key.toList ++ '=' :: value]
  | (key, none) => [['u', 'n', 's', 'e', 't'], key.toList]

/-- A variable that is passed on. -/
def passedOn (value : List Char) : Variable := ⟨value, true⟩

/-- What is left of a frame after a setter. -/
def Frame.afterSetter (frame : Frame) (setting : String × Option (List Char)) : Frame :=
  { frame with bindings := frame.bindings.put setting.1 (setting.2.map passedOn) }

theorem splitAssignment_append {name : List Char} (h : '=' ∉ name) (value : List Char) :
    splitAssignment (name ++ '=' :: value) = (name, some value) := by
  have hbefore : ∀ c ∈ name, (c != '=') = true := fun c hc => by
    simpa using fun heq : c = '=' => h (heq ▸ hc)
  rw [splitAssignment, List.dropWhile_append_of_pos hbefore, List.takeWhile_append_of_pos hbefore]
  simp

theorem gives_export {key : String} (h : '=' ∉ key.toList) (value : List Char)
    (before : Frame × State) :
    Gives (export_ [key.toList ++ '=' :: value]) before 0
      (before.1.afterSetter (key, some value), before.2) := by
  have hvalue : Gives (valueOf? key) before ((before.1.bindings.get? key).map (·.value)) before :=
    rfl
  have hassign : Gives (assign key.toList value true) before ()
      (before.1.afterSetter (key, some value), before.2) := by
    have hexported : ∀ held : Bool, (⟨value, held || true⟩ : Variable) = passedOn value :=
      fun held => by rw [Bool.or_true, passedOn]
    refine (gives_changeFrame _).trans ?_
    simp only [String.ofList_toList, hexported]
    rfl
  rw [export_, splitAssignment_append h]
  simp only [String.ofList_toList]
  refine hvalue.bind ?_
  exact hassign.bind (gives_pure 0)

theorem gives_unset {key : String} (h : '-' ∉ key.toList) (before : Frame × State) :
    Gives (unset [key.toList]) before 0 (before.1.afterSetter (key, none), before.2) := by
  have hoption : ∀ letter rest, [key.toList] ≠ ['-', letter] :: rest := by
    intro letter rest heq
    exact h ((List.cons.inj heq).1 ▸ List.mem_cons_self)
  rw [unset]
  · simp only [List.foldl_cons, List.foldl_nil, String.ofList_toList]
    exact (gives_changeFrame _).bind (gives_pure 0)
  · exact fun rest => hoption 'f' rest
  · exact fun rest => hoption 'v' rest

/-- Whether a frame has no functions in the place of the setters. -/
def Frame.KeepsSetters (frame : Frame) : Prop :=
  ∀ name, IsSetter name → frame.functions.get? (String.ofList name) = none

/-- A setter with its words changes the variable that it is about, and no other. -/
theorem settles_evaluate_setter {command : Command} {setting : String × Option (List Char)}
    (hcalls : Calls command (setterWords setting))
    (hname : isVariableName setting.1.toList = true) (hkeeps : before.1.KeepsSetters) :
    Settles (fun fuel => evaluate fuel command) before 0
      (before.1.afterSetter setting, before.2) := by
  obtain ⟨key, value⟩ := setting
  have hinner := isNameInner_of_mem hname
  cases value with
  | some value =>
      have hequals : '=' ∉ key.toList := fun h => absurd (hinner _ h) (by decide)
      exact IsSetter.export_.settles_evaluate hcalls (hkeeps _ .export_) (fun _ => rfl)
        (gives_export hequals value before) rfl
  | none =>
      have hdash : '-' ∉ key.toList := fun h => absurd (hinner _ h) (by decide)
      exact IsSetter.unset.settles_evaluate hcalls (hkeeps _ .unset) (fun _ => rfl)
        (gives_unset hdash before) rfl

/-- A command that succeeds leaves its status behind. -/
theorem Act.Settles.run {command : Command}
    (h : Settles (fun fuel => evaluate fuel command) before 0 after) :
    Settles (fun fuel => Shell.run fuel command) before 0
      ({ after.1 with status := 0 }, after.2) := by
  refine Settles.succ ?_ fun _ => rfl
  refine h.bind ?_
  refine (gives_changeFrame _).settles.bind ?_
  exact gives_frame.settles.bind (gives_pure 0).settles

/-- The frame after a sequence of setters. -/
def Frame.afterSetters (frame : Frame) (settings : List (String × Option (List Char))) : Frame :=
  { frame with
    bindings := frame.bindings.putAll
      (settings.map fun setting => (setting.1, setting.2.map passedOn))
    status := 0 }

/-- Setters in sequence make their changes one after the other. -/
theorem settles_run_inSequence {commands : List Command}
    {settings : List (String × Option (List Char))}
    (h : List.Forall₂ (fun command setting => Calls command (setterWords setting)) commands
      settings)
    (hnames : ∀ setting ∈ settings, isVariableName setting.1.toList = true)
    (hkeeps : before.1.KeepsSetters) :
    Settles (fun fuel => run fuel (inSequence commands)) before 0
      (before.1.afterSetters settings, before.2) := by
  induction h generalizing before with
  | nil => exact Settles.run ((gives_pure 0).settles.succ fun _ => rfl)
  | @cons command setting commands settings hcalls hrest ih =>
      have hfirst := (settles_evaluate_setter hcalls (hnames setting List.mem_cons_self) hkeeps).run
      have hmore := @ih ({ before.1.afterSetter setting with status := 0 }, before.2)
        (fun other hother => hnames other (List.mem_cons_of_mem _ hother)) hkeeps
      have hevaluate : Settles (fun fuel => evaluate fuel (inSequence (command :: commands))) before
          0 (before.1.afterSetters (setting :: settings), before.2) := by
        refine Settles.succ ?_ fun _ => rfl
        refine hfirst.bind ?_
        cases hrest with
        | nil => exact gives_frame.settles.bind (gives_pure 0).settles
        | cons => exact hmore
      exact hevaluate.run

/-- A script of setters makes their changes one after the other. -/
theorem settles_runText {sources : List (List Char)} {settings : List (String × Option (List Char))}
    (h : List.Forall₂ (fun source setting => IsLine source (setterWords setting)) sources settings)
    (hnames : ∀ setting ∈ settings, isVariableName setting.1.toList = true)
    (hkeeps : before.1.KeepsSetters) :
    Settles (fun fuel => runText fuel sources.flatten) before 0
      (before.1.afterSetters settings, before.2) := by
  obtain ⟨commands, hcalls, hparse⟩ := parse?_lines (List.forall₂_map_right_iff.mpr h)
  have hrun : ∀ fuel, runText (fuel + 1) sources.flatten = run fuel (inSequence commands) := by
    intro fuel
    rw [runText.eq_def]
    simp only [hparse]
  exact (settles_run_inSequence (List.forall₂_map_right_iff.mp hcalls) hnames hkeeps).succ hrun

end

/-! ### What is passed on -/

theorem toNat_ofNat_byte (b : UInt8) : (Char.ofNat b.toNat).toNat = b.toNat := by
  have hvalid : b.toNat.isValidChar := .inl (Nat.lt_trans b.toNat_lt (by decide))
  rw [Char.ofNat, dif_pos hvalid]
  rfl

/-- The bytes of a text that was made from bytes. -/
theorem toBytes_ofBytes (bytes : Bytes) : toBytes (ofBytes bytes) = bytes := by
  rw [toBytes, ofBytes, List.map_map]
  refine (List.map_congr_left fun b _ => ?_).trans (List.map_id bytes)
  rw [Function.comp_apply, toNat_ofNat_byte, UInt8.ofNat_toNat, id]

section

variable {bindings : Table Variable} {entries : List (String × Variable)} {key other : String}

/-- The variable that a child gets for an entry, if it gets one. -/
def passed? (entry : String × Variable) : Option (String × Bytes) :=
  if entry.2.exported then some (entry.1, toBytes entry.2.value) else none

/-- What a child gets for a key. -/
def passedValue? (entries : List (String × Variable)) (key : String) : Option Bytes :=
  (entries.filterMap passed?).reverse.lookup key

theorem get?_exportedOf : (exportedOf bindings).get? key = passedValue? bindings.entries key :=
  Table.get?_ofList _ key

theorem passedValue?_cons (entry : String × Variable) :
    passedValue? (entry :: entries) key = (passedValue? entries key).or
      (if key = entry.1 ∧ entry.2.exported then some (toBytes entry.2.value) else none) := by
  rw [passedValue?, passedValue?, List.filterMap_cons]
  by_cases hexported : entry.2.exported
  · have hpassed : passed? entry = some (entry.1, toBytes entry.2.value) := if_pos hexported
    rw [hpassed, List.reverse_cons, List.lookup_append, List.lookup_cons]
    by_cases hkey : key = entry.1
    · simp [hkey, hexported]
    · have hbeq : (key == entry.1) = false := by simpa using hkey
      simp [hkey, hbeq]
  · have hpassed : passed? entry = none := if_neg hexported
    rw [hpassed]
    simp [hexported]

theorem passedValue?_append (value : List Char) :
    passedValue? (entries ++ [(key, passedOn value)]) other =
      if other = key then some (toBytes value) else passedValue? entries other := by
  have hpassed : [(key, passedOn value)].filterMap passed? = [(key, toBytes value)] := rfl
  rw [passedValue?, List.filterMap_append, hpassed, List.reverse_append, List.reverse_singleton,
    List.singleton_append, List.lookup_cons]
  by_cases hkey : other = key
  · simp [hkey]
  · have hbeq : (other == key) = false := by simpa using hkey
    simp [hkey, hbeq, passedValue?]

theorem passedValue?_map (value : List Char) :
    passedValue? (entries.map fun entry =>
        if entry.1 == key then (key, passedOn value) else entry) other =
      if other = key then (entries.lookup key).map fun _ => toBytes value
      else passedValue? entries other := by
  induction entries with
  | nil => simp [passedValue?]
  | cons entry entries ih =>
      rw [List.map_cons, passedValue?_cons, passedValue?_cons, ih, List.lookup_cons]
      by_cases hentry : entry.1 = key
      · subst hentry
        by_cases hother : other = entry.1
        · cases entries.lookup entry.1 <;> simp [hother, passedOn]
        · simp [hother, passedOn]
      · have hbeq : (key == entry.1) = false := by simpa using Ne.symm hentry
        by_cases hother : other = key
        · simp [hother, hentry, hbeq, Ne.symm hentry]
        · simp [hother, hentry]

theorem passedValue?_filter :
    passedValue? (entries.filter fun entry => entry.1 != key) other =
      if other = key then none else passedValue? entries other := by
  induction entries with
  | nil => simp [passedValue?]
  | cons entry entries ih =>
      rw [List.filter_cons, passedValue?_cons]
      by_cases hentry : entry.1 = key
      · rw [if_neg (by simpa using hentry), ih]
        by_cases hother : other = key
        · simp [hother]
        · simp [hother, hentry]
      · rw [if_pos (by simpa using hentry), passedValue?_cons, ih]
        by_cases hother : other = key
        · simp [hother, Ne.symm hentry]
        · simp [hother]

/-- A setter changes what is passed on for its own key, and nothing else. -/
theorem get?_exportedOf_put (value : Option (List Char)) :
    (exportedOf (bindings.put key (value.map passedOn))).get? other =
      if other = key then value.map toBytes else (exportedOf bindings).get? other := by
  rw [get?_exportedOf, get?_exportedOf]
  cases value with
  | none => exact passedValue?_filter
  | some value =>
      simp only [Option.map_some, Table.put, Table.set]
      cases hheld : bindings.get? key with
      | none => exact passedValue?_append value
      | some held =>
          refine (passedValue?_map value).trans ?_
          rw [show bindings.entries.lookup key = some held from hheld]
          rfl

/-- An environment that agrees with what a shell passes on still does so after the same
assignments. -/
theorem same_exportedOf_putAll {environ : Environ} (settings : List (String × Option (List Char)))
    (h : (exportedOf bindings).Same environ) :
    (exportedOf (bindings.putAll
        (settings.map fun setting => (setting.1, setting.2.map passedOn)))).Same
      (environ.putAll (settings.map fun setting => (setting.1, setting.2.map toBytes))) := by
  induction settings generalizing bindings environ with
  | nil => exact h
  | cons setting settings ih =>
      refine ih fun other => ?_
      rw [get?_exportedOf_put, Table.get?_put, h other]
      simp only [beq_iff_eq]

/-- There is a shell that passes on exactly a given environment. -/
theorem exists_same_exportedOf (environ : Environ) :
    ∃ bindings, (exportedOf bindings).Same environ := by
  -- of several entries for one key a shell passes on the last, and an environment has the first
  refine ⟨⟨(environ.entries.map fun entry => (entry.1, passedOn (ofBytes entry.2))).reverse⟩,
    fun key => ?_⟩
  have hpassed : (passed? ∘ fun entry : String × Bytes =>
      (entry.1, passedOn (ofBytes entry.2))) = some := by
    funext entry
    rw [Function.comp_apply, passed?, passedOn, if_pos (by rfl), toBytes_ofBytes]
  rw [get?_exportedOf, passedValue?, List.filterMap_reverse, List.reverse_reverse,
    List.filterMap_map, hpassed, List.filterMap_some]
  rfl

end

end Enclave.Shell
