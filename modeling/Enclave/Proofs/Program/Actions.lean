import Enclave.Program.Basic
import Enclave.Proofs.FileSystem.Entries

/-! # Runs of actions

Actions run one after the other until one fails (`run_bind_ok`, `run_bind_error`).  Writing changes
nothing but the output streams, and reporting events changes the world at most by lines in the file
of the log (`onlyLogs_report`). -/

namespace Enclave.Program

variable {α β : Type} {action : Action α} {next : α → Action β} {state after : State}

/-! ### One after the other -/

theorem run_bind_ok {value : α} (h : action.run state = (.ok value, after)) :
    (action >>= next).run state = (next value).run after := by
  have hbind : (action >>= next).run state =
      ExceptT.bindCont next (action.run state).1 (action.run state).2 := rfl
  rw [hbind, h]
  rfl

theorem run_bind_error {explanation : Explanation}
    (h : action.run state = (.error explanation, after)) :
    (action >>= next).run state = (.error explanation, after) := by
  have hbind : (action >>= next).run state =
      ExceptT.bindCont next (action.run state).1 (action.run state).2 := rfl
  rw [hbind, h]
  rfl

theorem run_pure (value : α) (state : State) :
    (pure value : Action α).run state = (.ok value, state) := rfl

theorem run_throw (explanation : Explanation) (state : State) :
    (throw explanation : Action α).run state = (.error explanation, state) := rfl

theorem run_world (state : State) : world.run state = (.ok state.world, state) := rfl

theorem run_get (state : State) : (get : Action State).run state = (.ok state, state) := rfl

theorem run_printError (text : String) (state : State) :
    (printError text).run state =
      (.ok (), { state with stderr := state.stderr ++ Bytes.ofText text }) := rfl

theorem run_printErrorLine (text : String) (state : State) :
    (printErrorLine text).run state =
      (.ok (), { state with stderr := state.stderr ++ Bytes.ofText (text ++ "\n") }) := rfl

theorem run_onWorld (operation : World → α × World) (state : State) :
    (onWorld operation).run state =
      (.ok (operation state.world).1,
        showEvents { state with world := (operation state.world).2 }) := rfl

theorem run_report (events : List Event) (state : State) :
    (report events).run state =
      (.ok (), showEvents { state with world := state.world.reportAll events }) := rfl

theorem run_print (text : String) (state : State) :
    (print text).run state =
      (.ok (), { state with stdout := state.stdout ++ Bytes.ofText text }) := rfl

theorem run_printLine (text : String) (state : State) :
    (printLine text).run state =
      (.ok (), { state with stdout := state.stdout ++ Bytes.ofText (text ++ "\n") }) := rfl

/-- The bytes of some lines. -/
def linesOf (texts : List String) : Bytes :=
  texts.flatMap fun text => Bytes.ofText (text ++ "\n")

/-- Writing lines one by one is writing them at once. -/
theorem run_forM_lines {write : String → Action Unit} (add : State → Bytes → State)
    (hwrite : ∀ text state, (write text).run state = (.ok (), add state (.ofText (text ++ "\n"))))
    (hnil : ∀ state, add state [] = state)
    (happend : ∀ state front back, add (add state front) back = add state (front ++ back))
    (texts : List String) (state : State) :
    (texts.forM write).run state = (.ok (), add state (linesOf texts)) := by
  induction texts generalizing state with
  | nil =>
      rw [linesOf, List.flatMap_nil, hnil]
      rfl
  | cons text texts ih =>
      have hcons : (text :: texts).forM write = write text >>= fun _ => texts.forM write := rfl
      rw [hcons, run_bind_ok (hwrite text state), ih, happend]
      rfl

theorem run_printErrorLines (texts : List String) (state : State) :
    (texts.forM printErrorLine).run state =
      (.ok (), { state with stderr := state.stderr ++ linesOf texts }) :=
  run_forM_lines (fun state bytes => { state with stderr := state.stderr ++ bytes })
    run_printErrorLine (fun state => by simp) (fun state front back => by simp) texts state

theorem run_printLines (texts : List String) (state : State) :
    (texts.forM printLine).run state =
      (.ok (), { state with stdout := state.stdout ++ linesOf texts }) :=
  run_forM_lines (fun state bytes => { state with stdout := state.stdout ++ bytes })
    run_printLine (fun state => by simp) (fun state front back => by simp) texts state

/-! ### The log -/

/-- Whether two worlds are the same but for reported events and for what is in the file of a log. -/
structure DiffersInLog (log : Option Log) (before after : World) : Prop where
  beside : after = { before with files := after.files, events := after.events }
  nextId : after.files.nextId = before.files.nextId
  locations : after.files.entries.map (·.1) = before.files.entries.map (·.1)
  entry? : ∀ location, after.files.entry? location = before.files.entry? location ∨
    ∃ file content content' executable, log.bind Log.file = some file ∧ location = file.location ∧
      before.files.entry? location = some (.file file.id content executable) ∧
      after.files.entry? location = some (.file file.id content' executable)

namespace DiffersInLog

variable {log : Option Log} {first second third : World}

theorem refl (log : Option Log) (world : World) : DiffersInLog log world world :=
  ⟨rfl, rfl, rfl, fun _ => .inl rfl⟩

theorem events (log : Option Log) (world : World) (events : List Event) :
    DiffersInLog log world { world with events } :=
  ⟨rfl, rfl, rfl, fun _ => .inl rfl⟩

theorem trans (h : DiffersInLog log first second) (h' : DiffersInLog log second third) :
    DiffersInLog log first third := by
  refine ⟨?_, h'.nextId.trans h.nextId, h'.locations.trans h.locations, fun location => ?_⟩
  · rw [h'.beside, h.beside]
  · rcases h'.entry? location with hsame |
      ⟨file, content, content', executable, hfile, hat, hold, hnew⟩
    · rcases h.entry? location with hsame' |
        ⟨file, content, content', executable, hfile, hat, hold, hnew⟩
      · exact .inl (hsame.trans hsame')
      · exact .inr ⟨file, content, content', executable, hfile, hat, hold, hsame.trans hnew⟩
    · rcases h.entry? location with hsame' |
          ⟨file', former, _, executable', hfile', _, hold', hnew'⟩
      · exact .inr ⟨file, content, content', executable, hfile, hat, hsame' ▸ hold, hnew⟩
      · rw [hfile'] at hfile
        obtain rfl := Option.some.inj hfile
        rw [hold] at hnew'
        obtain ⟨_, rfl, rfl⟩ := Entry.file.inj (Option.some.inj hnew')
        exact .inr ⟨file', former, content', executable, hfile', hat, hold', hnew⟩

/-- A line in the file of the log. -/
theorem append {file : LogFile} (hfile : log.bind Log.file = some file) (text : String)
    (world : World) : DiffersInLog log world (file.append text world) := by
  rw [LogFile.append]
  split
  · next id content executable hentry =>
      split
      · next hid =>
          have hne : file.location ≠ [] := by
            intro hnil
            rw [hnil] at hentry
            cases hentry
          refine ⟨rfl, world.files.nextId_put _ _, world.files.locations_put hne
            (by rw [hentry]; rfl) _, fun location => ?_⟩
          dsimp only
          rw [FileSystem.entry?_put _ hne]
          split
          · next hat =>
              subst hid hat
              exact .inr ⟨file, content, _, executable, hfile, rfl, hentry, rfl⟩
          · exact .inl rfl
      · exact refl log world
  · exact refl log world

end DiffersInLog

/-- Whether an action has written nothing but reports about events. -/
structure OnlyLogs (state after : State) : Prop where
  beside : after = { state with stderr := after.stderr, world := after.world }
  world : DiffersInLog state.log state.world after.world

namespace OnlyLogs

variable {first second third : State}

theorem refl (state : State) : OnlyLogs state state := ⟨rfl, .refl _ _⟩

theorem log (h : OnlyLogs first second) : second.log = first.log := by
  rw [h.beside]

theorem trans (h : OnlyLogs first second) (h' : OnlyLogs second third) : OnlyLogs first third := by
  refine ⟨?_, h.world.trans (h.log ▸ h'.world)⟩
  rw [h'.beside, h.beside]

theorem showEvent {log : Log} (hlog : state.log = some log) (event : Event) :
    OnlyLogs state (showEvent log state event) := by
  rw [Program.showEvent]
  split
  · refine ⟨rfl, ?_⟩
    cases hfile : log.file with
    | none => exact .refl _ _
    | some file => exact .append (by rw [hlog]; exact hfile) _ _
  · exact refl state

theorem foldl_showEvent {log : Log} (events : List Event) (hlog : state.log = some log) :
    OnlyLogs state (events.foldl (Program.showEvent log) state) := by
  induction events generalizing state with
  | nil => exact refl state
  | cons event events ih =>
      have hfirst := showEvent hlog event
      exact hfirst.trans (ih (hfirst.log.trans hlog))

end OnlyLogs

theorem showEvents_of_none (hlog : state.log = none) :
    showEvents state = { state with world := { state.world with events := [] } } := by
  simp only [showEvents, hlog]

theorem showEvents_of_some {log : Log} (hlog : state.log = some log) :
    showEvents state = state.world.events.foldl (showEvent log)
      { state with world := { state.world with events := [] } } := by
  simp only [showEvents, hlog]

/-- Events that are shown change the world at most by lines in the file of the log. -/
theorem onlyLogs_showEvents (state : State) : OnlyLogs state (showEvents state) := by
  have hforget : OnlyLogs state { state with world := { state.world with events := [] } } :=
    ⟨rfl, .events _ _ _⟩
  cases hlog : state.log with
  | none =>
      rw [showEvents_of_none hlog]
      exact hforget
  | some log =>
      rw [showEvents_of_some hlog]
      exact hforget.trans (OnlyLogs.foldl_showEvent _ hlog)

/-- Events that were shown are not shown again. -/
theorem events_showEvents (state : State) : (showEvents state).world.events = [] := by
  have hkeep : ∀ (log : Log) (events : List Event) (state : State),
      (events.foldl (showEvent log) state).world.events = state.world.events := by
    intro log events
    induction events with
    | nil => exact fun _ => rfl
    | cons event events ih =>
        intro state
        rw [List.foldl_cons, ih, showEvent]
        split
        · cases log.file with
          | none => rfl
          | some file =>
              dsimp only
              rw [LogFile.append]
              split
              · split <;> rfl
              · rfl
        · rfl
  cases hlog : state.log with
  | none => rw [showEvents_of_none hlog]
  | some log => rw [showEvents_of_some hlog, hkeep]

/-- Without events there is nothing to show. -/
theorem showEvents_of_nil (h : state.world.events = []) : showEvents state = state := by
  have hsame : { state with world := { state.world with events := [] } } = state := by rw [← h]
  cases hlog : state.log with
  | none => rw [showEvents_of_none hlog, hsame]
  | some log =>
      rw [showEvents_of_some hlog, h]
      exact hsame

theorem onlyLogs_report (events : List Event) (state : State) :
    OnlyLogs state ((report events).run state).2 := by
  have hreport : OnlyLogs state { state with world := state.world.reportAll events } :=
    ⟨rfl, .events _ _ _⟩
  rw [run_report]
  exact hreport.trans (onlyLogs_showEvents _)

end Enclave.Program
