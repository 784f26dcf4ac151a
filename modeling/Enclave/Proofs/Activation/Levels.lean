import Enclave.Proofs.Activation.Locations
import Enclave.Proofs.Activation.Outcomes
import Enclave.Proofs.Activation.Thinning
import Enclave.Proofs.Activation.Traces
import Enclave.Proofs.Events

/-! # What the level of a request decides

At whatever level an activation reports, it makes the same calls, gets the same answers and ends in
the same way; its reports at a level are those at the most detailed level that are not above it
(`activate_levels`).  At the most detailed level every transition is reported, once and in order,
unless only warnings and errors are wanted (`draws_activate`). -/

namespace Enclave

namespace Activation

open Procedure (trace_pure_iff trace_bind_iff trace_request_bind_iff)

variable {α β σ : Type} {calls front back : List Call}

/-! ### Reported transitions -/

/-- The calls that report nothing. -/
def silent (calls : List Call) : List Call :=
  calls.filter (!·.request.isReport)

/-- The events that calls report. -/
def reported (calls : List Call) : List Event :=
  calls.filterMap fun call => match call.request with
    | .report event => some event
    | _ => none

/-- The words for a transition. -/
def words (transition : Transition) : String × String :=
  (transition.1.word, transition.2.word)

/-- The transition that an event of an activation reports. -/
def transition? (event : Event) : Option (String × String) :=
  if event.source = .activation then
    match event.fields.lookup "from", event.fields.lookup "to" with
    | some (.text before), some (.text after) => some (before, after)
    | _, _ => none
  else none

/-- The transitions that calls report. -/
def drawn (calls : List Call) : List (String × String) :=
  (reported calls).filterMap transition?

@[simp] theorem drawn_append (front back : List Call) :
    drawn (front ++ back) = drawn front ++ drawn back := by
  rw [drawn, reported, List.filterMap_append, List.filterMap_append]
  rfl

theorem drawn_cons_of_not_isReport {call : Call} (h : call.request.isReport = false)
    (calls : List Call) : drawn (call :: calls) = drawn calls := by
  obtain ⟨request, answer⟩ := call
  cases request with
  | report event => cases h
  | _ => rfl

theorem reported_reportAll {events : List Event} {result : Unit}
    (h : (reportAll events).Trace calls result) : reported calls = events := by
  induction events generalizing calls with
  | nil =>
      obtain ⟨rfl, _⟩ := trace_pure_iff.mp h
      rfl
  | cons event events ih =>
      obtain ⟨_, rest, rfl, hrest⟩ := trace_request_bind_iff.mp h
      exact congrArg (event :: ·) (ih hrest)

/-- Whether a procedure reports no transition, whatever is answered to its requests. -/
def Still (p : Steps α) : Prop :=
  ∀ calls value, p.Trace calls value → drawn calls = []

theorem still_pure (value : α) : Still (pure value : Steps α) := by
  intro calls result h
  obtain ⟨rfl, _⟩ := trace_pure_iff.mp h
  rfl

theorem still_ask {request : Request} (h : request.isReport = false) : Still (ask request) := by
  intro calls value htrace
  cases htrace with
  | ask answer hdone =>
      cases hdone
      exact drawn_cons_of_not_isReport h []

theorem Still.bind {p : Steps α} {f : α → Steps β} (h : Still p) (hf : ∀ value, Still (f value)) :
    Still (p >>= f) := by
  intro calls result htrace
  obtain ⟨front, value, back, rfl, hfront, hback⟩ := trace_bind_iff.mp htrace
  rw [drawn_append, h front value hfront, hf value back result hback, List.append_nil]

theorem still_events (reporter : Reporter) (level : Level) (message : String) :
    Still (reportAll (reporter.events level message [])) := by
  intro calls result h
  rw [drawn, reported_reportAll h, Reporter.events]
  split
  · rfl
  · rfl

theorem still_findLocation (root : Path) (name : String) : Still (findLocation root name) := by
  rw [findLocation]
  split
  · exact still_pure _
  · exact (still_ask rfl).bind fun _ => still_pure _

theorem still_detect (settings : ActivatorSettings) (reporter : Reporter) (descriptor : Descriptor)
    (location : Path) : Still (detect settings reporter descriptor location) := by
  refine (still_ask rfl).bind fun requirements => ?_
  -- the note about missing requirements is the only difference before the environment is looked at
  have hlook : ∀ requirements : Requirements, ∀ present, Still (do
      let record ← if present then ask (.readRecord location) else pure none
      let recorded := record.map BuildRecord.fingerprint
      let fingerprint := Fingerprint.compute settings.interpreter requirements
      let shown := (recorded.map Fingerprint.short).getD "none"
      reportAll (reporter.events .debug
        s!"detected: exists={present} recorded={shown} current={fingerprint.short}" [])
      return (⟨location, ⟨fingerprint, settings.interpreter, requirements.lines⟩, present,
        recorded⟩ : Detection)) := by
    intro requirements present
    cases present with
    | true =>
        exact (still_ask rfl).bind fun _ => (still_events _ _ _).bind fun _ => still_pure _
    | false =>
        exact (still_pure _).bind fun _ => (still_events _ _ _).bind fun _ => still_pure _
  split
  · exact (still_events _ _ _).bind fun _ => (still_ask rfl).bind fun present =>
      hlook requirements present
  · exact (still_ask rfl).bind fun present => hlook requirements present

namespace BuildTask

variable (task : BuildTask)

theorem still_note (level : Level) (message : String) : Still (task.note level message) :=
  still_events _ _ _

theorem still_alreadyBuilt : Still task.alreadyBuilt := by
  rw [alreadyBuilt]
  split
  · refine (still_ask rfl).bind fun present => ?_
    cases present with
    | true => exact (still_ask rfl).bind fun _ => still_pure _
    | false => exact still_pure _
  · exact still_pure _

theorem still_clear : Still task.clear := by
  rw [clear]
  split
  · refine (task.still_note _ _).bind fun _ => (still_ask rfl).bind fun destroyed => ?_
    cases destroyed <;> exact still_pure _
  · exact still_pure _

theorem still_provision : Still task.provision := by
  refine (task.still_note _ _).bind fun _ => (still_ask rfl).bind fun ensured => ?_
  cases ensured <;> exact still_pure _

theorem still_record : Still task.record := by
  refine (still_ask rfl).bind fun now => (still_ask rfl).bind fun written => ?_
  cases written with
  | error e => exact still_pure _
  | ok _ =>
      refine (still_ask rfl).bind fun moved => ?_
      cases moved <;> exact still_pure _

theorem still_rebuild : Still task.rebuild := by
  refine (still_ask rfl).bind fun removed => ?_
  cases removed with
  | error e => exact still_pure _
  | ok _ =>
      refine task.still_clear.bind fun cleared => ?_
      cases cleared with
      | error e => exact still_pure _
      | ok _ =>
          refine task.still_provision.bind fun provisioned => ?_
          cases provisioned with
          | error e => exact still_pure _
          | ok _ => exact task.still_record

theorem still_underLock : Still task.underLock := by
  refine task.still_alreadyBuilt.bind fun built => ?_
  cases built with
  | true => exact (task.still_note _ _).bind fun _ => still_pure _
  | false =>
      refine task.still_rebuild.bind fun rebuilt => ?_
      cases rebuilt <;> exact still_pure _

theorem still_run : Still task.run := by
  refine (still_ask rfl).bind fun acquired => ?_
  cases acquired with
  | error e => exact still_pure _
  | ok lock =>
      exact task.still_underLock.bind fun _ => (still_ask rfl).bind fun _ => still_pure _

end BuildTask

/-- Whether a procedure that goes on after some transitions reports those that come to these. -/
def Draws (earlier : List Transition) (p : Steps Outcome) : Prop :=
  ∀ calls outcome, p.Trace calls outcome →
    earlier.map words ++ drawn calls = outcome.transitions.map words

section

variable {reporter : Reporter} {earlier : List Transition} {p : Steps α} {f : α → Steps Outcome}

theorem Draws.after (h : Still p) (hf : ∀ value, Draws earlier (f value)) :
    Draws earlier (p >>= f) := by
  intro calls outcome htrace
  obtain ⟨front, value, back, rfl, hfront, hback⟩ := trace_bind_iff.mp htrace
  rw [drawn_append, h front value hfront, List.nil_append]
  exact hf value back outcome hback

/-- Every event of a transition that is let through names its states. -/
theorem draws_advance (hquiet : reporter.quiet = false) {next : ActivationState} {detail : String}
    {f : List Transition → Steps Outcome}
    (hf : Draws (earlier ++ [(lastState earlier, next)])
      (f (earlier ++ [(lastState earlier, next)]))) :
    Draws earlier (advance (reporter.upTo everything) earlier next detail >>= f) := by
  intro calls outcome htrace
  obtain ⟨front, result, back, rfl, hfront, hback⟩ := trace_bind_iff.mp htrace
  obtain ⟨reports, _, last, rfl, hreports, hlast⟩ := trace_bind_iff.mp hfront
  obtain ⟨rfl, rfl⟩ := trace_pure_iff.mp hlast
  have hadmits : (reporter.upTo everything).admits next.level = true := by
    rw [Reporter.admits, Reporter.upTo, admits_everything, hquiet]
    simp
  have hdrawn : drawn reports = [words (lastState earlier, next)] := by
    rw [drawn, reported_reportAll hreports, Reporter.ofTransition, Reporter.events, if_pos hadmits]
    rfl
  have hrest := hf back outcome hback
  rw [List.map_append, List.append_assoc] at hrest
  rw [List.append_nil, drawn_append, hdrawn]
  exact hrest

theorem draws_done {result : Except ActivationError Success} {transitions : List Transition}
    {context : ResolutionContext} :
    Draws transitions (pure ⟨result, transitions, context⟩ : Steps Outcome) := by
  intro calls outcome h
  obtain ⟨rfl, rfl⟩ := trace_pure_iff.mp h
  exact List.append_nil _

theorem draws_fail (hquiet : reporter.quiet = false) (context : ResolutionContext)
    (error : ActivationError) :
    Draws earlier (fail (reporter.upTo everything) context earlier error) :=
  draws_advance hquiet draws_done

theorem draws_succeed (hquiet : reporter.quiet = false) (context : ResolutionContext)
    (location : Path) (fingerprint : Fingerprint) (rebuilt : Bool) :
    Draws earlier
      (succeed (reporter.upTo everything) context earlier location fingerprint rebuilt) :=
  .after (still_events _ _ _) fun _ => draws_advance hquiet draws_done

theorem draws_activateAt (hquiet : reporter.quiet = false) (settings : ActivatorSettings)
    (context : ResolutionContext) (request : ActivationRequest) (location : Path) :
    Draws [] (activateAt settings (reporter.upTo everything) context request location) := by
  refine .after (still_detect _ _ _ _) fun found => ?_
  cases decide request.policy found.present found.recorded found.plan.fingerprint with
  | notFound => exact draws_fail hquiet _ _
  | reuse => exact draws_succeed hquiet _ _ _ _
  | build destroyFirst =>
      refine draws_advance hquiet (.after (BuildTask.still_run _) fun built => ?_)
      cases built with
      | error e => exact draws_fail hquiet _ _
      | ok rebuilt => exact draws_succeed hquiet _ _ _ _

end

/-- At the most detailed level an activation reports its transitions, once and in order. -/
theorem draws_activate (settings : ActivatorSettings) (context : ResolutionContext)
    (request : ActivationRequest) :
    Draws [] (activate settings false context { request with threshold := everything }) := by
  let reporter : Reporter := ⟨request.descriptor.name, everything, false⟩
  have hquiet : reporter.quiet = false := rfl
  unfold activate
  cases request.descriptor.mode with
  | system => exact draws_advance hquiet draws_done
  | isolated =>
      refine .after (still_findLocation _ _) fun located => ?_
      cases located with
      | error e => exact draws_fail hquiet _ _
      | ok location => exact draws_activateAt hquiet settings context _ location

/-! ### Runs -/

theorem silent_cons_of_not_isReport {call : Call} (h : call.request.isReport = false)
    (calls : List Call) : silent (call :: calls) = call :: silent calls := by
  simp [silent, h]

/-- Two runs, one of them without some reports, come to the same end by the same calls, if answers and
states go together. -/
theorem run_thin {handle : (request : Request) → σ → request.Answer × σ} {keep : Event → Bool}
    {Goes : σ → σ → Prop}
    (hask : ∀ request, request.isReport = false → ∀ state state', Goes state state' →
      (handle request state).1 = (handle request state').1 ∧
        Goes (handle request state).2 (handle request state').2)
    (hreport : ∀ event state state', Goes state state' →
      Goes (if keep event then (handle (.report event) state).2 else state)
        (handle (.report event) state').2)
    (p : Steps α) {state state' : σ} (h : Goes state state') :
    ((thin keep p).run handle state).1 = (p.run handle state').1 ∧
      Goes ((thin keep p).run handle state).2 (p.run handle state').2 ∧
      silent ((thin keep p).callsOf handle state) = silent (p.callsOf handle state') := by
  induction p generalizing state state' with
  | done value => exact ⟨rfl, h, rfl⟩
  | ask request next ih =>
      by_cases hreq : request.isReport = false
      · obtain ⟨hanswer, hgoes⟩ := hask request hreq state state' h
        obtain ⟨hvalue, hend, hcalls⟩ := ih (handle request state).1 hgoes
        rw [thin_ask_of_not_isReport hreq]
        simp only [Procedure.run, Procedure.callsOf]
        rw [silent_cons_of_not_isReport hreq, silent_cons_of_not_isReport hreq, hcalls, hvalue,
          ← hanswer]
        exact ⟨rfl, hend, rfl⟩
      · cases request with
        | report event =>
            have hgoes := hreport event state state' h
            rw [thin]
            split at hgoes
            · next hkeep =>
                rw [if_pos hkeep]
                exact ih () hgoes
            · next hkeep =>
                rw [if_neg hkeep]
                exact ih () hgoes
        | _ => exact absurd rfl hreq

/-- Answers as before and puts reports aside. -/
def aside (answers : (request : Request) → σ → request.Answer × σ) :
    (request : Request) → σ × List Event → request.Answer × (σ × List Event)
  | .report event, (state, events) => ((), state, events ++ [event])
  | request, (state, events) =>
      let (answer, after) := answers request state
      (answer, after, events)

theorem aside_of_not_isReport (answers : (request : Request) → σ → request.Answer × σ)
    {request : Request} (h : request.isReport = false) (state : σ × List Event) :
    aside answers request state =
      ((answers request state.1).1, (answers request state.1).2, state.2) := by
  cases request with
  | report event => cases h
  | _ => rfl

theorem run_aside_events (answers : (request : Request) → σ → request.Answer × σ) (p : Steps α)
    (state : σ × List Event) :
    (p.run (aside answers) state).2.2 = state.2 ++ reported (p.callsOf (aside answers) state) := by
  induction p generalizing state with
  | done value => exact (List.append_nil _).symm
  | ask request next ih =>
      rw [Procedure.run, Procedure.callsOf]
      by_cases hreq : request.isReport = false
      · rw [aside_of_not_isReport answers hreq]
        cases request with
        | report event => cases hreq
        | _ => exact ih _ _
      · cases request with
        | report event => exact (ih () (state.1, state.2 ++ [event])).trans (List.append_assoc ..)
        | _ => exact absurd rfl hreq

/-- Whatever is answered to its requests, an activation at a level does the same as one at the most
detailed level, and reports what is not above its level. -/
theorem run_aside_activate (answers : (request : Request) → σ → request.Answer × σ) (start : σ)
    (settings : ActivatorSettings) (quiet : Bool) (context : ResolutionContext)
    (request : ActivationRequest) (threshold : Threshold) :
    let ended (threshold : Threshold) :=
      (activate settings quiet context { request with threshold }).run (aside answers) (start, [])
    (ended threshold).1 = (ended everything).1 ∧
      (ended threshold).2.1 = (ended everything).2.1 ∧
      (ended threshold).2.2 = (ended everything).2.2.filter (threshold.admits ·.level) := by
  intro ended
  let keep : Event → Bool := (threshold.admits ·.level)
  let Goes (state state' : σ × List Event) : Prop :=
    state.1 = state'.1 ∧ state.2 = state'.2.filter keep
  have hask : ∀ request : Request, request.isReport = false → ∀ state state', Goes state state' →
      (aside answers request state).1 = (aside answers request state').1 ∧
        Goes (aside answers request state).2 (aside answers request state').2 := by
    intro request hrequest state state' hgoes
    rw [aside_of_not_isReport answers hrequest, aside_of_not_isReport answers hrequest, hgoes.1]
    exact ⟨rfl, rfl, hgoes.2⟩
  have hreport : ∀ event state state', Goes state state' →
      Goes (if keep event then (aside answers (.report event) state).2 else state)
        (aside answers (.report event) state').2 := by
    rintro event ⟨here, events⟩ ⟨here', events'⟩ ⟨hhere, hevents⟩
    obtain rfl : here = here' := hhere
    obtain rfl : events = events'.filter keep := hevents
    have happend : (events' ++ [event]).filter keep =
        events'.filter keep ++ if keep event then [event] else [] := by
      rw [List.filter_append, List.filter_cons, List.filter_nil]
    cases hkeep : keep event with
    | true => exact ⟨rfl, by rw [if_pos rfl]; simp only [aside, happend, hkeep, if_true]⟩
    | false =>
        exact ⟨rfl, by simp only [aside, happend, hkeep, Bool.false_eq_true, if_false,
          List.append_nil]⟩
  have hthin : thin keep (activate settings quiet context { request with threshold := everything }) =
      activate settings quiet context { request with threshold } :=
    thin_activate (fun _ _ => rfl) settings quiet context request
  have hrun := run_thin hask hreport
    (activate settings quiet context { request with threshold := everything })
    (show Goes (start, []) (start, []) from ⟨rfl, rfl⟩)
  rw [hthin] at hrun
  exact ⟨hrun.1, hrun.2.1.1, hrun.2.1.2⟩

/-- If warnings and errors are not all that is wanted, the reports at the most detailed level name the
transitions, each once and in order. -/
theorem transitions_aside (answers : (request : Request) → σ → request.Answer × σ) (start : σ)
    (settings : ActivatorSettings) (context : ResolutionContext) (request : ActivationRequest) :
    let ended := (activate settings false context { request with threshold := everything }).run
      (aside answers) (start, [])
    ended.2.2.filterMap transition? = ended.1.transitions.map words := by
  intro ended
  have hevents : ended.2.2 = [] ++ reported _ := run_aside_events answers _ (start, [])
  rw [hevents, List.nil_append]
  exact draws_activate settings context request _ _ (Procedure.trace_run _ _ _)

end Activation

namespace Activator

open Activation (Request Outcome everything reported silent drawn transition? words)

variable {Memory : Type} {provisioner : Provisioner Memory} {settings : ActivatorSettings}
  {now : Instant}

theorem onlyAdds_onWorld {α : Type} {operation : World → α × World} (h : OnlyAdds operation)
    (memory : Memory) :
    OnlyAdds fun world =>
      let (answer, after, memory) := onWorld operation (world, memory)
      ((answer, memory), after) :=
  h.map fun answer => (answer, memory)

/-- Apart from the reports of the machine, what happens in an activation does not depend on what was
reported before, and only adds reports of others. -/
theorem onlyAdds_handle (settings : ActivatorSettings) (hprovisioner : provisioner.IgnoresEvents)
    (now : Instant) {request : Request} (h : request.isReport = false) (memory : Memory) :
    OnlyAdds fun world =>
      let (answer, after, memory) := handle settings provisioner now request (world, memory)
      ((answer, memory), after) := by
  cases request with
  | report event => cases h
  | workingDirectory =>
      exact OnlyAdds.of_silent (fun world => (world.currentDirectory, memory)) id fun _ _ => rfl
  | declarations files =>
      exact OnlyAdds.of_reports (fun world => ((declarations settings world files).1, memory))
        (fun world => (declarations settings world files).2) (fun _ _ => rfl) (fun _ _ => rfl)
        fun world event hevent => by
          rw [Requirements.source_of_mem_load hevent]
          nofun
  | isPresent location => exact hprovisioner.isPresent location memory
  | readRecord location =>
      exact OnlyAdds.of_reports (fun world => ((BuildRecord.load world location).1, memory))
        (fun world => (BuildRecord.load world location).2) (fun _ _ => rfl) (fun _ _ => rfl)
        fun world event hevent => by
          rw [BuildRecord.source_of_mem_load hevent]
          nofun
  | acquireLock path mode timeout =>
      -- comparing the two sides by evaluation would count the pauses of the wait
      have hhandle : handle settings provisioner now (.acquireLock path mode timeout) =
          onWorld (BuildLock.acquireIn path mode timeout) := rfl
      rw [hhandle]
      exact onlyAdds_onWorld (BuildLock.onlyAdds_acquireIn path mode timeout) memory
  | releaseLock lock =>
      exact OnlyAdds.of_silent (fun _ => ((), memory)) lock.release fun _ _ => rfl
  | removeRecord location => exact onlyAdds_onWorld (BuildRecord.onlyAdds_remove location) memory
  | destroy location => exact hprovisioner.destroy location memory
  | ensure location plan timeout => exact hprovisioner.ensure location plan timeout memory
  | now => exact OnlyAdds.of_silent (fun _ => (now, memory)) id fun _ _ => rfl
  | writeDraft location record => exact onlyAdds_onWorld (record.onlyAdds_writeDraft location) memory
  | moveDraft location => exact onlyAdds_onWorld (BuildRecord.onlyAdds_moveDraft location) memory

theorem exists_handle (settings : ActivatorSettings) (hprovisioner : provisioner.IgnoresEvents)
    (now : Instant) {request : Request} (h : request.isReport = false) (world : World)
    (memory : Memory) :
    ∃ (answer : request.Answer) (after : World) (memory' : Memory) (added : List Event),
      (∀ event ∈ added, event.source ≠ .activation) ∧
        ∀ events, handle settings provisioner now request ({ world with events }, memory) =
          (answer, { after with events := events ++ added }, memory') := by
  obtain ⟨⟨answer, memory'⟩, after, added, hadded, hhandle⟩ :=
    onlyAdds_handle settings hprovisioner now h memory world
  refine ⟨answer, after, memory', added, hadded, fun events => ?_⟩
  have hsame := hhandle events
  simp only [Prod.mk.injEq] at hsame
  exact Prod.ext hsame.1.1 (Prod.ext hsame.2 hsame.1.2)

/-- Two states that differ only in the events since a moment: one has those that are kept, the other
one has all. -/
def Lacks (keep : Event → Bool) (before : List Event) (state state' : World × Memory) : Prop :=
  ∃ (world : World) (memory : Memory) (added : List Event),
    state = ({ world with events := before ++ added.filter keep }, memory) ∧
      state' = ({ world with events := before ++ added }, memory)

theorem lacks_handle (hprovisioner : provisioner.IgnoresEvents) {keep : Event → Bool}
    {before : List Event}
    (hkeep : ∀ event : Event, event.source ≠ .activation → keep event = true) {request : Request}
    (h : request.isReport = false) {state state' : World × Memory}
    (hlacks : Lacks keep before state state') :
    (handle settings provisioner now request state).1 =
        (handle settings provisioner now request state').1 ∧
      Lacks keep before (handle settings provisioner now request state).2
        (handle settings provisioner now request state').2 := by
  obtain ⟨world, memory, added, rfl, rfl⟩ := hlacks
  obtain ⟨answer, after, memory', more, hmore, hhandle⟩ :=
    exists_handle settings hprovisioner now h world memory
  have hall : more.filter keep = more :=
    List.filter_eq_self.mpr fun event hevent => hkeep event (hmore event hevent)
  rw [hhandle, hhandle]
  refine ⟨rfl, after, memory', added ++ more, ?_, ?_⟩
  · rw [List.filter_append, hall, List.append_assoc]
  · rw [List.append_assoc]

theorem lacks_report {keep : Event → Bool} {before : List Event} (event : Event)
    {state state' : World × Memory} (hlacks : Lacks keep before state state') :
    Lacks keep before
      (if keep event then (handle settings provisioner now (.report event) state).2 else state)
      (handle settings provisioner now (.report event) state').2 := by
  obtain ⟨world, memory, added, rfl, rfl⟩ := hlacks
  refine ⟨world, memory, added ++ [event], ?_, ?_⟩
  · cases hkeep : keep event with
    | true =>
        rw [if_pos rfl, List.filter_append, List.filter_cons, if_pos hkeep, List.filter_nil,
          ← List.append_assoc]
        rfl
    | false => simp [hkeep]
  · rw [← List.append_assoc]
    rfl

/-- The events that a run adds name the transitions that its calls report. -/
theorem exists_added_run (hprovisioner : provisioner.IgnoresEvents) (settings : ActivatorSettings)
    (now : Instant) {α : Type} (p : Activation.Steps α) (state : World × Memory) :
    ∃ added, (p.run (handle settings provisioner now) state).2.1.events =
        state.1.events ++ added ∧
      added.filterMap transition? = drawn (p.callsOf (handle settings provisioner now) state) := by
  induction p generalizing state with
  | done value => exact ⟨[], (List.append_nil _).symm, rfl⟩
  | ask request next ih =>
      by_cases hreq : request.isReport = false
      · obtain ⟨answer, after, memory', more, hmore, hhandle⟩ :=
          exists_handle settings hprovisioner now hreq state.1 state.2
        have hstate : handle settings provisioner now request state = _ := hhandle state.1.events
        obtain ⟨added, hevents, hdrawn⟩ :=
          ih answer ({ after with events := state.1.events ++ more }, memory')
        have hnone : more.filterMap transition? = [] :=
          List.filterMap_eq_nil_iff.mpr fun event hevent => if_neg (hmore event hevent)
        refine ⟨more ++ added, ?_, ?_⟩
        · rw [Procedure.run, hstate]
          exact hevents.trans (List.append_assoc ..)
        · rw [List.filterMap_append, hnone, List.nil_append, hdrawn, Procedure.callsOf, hstate]
          exact (Activation.drawn_cons_of_not_isReport hreq _).symm
      · cases request with
        | report event =>
            obtain ⟨added, hevents, hdrawn⟩ := ih () (state.1.report event, state.2)
            refine ⟨event :: added, hevents.trans ?_, ?_⟩
            · rw [World.events_report, List.append_assoc]
              rfl
            · exact (List.filterMap_cons ..).trans (by rw [hdrawn]; exact (List.filterMap_cons ..).symm)
        | _ => exact absurd rfl hreq

/-- Which events are reported at a level: those of an activation that are not above it, and all
others. -/
def keeps (threshold : Threshold) (event : Event) : Bool :=
  event.source != .activation || threshold.admits event.level

theorem lacks_activate (hprovisioner : provisioner.IgnoresEvents) (activator : Activator)
    (now : Instant) (context : ResolutionContext) (request : ActivationRequest)
    (state : World × Memory) (threshold : Threshold) :
    let steps (threshold : Threshold) :=
      Activation.activate activator.settings (isQuiet state.1) context { request with threshold }
    let answers := handle activator.settings provisioner now
    ((steps threshold).run answers state).1 = ((steps everything).run answers state).1 ∧
      Lacks (keeps threshold) state.1.events ((steps threshold).run answers state).2
        ((steps everything).run answers state).2 ∧
      silent ((steps threshold).callsOf answers state) =
        silent ((steps everything).callsOf answers state) := by
  intro steps answers
  have hselects : Activation.Selects threshold (keeps threshold) := fun event hevent => by
    simp [keeps, hevent]
  have hothers : ∀ event : Event, event.source ≠ .activation → keeps threshold event = true :=
    fun event hevent => by simp [keeps, hevent]
  have hthin : Activation.thin (keeps threshold) (steps everything) = steps threshold :=
    Activation.thin_activate hselects activator.settings (isQuiet state.1) context request
  have hstart : Lacks (keeps threshold) state.1.events state state :=
    ⟨state.1, state.2, [], by simp, by simp⟩
  rw [← hthin]
  exact Activation.run_thin (fun request hrequest _ _ => lacks_handle hprovisioner hothers hrequest)
    (fun event _ _ => lacks_report event) (steps everything) hstart

theorem filter_others (threshold : Threshold) (events : List Event) :
    (events.filter (keeps threshold)).filter (·.source ≠ .activation) =
      events.filter (·.source ≠ .activation) := by
  rw [List.filter_filter]
  refine List.filter_congr fun event _ => ?_
  by_cases h : event.source = .activation <;> simp [keeps, h]

theorem filter_own (threshold : Threshold) (events : List Event) :
    (events.filter (keeps threshold)).filter (·.source = .activation) =
      (events.filter (·.source = .activation)).filter (threshold.admits ·.level) := by
  rw [List.filter_filter, List.filter_filter]
  refine List.filter_congr fun event _ => ?_
  by_cases h : event.source = .activation <;> simp [keeps, h]

/-- An activation of an environment that may not be built, at a level. -/
def reportTool (threshold : Threshold) : Completion × (World × Scripted.Memory) :=
  standardActivator.activate Scripted.provisioner .epoch (.ofSearchPath [])
    ⟨⟨"tool", .isolated, some []⟩, .never, threshold⟩ (default, {})

end Activator
end Enclave
