import Enclave.Proofs.Activation.Deactivation
import Enclave.Proofs.Activation.Ways
import Enclave.Proofs.Activation.Locations
import Enclave.Proofs.Context.Interleaving
import Mathlib.Logic.Relation

/-! # States and search paths over whole runs

An activator is used with one context: names are activated, with any policies and outcomes, and
activations that succeeded are deactivated, in any order and as often as one likes.  At every moment
the activator remembers for each name in what state the last deed about it left it (`stateLeft`).
Names that are active are on the search path: an activation puts the directory of its own
environment first, and neither an activation nor a deactivation of another name moves it, because
different names have different directories (`Consistent`, `consistent_of_reaches`). -/

namespace Enclave

open Activation (edits)

namespace ResolutionContext

/-! ### The entries of other environments -/

variable {context : ResolutionContext} {location path : Path}

theorem moved?_edits {edit : Edit} (h : edit ∈ edits location) :
    ∀ entry ∈ edit.moved?, entry ∈ [Layout.binDir location] := by
  intro entry hentry
  simp only [edits, List.mem_cons, List.not_mem_nil, or_false] at h
  rcases h with rfl | rfl | rfl
  · exact List.mem_singleton.mpr (Option.some.inj hentry).symm
  · cases hentry
  · cases hentry

/-- An activation puts its environment first. -/
theorem binDir_mem_edits :
    Layout.binDir location ∈ (context.applyAll (edits location)).1.searchPath := by
  rw [applyAll_eq]
  exact List.mem_cons_self

/-- An activation leaves the entries of other environments where they are. -/
theorem mem_searchPath_edits (h : path ∈ context.searchPath)
    (hother : ¬ path.same (Layout.binDir location)) :
    path ∈ (context.applyAll (edits location)).1.searchPath := by
  rw [applyAll_eq]
  have hrest := (Undisturbed.refl [Layout.binDir location] context.searchPath).foldl_apply
    fun _ hedit => moved?_edits hedit
  exact hrest.mem h fun entry hentry => List.mem_singleton.mp hentry ▸ hother

/-- So does its undoing, at any time. -/
theorem mem_searchPath_revert_edits {before : ResolutionContext} (h : path ∈ context.searchPath)
    (hother : ¬ path.same (Layout.binDir location)) :
    path ∈ (context.revert (before.applyAll (edits location)).2).searchPath := by
  have hmoved : ∀ change ∈ (before.applyAll (edits location)).2.changes,
      ∀ entry ∈ change.moved?, entry ∈ [Layout.binDir location] := by
    intro change hchange
    rw [applyAll_eq] at hchange
    obtain ⟨edit, hedit, hsame⟩ := exists_edit_of_mem_changesOf hchange
    rw [hsame]
    exact moved?_edits hedit
  have hrest := (Undisturbed.refl [Layout.binDir location] context.searchPath).revert hmoved
  exact hrest.mem h fun entry hentry => List.mem_singleton.mp hentry ▸ hother

end ResolutionContext

namespace Activator

/-! ### What one activation leaves -/

section

variable {Memory : Type} {activator : Activator} {provisioner : Provisioner Memory} {now : Instant}
  {context : ResolutionContext} {request : ActivationRequest} {state : World × Memory}

theorem isOk_complete (outcome : Activation.Outcome) :
    (activator.complete request outcome).result.isOk = outcome.result.isOk := by
  rw [complete]
  cases outcome.result <;> rfl

/-- An activation leaves its name active or failed, and all other names as they are. -/
theorem state_activate (name : String) :
    (activator.activate provisioner now context request state).1.activator.state name =
      if name = request.descriptor.name then
        if (activator.activate provisioner now context request state).1.result.isOk then .active
        else .failed
      else activator.state name := by
  rw [activate_fst, state_complete, isOk_complete, (closes_outcomeOf ..).state_eq]

theorem context_of_activate_error {e : ActivationError}
    (h : (activator.activate provisioner now context request state).1.result = .error e) :
    (activator.activate provisioner now context request state).1.context = context := by
  rw [activate_fst] at h ⊢
  obtain ⟨earlier, _, hclose⟩ := closes_outcomeOf activator provisioner now context request state
  generalize activator.outcomeOf provisioner now context request state = outcome at h hclose ⊢
  cases hresult : outcome.result with
  | ok success => simp [complete, hresult, Except.map] at h
  | error e =>
      rw [hresult] at hclose
      exact hclose.2

/-- A successful activation below an absolute root has a good name, and edits the context for the
environment that the name has there. -/
theorem edits_of_activate_isAbsolute {activation : Activation}
    (hroot : activator.settings.root.isAbsolute) (hmode : request.descriptor.mode = .isolated)
    (h : (activator.activate provisioner now context request state).1.result = .ok activation) :
    activation.descriptor = request.descriptor ∧ Name.check request.descriptor.name = none ∧
      (activator.activate provisioner now context request state).1.context =
        (context.applyAll (edits (activator.settings.root.child request.descriptor.name))).1 ∧
      activation.journal =
        (context.applyAll (edits (activator.settings.root.child request.descriptor.name))).2 := by
  obtain ⟨location, hlocation, hcontext, hjournal⟩ := edits_of_activate hmode h
  rw [activate_fst] at h
  cases hresult : (activator.outcomeOf provisioner now context request state).result with
  | error e => simp [complete, hresult, Except.map] at h
  | ok success =>
      simp only [complete, hresult, Except.map, Except.ok.injEq] at h
      subst h
      obtain ⟨place, working, hplace, hlocate⟩ :=
        (Activation.way_of_trace (Procedure.trace_run _ _ state)).located hmode hresult
      obtain rfl : location = place := Option.some.inj (hlocation.symm.trans hplace)
      obtain ⟨hname, rfl⟩ := (Activation.locate_eq_ok_iff_of_isAbsolute hroot).mp hlocate
      exact ⟨rfl, hname, hcontext, hjournal⟩

end

/-! ### Deeds -/

/-- What has been done about a name. -/
inductive Deed
  | activated (name : String) (succeeded : Bool)
  | deactivated (name : String)

namespace Deed

/-- The name that a deed is about. -/
def name : Deed → String
  | activated name _ => name
  | deactivated name => name

/-- The state in which a deed leaves its name. -/
def left : Deed → ActivationState
  | activated _ succeeded => if succeeded then .active else .failed
  | deactivated _ => .unresolved

theorem left_ne_building (deed : Deed) : deed.left ≠ .building := by
  cases deed with
  | activated name succeeded => cases succeeded <;> exact nofun
  | deactivated name => exact nofun

end Deed

/-- The state in which the last deed about a name left it, if the latest deed comes first. -/
def stateLeft (deeds : List Deed) (name : String) : ActivationState :=
  ((deeds.find? fun deed => deed.name == name).map Deed.left).getD .unresolved

theorem stateLeft_cons (deed : Deed) (deeds : List Deed) (name : String) :
    stateLeft (deed :: deeds) name =
      if name = deed.name then deed.left else stateLeft deeds name := by
  rw [stateLeft, stateLeft, List.find?_cons]
  by_cases hname : name = deed.name
  · simp [hname]
  · simp [hname, beq_eq_false_iff_ne.mpr (Ne.symm hname)]

theorem stateLeft_ne_building (deeds : List Deed) (name : String) :
    stateLeft deeds name ≠ .building := by
  rw [stateLeft]
  cases deeds.find? fun deed => deed.name == name with
  | none => exact nofun
  | some deed => exact deed.left_ne_building

/-! ### Moments -/

/-- A moment in the use of an activator with one context. -/
structure Moment where
  activator : Activator
  context : ResolutionContext
  /-- The activations that have succeeded so far. -/
  earned : List Activation
  /-- What has been done so far, the latest first. -/
  deeds : List Deed

namespace Moment

/-- The moment in which nothing has been done. -/
def start (settings : ActivatorSettings) (context : ResolutionContext) : Moment :=
  ⟨⟨settings, .empty⟩, context, [], []⟩

/-- The moment after an activation, in any world and with any provisioner. -/
def activate {Memory : Type} (moment : Moment) (provisioner : Provisioner Memory) (now : Instant)
    (request : ActivationRequest) (state : World × Memory) : Moment :=
  let completion := (moment.activator.activate provisioner now moment.context request state).1
  { activator := completion.activator
    context := completion.context
    earned := completion.result.toOption.toList ++ moment.earned
    deeds := .activated request.descriptor.name completion.result.isOk :: moment.deeds }

/-- The moment after the deactivation of an activation. -/
def deactivate (moment : Moment) (activation : Activation) : Moment :=
  let (activator, context) := moment.activator.deactivate moment.context activation
  { moment with
    activator, context, deeds := .deactivated activation.descriptor.name :: moment.deeds }

/-- One deed: an isolated environment is activated, whatever comes of it, or an activation that
succeeded is deactivated, which may have happened before. -/
inductive Step : Moment → Moment → Prop
  | activate {Memory : Type} (moment : Moment) (provisioner : Provisioner Memory) (now : Instant)
      (request : ActivationRequest) (state : World × Memory) :
      request.descriptor.mode = .isolated →
        Step moment (moment.activate provisioner now request state)
  | deactivate (moment : Moment) (activation : Activation) :
      activation ∈ moment.earned → Step moment (moment.deactivate activation)

/-- Whether a moment comes after others. -/
def Reaches : Moment → Moment → Prop :=
  Relation.ReflTransGen Step

/-- What holds at every moment: the states are those that the deeds left, the journals are those of
the environments that were activated, and active environments are on the search path. -/
structure Consistent (settings : ActivatorSettings) (moment : Moment) : Prop where
  unchanged : moment.activator.settings = settings
  states : ∀ name, moment.activator.state name = stateLeft moment.deeds name
  journals : ∀ activation ∈ moment.earned, Name.check activation.descriptor.name = none ∧
    ∃ before : ResolutionContext, activation.journal =
      (before.applyAll (edits (settings.root.child activation.descriptor.name))).2
  shown : ∀ name, moment.activator.state name = .active → Name.check name = none ∧
    Layout.binDir (settings.root.child name) ∈ moment.context.searchPath

variable {settings : ActivatorSettings} {moment later : Moment}

theorem consistent_start (settings : ActivatorSettings) (context : ResolutionContext) :
    (start settings context).Consistent settings where
  unchanged := rfl
  states _ := rfl
  journals := nofun
  shown _ hactive := by cases hactive

theorem Consistent.states_activate {Memory : Type} (h : moment.Consistent settings)
    (provisioner : Provisioner Memory) (now : Instant) (request : ActivationRequest)
    (state : World × Memory) (name : String) :
    (moment.activate provisioner now request state).activator.state name =
      stateLeft (moment.activate provisioner now request state).deeds name := by
  rw [activate, stateLeft_cons, ← h.states name]
  exact state_activate name

/-- A deactivation leaves its name unresolved, and all other names as they are. -/
theorem state_deactivate (moment : Moment) (activation : Activation) (name : String) :
    (moment.deactivate activation).activator.state name =
      if name = activation.descriptor.name then .unresolved else moment.activator.state name := by
  simp only [deactivate, Activator.deactivate, Activator.state, Table.get?_set, beq_iff_eq]
  split <;> rfl

/-- An activation keeps a moment consistent. -/
theorem Consistent.activate {Memory : Type} (h : moment.Consistent settings)
    (hroot : settings.root.isAbsolute) (provisioner : Provisioner Memory) (now : Instant)
    {request : ActivationRequest} (state : World × Memory)
    (hmode : request.descriptor.mode = .isolated) :
    (moment.activate provisioner now request state).Consistent settings := by
  obtain rfl := h.unchanged
  have hstates := h.states_activate provisioner now request state
  cases hresult : (moment.activator.activate provisioner now moment.context request
      state).1.result with
  | error e =>
      refine ⟨rfl, hstates, ?_, fun name hactive => ?_⟩
      · rw [Moment.activate, hresult]
        exact h.journals
      · rw [Moment.activate, state_activate, hresult] at hactive
        rw [Moment.activate, context_of_activate_error hresult]
        split at hactive
        · cases hactive
        · exact h.shown name hactive
  | ok activation =>
      obtain ⟨hdescriptor, hname, hcontext, hjournal⟩ :=
        edits_of_activate_isAbsolute hroot hmode hresult
      refine ⟨rfl, hstates, ?_, fun name hactive => ?_⟩
      · rw [Moment.activate, hresult]
        intro other hother
        rcases List.mem_cons.mp hother with rfl | hother
        · rw [hdescriptor]
          exact ⟨hname, _, hjournal⟩
        · exact h.journals other hother
      · rw [Moment.activate, state_activate, hresult] at hactive
        rw [Moment.activate, hcontext]
        split at hactive
        · next hsame =>
            rw [hsame]
            exact ⟨hname, ResolutionContext.binDir_mem_edits⟩
        · next hother =>
            obtain ⟨hgood, hshown⟩ := h.shown name hactive
            rw [← Activation.same_binDir_iff hroot hgood hname] at hother
            exact ⟨hgood, ResolutionContext.mem_searchPath_edits hshown hother⟩

/-- A deactivation keeps a moment consistent. -/
theorem Consistent.deactivate (h : moment.Consistent settings) (hroot : settings.root.isAbsolute)
    {activation : Activation} (hmem : activation ∈ moment.earned) :
    (moment.deactivate activation).Consistent settings := by
  obtain ⟨hname, before, hjournal⟩ := h.journals activation hmem
  refine ⟨h.unchanged, fun name => ?_, h.journals, fun name hactive => ?_⟩
  · rw [state_deactivate, h.states, Moment.deactivate, stateLeft_cons]
    rfl
  · rw [state_deactivate] at hactive
    split at hactive
    · cases hactive
    · next hother =>
        obtain ⟨hgood, hshown⟩ := h.shown name hactive
        rw [← Activation.same_binDir_iff hroot hgood hname] at hother
        refine ⟨hgood, ?_⟩
        rw [Moment.deactivate, Activator.deactivate, hjournal]
        exact ResolutionContext.mem_searchPath_revert_edits hshown hother

theorem Consistent.step (h : moment.Consistent settings) (hroot : settings.root.isAbsolute)
    (hstep : Step moment later) : later.Consistent settings := by
  cases hstep with
  | activate _ provisioner now request state hmode => exact h.activate hroot _ _ _ hmode
  | deactivate _ activation hmem => exact h.deactivate hroot hmem

theorem consistent_of_reaches (hroot : settings.root.isAbsolute) {context : ResolutionContext}
    (h : (start settings context).Reaches moment) : moment.Consistent settings := by
  induction h with
  | refl => exact consistent_start settings context
  | tail _ hstep ih => exact ih.step hroot hstep

/-- **States and search path at every moment.**  The state of a name is the one in which the last
deed about it left it, and never `building`.  If it is `active`, the executables of the environment
with that name are on the search path. -/
theorem state_of_reaches (hroot : settings.root.isAbsolute) {context : ResolutionContext}
    (h : (start settings context).Reaches moment) (name : String) :
    moment.activator.state name = stateLeft moment.deeds name ∧
      moment.activator.state name ≠ .building ∧
      (moment.activator.state name = .active → ∀ world, ∃ location,
        moment.activator.locate world name = .ok location ∧
          Layout.binDir location ∈ moment.context.searchPath) := by
  have hconsistent := consistent_of_reaches hroot h
  refine ⟨hconsistent.states name, ?_, fun hactive world => ?_⟩
  · rw [hconsistent.states]
    exact stateLeft_ne_building _ _
  · obtain ⟨hname, hshown⟩ := hconsistent.shown name hactive
    refine ⟨_, ?_, hshown⟩
    rw [Activator.locate, hconsistent.unchanged]
    exact (Activation.locate_eq_ok_iff_of_isAbsolute hroot).mpr ⟨hname, rfl⟩

/-- The moment after an environment that is there has been activated as it is. -/
def reuse (moment : Moment) (name : String) : Moment :=
  moment.activate Scripted.provisioner .epoch ⟨⟨name, .isolated, some []⟩, .never, .off⟩
    (bareWorld, ⟨{ answers := [true] }, []⟩)

/-- Two environments are activated, and then the first one is deactivated twice. -/
theorem state_of_reaches_two :
    standardActivator.settings.root.isAbsolute ∧ ∃ moment,
      (start standardActivator.settings (.ofSearchPath [])).Reaches moment ∧
        moment.activator.state "a" = .unresolved ∧ moment.activator.state "b" = .active ∧
        ∃ location, moment.activator.locate default "b" = .ok location ∧
          Layout.binDir location ∈ moment.context.searchPath := by
  have hroot : standardActivator.settings.root.isAbsolute := by decide +kernel
  obtain ⟨activation, hearned, hname⟩ : ∃ activation,
      (reuse (start standardActivator.settings (.ofSearchPath [])) "a").earned = [activation] ∧
        activation.descriptor.name = "a" := ⟨_, rfl, rfl⟩
  generalize hfirst : reuse (start standardActivator.settings (.ofSearchPath [])) "a" = first
    at hearned
  have hmem : activation ∈ (first.reuse "b").earned :=
    List.mem_append_right _ (hearned ▸ List.mem_singleton_self activation)
  have hreaches : (start standardActivator.settings (.ofSearchPath [])).Reaches
      (((first.reuse "b").deactivate activation).deactivate activation) := by
    refine .tail (.tail (.tail (.single (b := first) ?_) (.activate first _ _ _ _ rfl))
      (.deactivate _ activation hmem)) (.deactivate _ activation hmem)
    exact hfirst ▸ .activate _ _ _ _ _ rfl
  have hactive : (((first.reuse "b").deactivate activation).deactivate activation).activator.state
      "b" = .active := by
    rw [state_deactivate, if_neg (by simp [hname]), state_deactivate, if_neg (by simp [hname]),
      ← hfirst]
    decide +kernel
  refine ⟨hroot, _, hreaches, ?_, hactive,
    (state_of_reaches hroot hreaches "b").2.2 hactive default⟩
  rw [state_deactivate, if_pos hname.symm]

end Moment
end Activator
end Enclave
