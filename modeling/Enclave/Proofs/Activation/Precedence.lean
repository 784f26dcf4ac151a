import Enclave.Proofs.Activation.States
import Enclave.Proofs.Activation.Usability

/-! # What comes first after an activation

An activation puts the directory of its environment before everything else on the search path, so
the programs in it are found whatever stands behind it (`resolve_of_first`).  Doing it again changes
nothing (`applyAll_edits_again`).  The main statement is `precedence_of_activate`. -/

namespace Enclave

open Layout (binDir)
open Activation (edits)

namespace ResolutionContext

variable {context : ResolutionContext} {location entry : Path} {rest : List Path}

/-! ### The edits of an activation -/

theorem override?_edits_activeLocation (context : ResolutionContext) (location : Path) :
    (context.applyAll (edits location)).1.override? Variable.activeLocation =
      some (some location.display) := by
  have hne : (Variable.activeLocation == Variable.interpreterHome) = false := by decide
  rw [applyAll_eq]
  simp only [edits, List.foldl_cons, List.foldl_nil, apply, override?, setOverride, Table.get?_set,
    hne, beq_self_eq_true, if_true, Bool.false_eq_true, if_false]

theorem override?_edits_interpreterHome (context : ResolutionContext) (location : Path) :
    (context.applyAll (edits location)).1.override? Variable.interpreterHome = some none := by
  rw [applyAll_eq]
  simp only [edits, List.foldl_cons, List.foldl_nil, apply, override?, setOverride, Table.get?_set,
    beq_self_eq_true, if_true]

theorem overrides_edits (context : ResolutionContext) (location : Path) :
    (context.applyAll (edits location)).1.overrides =
      (context.overrides.set Variable.activeLocation (some location.display)).set
        Variable.interpreterHome none := by
  rw [applyAll_eq]
  rfl

theorem prepend_eq_self (h : context.searchPath = entry :: rest) :
    context.prepend entry = context := by
  have hfirst : dropFirst entry (entry :: rest) = rest :=
    List.eraseP_cons_of_pos (Path.same_refl entry)
  rw [prepend, h, hfirst, ← h]

/-- The edits of an activation change nothing where they have just been made. -/
theorem applyAll_edits_again (context : ResolutionContext) (location : Path) :
    ((context.applyAll (edits location)).1.applyAll (edits location)).1 =
      (context.applyAll (edits location)).1 := by
  have hpath := Activator.searchPath_edits context location
  have hactive := override?_edits_activeLocation context location
  have hhome := override?_edits_interpreterHome context location
  have hoverrides := overrides_edits context location
  generalize (context.applyAll (edits location)).1 = after at hpath hactive hhome hoverrides ⊢
  have hactives : ∀ override ∈ after.overrides.entries, override.1 = Variable.activeLocation →
      override.2 = some location.display := by
    intro override hmem hkey
    rw [hoverrides] at hmem
    rcases Table.mem_entries_set hmem with rfl | hmem
    · exact absurd hkey (by decide)
    · exact Table.value_of_mem_set hmem hkey
  have hhomes : ∀ override ∈ after.overrides.entries, override.1 = Variable.interpreterHome →
      override.2 = none := by
    intro override hmem hkey
    rw [hoverrides] at hmem
    exact Table.value_of_mem_set hmem hkey
  have hactiveAgain : after.setOverride Variable.activeLocation (some location.display) = after := by
    rw [setOverride, Table.set_eq_self (by rw [← override?, hactive]; rfl) hactives]
  have hhomeAgain : after.setOverride Variable.interpreterHome none = after := by
    rw [setOverride, Table.set_eq_self (by rw [← override?, hhome]; rfl) hhomes]
  rw [applyAll_eq]
  simp only [edits, List.foldl_cons, List.foldl_nil, apply, prepend_eq_self hpath, hactiveAgain,
    hhomeAgain]

/-! ### Looking up programs -/

/-- An absolute entry of a search path does not start with a tilde. -/
theorem expandHome_of_isAbsolute (home : Path) (h : entry.isAbsolute) :
    expandHome home entry = entry := by
  rw [expandHome, Path.components_of_isAbsolute h]

/-- A program is found in the first entry of the search path if it is there. -/
theorem resolve_of_first (hpath : context.searchPath = entry :: rest) (habsolute : entry.isAbsolute)
    (hjoined : context.searchPathText?.isSome) {world : World} {program : String}
    (hsingle : (Path.ofText program).components.length = 1)
    (h : world.files.isExecutable world.base (entry.join (.ofText program))) :
    context.resolve world program = some (entry.join (.ofText program)) := by
  obtain ⟨text, htext⟩ := Option.isSome_iff_exists.mp hjoined
  have hsplit := splitSearchPath_of_searchPathText? (by rw [hpath]; exact List.cons_ne_nil _ _) htext
  rw [resolve, htext, Option.bind_some, hsplit, hpath, findProgram, candidates, if_neg (by omega),
    List.map_cons, expandHome_of_isAbsolute _ habsolute]
  exact List.find?_cons_of_pos h

end ResolutionContext

namespace Activator

variable {Memory : Type} {activator : Activator} {provisioner : Provisioner Memory}
  {now : Instant} {context : ResolutionContext} {request : ActivationRequest}
  {state : World × Memory} {activation : Activation}

/-! ### Activations -/

/-- What a context is after the activation of an environment. -/
structure Precedes (location : Path) (before after : ResolutionContext) : Prop where
  searchPath : after.searchPath =
    binDir location :: ResolutionContext.dropFirst (binDir location) before.searchPath
  active : after.override? Variable.activeLocation = some (some location.display)
  active_ofText : ∀ text, location = .ofText text →
    after.override? Variable.activeLocation = some (some text)
  home : after.override? Variable.interpreterHome = some none
  others : ∀ key, key ≠ Variable.activeLocation → key ≠ Variable.interpreterHome →
    after.override? key = before.override? key
  lookup : after.searchPathText?.isSome → ∀ (world : World) (program : String),
    (Path.ofText program).components.length = 1 →
    world.files.isExecutable world.base ((binDir location).join (.ofText program)) →
    after.resolve world program = some ((binDir location).join (.ofText program))

theorem precedes_edits {location : Path} (habsolute : location.isAbsolute)
    (context : ResolutionContext) :
    Precedes location context (context.applyAll (edits location)).1 := by
  have hactive := ResolutionContext.override?_edits_activeLocation context location
  have hpath := searchPath_edits context location
  constructor
  case searchPath => exact hpath
  case active => exact hactive
  case active_ofText =>
    rintro text rfl
    rw [hactive, Path.display, Path.ofText, Bytes.display_ofText]
  case home => exact ResolutionContext.override?_edits_interpreterHome context location
  case others => exact ResolutionContext.override?_edits context location
  case lookup =>
    exact fun hjoined _ _ => ResolutionContext.resolve_of_first hpath
      (Path.isAbsolute_join _ habsolute) hjoined

/-- An activation of the system leaves the context as it is. -/
theorem context_of_activate_system (hmode : request.descriptor.mode = .system) :
    (activator.activate provisioner now context request state).1.context = context := by
  rw [activate_fst]
  obtain ⟨earlier, _, hclose⟩ := closes_outcomeOf activator provisioner now context request state
  generalize activator.outcomeOf provisioner now context request state = outcome at hclose ⊢
  cases hresult : outcome.result with
  | error e =>
      rw [hresult] at hclose
      exact hclose.2
  | ok success =>
      rw [hresult] at hclose
      obtain ⟨_, hedits, hlocation⟩ := hclose
      have hnone : success.location = none := by
        rw [← Option.not_isSome_iff_eq_none, hlocation, hmode]
        nofun
      rw [Activation.Success.edits, hnone] at hedits
      exact congrArg Prod.fst hedits

/-- An activation of the environment whose edits have just been made leaves the context as it is, in
any mode and however it ends. -/
theorem context_of_activate_again {location : Path}
    (hlocate : activator.locate state.1 request.descriptor.name = .ok location) :
    (activator.activate provisioner now (context.applyAll (edits location)).1 request
      state).1.context = (context.applyAll (edits location)).1 := by
  generalize hafter : (context.applyAll (edits location)).1 = after
  cases hmode : request.descriptor.mode with
  | system => exact context_of_activate_system hmode
  | isolated =>
      cases hresult : (activator.activate provisioner now after request state).1.result with
      | error e => exact context_of_activate_error hresult
      | ok activation =>
          obtain ⟨other, hother, hlocate'⟩ := locate_of_activate hmode hresult
          obtain ⟨other', hother', hagain, _⟩ := edits_of_activate hmode hresult
          obtain rfl := Option.some.inj (hother'.symm.trans hother)
          obtain rfl := Except.ok.inj (hlocate'.symm.trans hlocate)
          rw [hagain, ← hafter]
          exact ResolutionContext.applyAll_edits_again context _

/-- **What an activation puts first.**  After the activation of an isolated environment its directory
of executables is first on the search path, followed by the old entries without the first one that is
the same path; the two variables of environments have their overrides and no other override has
changed.  Where the search path has a text, every program in the environment is found there, in any
world.  Another activation of the same name, by an activator with the same root that sees a relative
root from the same directory, leaves the context as it is. -/
theorem precedence_of_activate (hmode : request.descriptor.mode = .isolated)
    (h : (activator.activate provisioner now context request state).1.result = .ok activation) :
    let after := (activator.activate provisioner now context request state).1.context
    ∃ location, activation.location = some location ∧ Precedes location context after ∧
      ∀ (Memory' : Type) (again : Activator) (provisioner' : Provisioner Memory') (now' : Instant)
        (request' : ActivationRequest) (state' : World × Memory'),
        again.settings.root = activator.settings.root →
        request'.descriptor.name = request.descriptor.name →
        (activator.settings.root.isAbsolute ∨
          state'.1.currentDirectory = state.1.currentDirectory) →
        (again.activate provisioner' now' after request' state').1.context = after := by
  intro after
  obtain ⟨location, hlocation, hlocate⟩ := locate_of_activate hmode h
  obtain ⟨location', hlocation', hafter, _⟩ := edits_of_activate hmode h
  obtain rfl := Option.some.inj (hlocation'.symm.trans hlocation)
  have habsolute := Activation.isAbsolute_locate hlocate fun _ => World.isAbsolute_currentDirectory
  have hprecedes : Precedes location' context after := by
    rw [show after = _ from hafter]
    exact precedes_edits habsolute context
  refine ⟨location', hlocation, hprecedes, ?_⟩
  intro Memory' again provisioner' now' request' state' hroot hname hplace
  have hsame : again.locate state'.1 request'.descriptor.name =
      activator.locate state.1 request.descriptor.name := by
    rw [locate, locate, hroot, hname]
    rcases hplace with habsoluteRoot | hdirectory
    · exact Activation.locate_congr (by simp [habsoluteRoot])
    · rw [hdirectory]
  rw [show after = _ from hafter]
  exact context_of_activate_again (hsame.trans hlocate)

/-- A search path with the executables of an environment on it twice, in two spellings. -/
def crowded : ResolutionContext :=
  .ofSearchPath [.ofText "/usr/bin", .ofText "/envs//tool/bin", .ofText "/envs/tool/bin"]

/-- A world with an interpreter in the system and one in the environment. -/
def twoInterpreters : World :=
  { bareWorld with
    files :=
      ⟨[(.ofText "/usr", .directory 1), (.ofText "/usr/bin", .directory 2),
        (.ofText "/usr/bin/python", .file 3 { data := [] } true),
        (.ofText "/envs", .directory 4), (.ofText "/envs/tool", .directory 5),
        (.ofText "/envs/tool/bin", .directory 6),
        (.ofText "/envs/tool/bin/python", .file 7 { data := [] } true)], 8⟩ }

/-- The interpreter of the environment hides the one of the system, and activating the environment
once more changes nothing. -/
theorem precedence_of_activate_crowded :
    (∃ activation, (reuse crowded "tool").result = .ok activation) ∧
      (reuse crowded "tool").context.searchPath =
        [.ofText "/envs/tool/bin", .ofText "/usr/bin", .ofText "/envs/tool/bin"] ∧
      (reuse crowded "tool").context.resolve twoInterpreters "python" =
        some (.ofText "/envs/tool/bin/python") ∧
      (reuse (reuse crowded "tool").context "tool").context = (reuse crowded "tool").context := by
  have hresult : ∃ activation, (reuse crowded "tool").result = .ok activation := ⟨_, rfl⟩
  refine ⟨hresult, ?_⟩
  obtain ⟨activation, hok⟩ := hresult
  obtain ⟨location, hlocation, hprecedes, hagain⟩ := precedence_of_activate rfl hok
  have htool : location = .ofText "/envs/tool" := by
    rw [reuse] at hok
    obtain rfl := Except.ok.inj hok
    exact (Option.some.inj hlocation).symm
  subst htool
  refine ⟨?_, ?_, ?_⟩
  · exact hprecedes.searchPath.trans (by decide +kernel)
  · exact (hprecedes.lookup (by decide +kernel) twoInterpreters "python" (by decide +kernel)
      (by decide +kernel)).trans (by decide +kernel)
  · exact hagain _ _ _ _ _ _ rfl rfl (.inl (by decide +kernel))

end Activator
end Enclave
