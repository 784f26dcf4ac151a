import Enclave.Proofs.Activation.Deactivation
import Enclave.Proofs.Activation.Ways
import Enclave.Proofs.Context.Application

/-! # What a context is good for after an activation

An activation puts the directory of an environment first on the search path, whatever the root of
the environments is.  Names contain no separator, so the context stays usable exactly if the root
contains none (`usable_of_activate`).  Below a root with a separator an activation succeeds and
leaves a context that nothing can be done with (`stuck_of_activate`). -/

namespace Enclave

open Layout (binDir)

/-! ### Bytes of a location -/

theorem isName_bin : IsName (Bytes.ofText "bin") :=
  ⟨by decide, by decide, by decide, by decide, by decide⟩

/-- The directory of an environment's executables contains a separator, or NUL, if the root does. -/
theorem Layout.mem_binDir {root : Path} {name : String} (h : Name.check name = none) {b : UInt8}
    (hb : b = Path.colon ∨ b = 0) :
    b ∈ (binDir (root.child name)).bytes ↔ b ∈ root.bytes := by
  obtain ⟨hcolon, hzero⟩ := not_mem_ofText_of_check h
  have hslash : b ≠ Path.slash := by rcases hb with rfl | rfl <;> decide
  have hname : b ∉ Bytes.ofText name := by rcases hb with rfl | rfl <;> assumption
  have hbin : b ∉ Bytes.ofText "bin" := by rcases hb with rfl | rfl <;> decide
  rw [binDir, Path.child, Path.ofText, Path.mem_bytes_join _ isName_bin.isPart hslash, Path.child,
    Path.ofText, Path.mem_bytes_join _ (isName_ofText h).isPart hslash]
  simp [hname, hbin]

namespace Activator

open Activation (edits absoluteRoot findLocation locate_congr)

variable {Memory : Type} {activator : Activator} {provisioner : Provisioner Memory}
  {now : Instant} {context : ResolutionContext} {request : ActivationRequest}
  {state : World × Memory} {activation : Activation}

/-! ### Where an activation takes place -/

/-- Finding a location looks at the current directory only. -/
theorem run_findLocation (name : String) (state : World × Memory) :
    (findLocation activator.settings.root name).run
        (handle activator.settings provisioner now) state =
      (activator.locate state.1 name, state) := by
  rw [findLocation]
  split
  · next h => exact Prod.ext (locate_congr h) rfl
  · rfl

/-- An activation of an isolated environment goes on from the location of its name, or fails. -/
theorem exists_trace_outcomeOf (activator : Activator) (provisioner : Provisioner Memory)
    (now : Instant) (context : ResolutionContext) (state : World × Memory)
    (hmode : request.descriptor.mode = .isolated) :
    let reporter : Activation.Reporter :=
      ⟨request.descriptor.name, request.threshold, isQuiet state.1⟩
    ∃ calls, Procedure.Trace
      (match activator.locate state.1 request.descriptor.name with
        | .error e => Activation.fail reporter context [] e
        | .ok location =>
            Activation.activateAt activator.settings reporter context request location)
      calls (activator.outcomeOf provisioner now context request state) := by
  intro reporter
  have hsteps : Activation.activate activator.settings (isQuiet state.1) context request =
      Procedure.bind (findLocation activator.settings.root request.descriptor.name) fun located =>
        match located with
        | .error e => Activation.fail reporter context [] e
        | .ok location =>
            Activation.activateAt activator.settings reporter context request location := by
    rw [Activation.activate, hmode]
    rfl
  rw [outcomeOf, hsteps, Procedure.run_bind, run_findLocation]
  exact ⟨_, Procedure.trace_run _ _ state⟩

/-- An activation that succeeds takes place where its name is. -/
theorem locate_of_activate (hmode : request.descriptor.mode = .isolated)
    (h : (activator.activate provisioner now context request state).1.result = .ok activation) :
    ∃ location, activation.location = some location ∧
      activator.locate state.1 request.descriptor.name = .ok location := by
  obtain ⟨calls, htrace⟩ := exists_trace_outcomeOf activator provisioner now context state hmode
  rw [activate_fst, complete] at h
  cases hlocate : activator.locate state.1 request.descriptor.name with
  | error e =>
      rw [hlocate] at htrace
      rw [(Activation.trace_fail htrace).2.1] at h
      cases h
  | ok location =>
      rw [hlocate] at htrace
      obtain ⟨_, _, _, _, _, hdecided⟩ := Activation.decided_of_trace htrace
      cases hresult : (activator.outcomeOf provisioner now context request state).result with
      | error e =>
          rw [hresult] at h
          cases h
      | ok success =>
          rw [hresult] at h
          obtain rfl := Except.ok.inj h
          exact ⟨location, hdecided.located hresult, rfl⟩

/-! ### Usability -/

/-- The edits of an activation are refused by no process unless the root contains NUL. -/
theorem isWritable_edits {root : Path} {name : String} (hname : Name.check name = none)
    (hroot : 0 ∉ root.bytes) :
    ∀ edit ∈ edits (root.child name), ResolutionContext.IsWritable edit := by
  have hbin : 0 ∉ (binDir (root.child name)).bytes := fun hzero =>
    hroot ((Layout.mem_binDir hname (.inr rfl)).mp hzero)
  have hlocation : 0 ∉ (root.child name).bytes := by
    rw [Path.child, Path.ofText, Path.mem_bytes_join _ (isName_ofText hname).isPart (by decide),
      not_or]
    exact ⟨hroot, (not_mem_ofText_of_check hname).2⟩
  intro edit hedit
  simp only [edits, List.mem_cons, List.not_mem_nil, or_false] at hedit
  rcases hedit with rfl | rfl | rfl
  · exact hbin
  · exact ⟨Environ.validKey_iff.mpr (by decide), Bytes.nul_not_mem_display hlocation⟩
  · exact Environ.validKey_iff.mpr (by decide)

/-- The search path after an activation. -/
theorem searchPath_edits (context : ResolutionContext) (location : Path) :
    (context.applyAll (edits location)).1.searchPath =
      binDir location :: ResolutionContext.dropFirst (binDir location) context.searchPath := by
  rw [ResolutionContext.applyAll_eq]
  rfl

/-- **What an activation is good for**, in a context whose search path has a text.  It puts the
directory of the environment first on the search path.  If the root contains no separator, every use
of the context after it succeeds, and nothing is refused that was not refused before unless the root
contains NUL.  If the root contains a separator, every use fails. -/
theorem usable_of_activate (hmode : request.descriptor.mode = .isolated)
    (h : (activator.activate provisioner now context request state).1.result = .ok activation)
    (hjoined : context.searchPathText?.isSome) :
    let after := (activator.activate provisioner now context request state).1.context
    ∃ root location, absoluteRoot activator.settings.root state.1.currentDirectory = .ok root ∧
      location = root.child request.descriptor.name ∧ activation.location = some location ∧
      after.searchPath =
        binDir location :: ResolutionContext.dropFirst (binDir location) context.searchPath ∧
      (Path.colon ∉ root.bytes → after.Usable ∧ (0 ∉ root.bytes → context.Writable →
        ∀ assignments, after.processAssignments? = some assignments → ∀ env,
          (Environ.assignAll env assignments).1 = none)) ∧
      (Path.colon ∈ root.bytes → after.Stuck) := by
  intro after
  obtain ⟨location, hlocation, hlocate⟩ := locate_of_activate hmode h
  obtain ⟨hname, root, hroot, hjoin⟩ := Activation.locate_eq_ok_iff.mp hlocate
  obtain rfl := Activation.joinBelow?_eq_some hjoin
  obtain ⟨location', hlocation', hafter, _⟩ := edits_of_activate hmode h
  obtain rfl := Option.some.inj (hlocation'.symm.trans hlocation)
  have hpath : after.searchPath = _ := (congrArg _ hafter).trans (searchPath_edits context _)
  have hbin : Path.colon ∈ (binDir (root.child request.descriptor.name)).bytes ↔
      Path.colon ∈ root.bytes := Layout.mem_binDir hname (.inl rfl)
  refine ⟨root, _, hroot, rfl, hlocation, hpath, fun hcolon => ⟨?_, ?_⟩, fun hcolon => ?_⟩
  · refine ResolutionContext.usable_of_colon_not_mem (by simp [hpath]) ?_
    obtain ⟨text, htext⟩ := Option.isSome_iff_exists.mp hjoined
    have hbefore := (ResolutionContext.searchPathText?_eq_some_iff.mp htext).1
    rw [hpath]
    intro entry hentry
    rcases List.mem_cons.mp hentry with rfl | hold
    · exact fun hmem => hcolon (hbin.mp hmem)
    · exact hbefore entry (List.mem_of_mem_eraseP hold)
  · intro hzero hwritable assignments hsome env
    have hstill : after.Writable := by
      rw [show after = _ from hafter]
      exact hwritable.applyAll (isWritable_edits hname hzero)
    rw [hstill.assignAll_eq hsome]
  · have hfirst : binDir (root.child request.descriptor.name) ∈ after.searchPath := by
      rw [hpath]
      exact List.mem_cons_self
    exact ResolutionContext.stuck_of_colon_mem hfirst (hbin.mpr hcolon)

/-- The activation of an environment that is taken as it is. -/
def reuseBelow (root : Path) : Completion :=
  (Activator.activate ⟨.standard root, .empty⟩ Scripted.provisioner .epoch
    (.ofSearchPath [.ofText "/usr/bin"]) ⟨⟨"tool", .isolated, some []⟩, .never, .off⟩
    (bareWorld, ⟨{ answers := [true] }, []⟩)).1

/-- Below a root without a separator the context stays usable. -/
theorem usable_of_activate_envs :
    (ResolutionContext.ofSearchPath [.ofText "/usr/bin"]).searchPathText?.isSome ∧
      (∃ activation, (reuseBelow (.ofText "/envs")).result = .ok activation) ∧
      (reuseBelow (.ofText "/envs")).context.Usable := by
  have hjoined : (ResolutionContext.ofSearchPath [.ofText "/usr/bin"]).searchPathText?.isSome := by
    decide +kernel
  have hresult : ∃ activation, (reuseBelow (.ofText "/envs")).result = .ok activation := ⟨_, rfl⟩
  refine ⟨hjoined, hresult, ?_⟩
  obtain ⟨activation, hok⟩ := hresult
  obtain ⟨root, _, hroot, _, _, _, husable, _⟩ := usable_of_activate rfl hok hjoined
  obtain rfl := Except.ok.inj hroot
  exact (husable (by decide +kernel)).1

/-- An activation below a root with a separator succeeds in a context that was usable and leaves one
that nothing can be done with. -/
theorem stuck_of_activate :
    (ResolutionContext.ofSearchPath [.ofText "/usr/bin"]).Usable ∧
      (∃ activation, (reuseBelow (.ofText "/a:b")).result = .ok activation) ∧
      (reuseBelow (.ofText "/a:b")).context.Stuck := by
  refine ⟨?_, ⟨_, rfl⟩, ?_⟩
  · exact ResolutionContext.usable_of_colon_not_mem (by decide) (by decide +kernel)
  · have hfirst :
        binDir (.ofText "/a:b/tool") ∈ (reuseBelow (.ofText "/a:b")).context.searchPath := by
      decide +kernel
    exact ResolutionContext.stuck_of_colon_mem hfirst (by decide +kernel)

end Activator
end Enclave
