import Enclave.Proofs.Activation.Outcomes
import Enclave.Proofs.Context.Undo
import Enclave.Provision.Scripted
import Mathlib.Data.List.Perm.Basic

/-! # Undoing several activations

A run of activations in one context stacks their edits, and every journal remembers what it found.
Deactivating them in the reverse order gives back the first context
(`same_deactivateAll_reverse`).  In any other order each journal still takes its own entry off the
search path and writes its own memory of the two variables, so the variables end as they were before
the activation that is deactivated last, and the search path is the first one if no entry was there
twice (`deactivateAll_undoes`).  More is not true: two environments that are deactivated in the order
of their activation leave a variable of the first behind (`deactivateAll_in_order`). -/

namespace Enclave

open Activation (edits)

namespace ResolutionContext

/-! ### The edits of one activation -/

theorem entries_edits (context : ResolutionContext) (location : Path) :
    (context.applyAll (edits location)).1.entries =
      (Layout.binDir location).components ::
        context.entries.erase (Layout.binDir location).components := by
  rw [applyAll_eq]
  exact entries_prepend context _

/-- An activation overrides the two variables of environments and no other. -/
theorem override?_edits (context : ResolutionContext) (location : Path) (key : String)
    (hlocation : key ≠ Variable.activeLocation) (hhome : key ≠ Variable.interpreterHome) :
    (context.applyAll (edits location)).1.override? key = context.override? key := by
  rw [applyAll_eq]
  simp only [edits, List.foldl_cons, List.foldl_nil, apply, override?, setOverride,
    Table.get?_set, beq_iff_eq, if_neg hlocation, if_neg hhome, prepend]

theorem changesOf_edits (context : ResolutionContext) (location : Path) :
    context.changesOf (edits location) =
      [.prepended (Layout.binDir location)
          (indexOf? (Layout.binDir location) context.searchPath),
        .overridden Variable.activeLocation (context.override? Variable.activeLocation),
        .overridden Variable.interpreterHome (context.override? Variable.interpreterHome)] := by
  have hne : (Variable.interpreterHome == Variable.activeLocation) = false := by decide
  simp only [edits, changesOf, changeOf, apply, override?, setOverride, prepend, Table.get?_set,
    hne, Bool.false_eq_true, if_false]

/-- Undoing an activation brings back its two variables as they were before it, wherever it is
undone, and leaves all others alone. -/
theorem override?_revert_edits (context other : ResolutionContext) (location : Path)
    (key : String) :
    (other.revert (context.applyAll (edits location)).2).override? key =
      if key = Variable.activeLocation ∨ key = Variable.interpreterHome then context.override? key
      else other.override? key := by
  rw [applyAll_eq, changesOf_edits]
  simp only [revert_cons, revert_nil, revertChange, override?, Table.get?_put, beq_iff_eq]
  by_cases hlocation : key = Variable.activeLocation
  · simp [hlocation]
  · by_cases hhome : key = Variable.interpreterHome
    · subst hhome
      simp [hlocation]
    · simp [hlocation, hhome]

theorem indexOf?_eq_none {entry : Path} {context : ResolutionContext}
    (h : entry.components ∉ context.entries) : indexOf? entry context.searchPath = none := by
  rw [indexOf?, List.findIdx?_eq_none_iff]
  intro path hpath
  rw [Bool.eq_false_iff]
  intro hsame
  exact h (List.mem_map.mpr ⟨path, hpath, Path.same_iff.mp hsame⟩)

/-- The journal of an activation whose entry was not on the search path takes that entry off,
wherever it is undone. -/
theorem entries_revert_edits {context : ResolutionContext} {location : Path}
    (h : (Layout.binDir location).components ∉ context.entries) (other : ResolutionContext) :
    (other.revert (context.applyAll (edits location)).2).entries =
      other.entries.erase (Layout.binDir location).components := by
  rw [applyAll_eq, changesOf_edits, indexOf?_eq_none h]
  simp only [revert_cons, revert_nil, entries_revertChange]

end ResolutionContext

/-! ### Runs of activations -/

namespace Activator

/-- What a successful activation of an isolated environment did to its context. -/
theorem edits_of_activate {Memory : Type} {activator : Activator}
    {provisioner : Provisioner Memory} {now : Instant} {context : ResolutionContext}
    {request : ActivationRequest} {state : World × Memory} {activation : Activation}
    (hmode : request.descriptor.mode = .isolated)
    (h : (activator.activate provisioner now context request state).1.result = .ok activation) :
    ∃ location, activation.location = some location ∧
      (activator.activate provisioner now context request state).1.context =
        (context.applyAll (edits location)).1 ∧
      activation.journal = (context.applyAll (edits location)).2 := by
  rw [activate_fst] at h ⊢
  obtain ⟨earlier, _, hclose⟩ := closes_outcomeOf activator provisioner now context request state
  generalize activator.outcomeOf provisioner now context request state = outcome at h hclose ⊢
  cases hresult : outcome.result with
  | error e => simp [complete, hresult, Except.map] at h
  | ok success =>
      rw [hresult] at hclose
      simp only [complete, hresult, Except.map, Except.ok.injEq] at h
      subst h
      obtain ⟨_, hedits, hisSome⟩ := hclose
      obtain ⟨location, hlocation⟩ := Option.isSome_iff_exists.mp (hisSome.mpr hmode)
      rw [Activation.Success.edits, hlocation] at hedits
      exact ⟨location, hlocation, congrArg Prod.fst hedits, congrArg Prod.snd hedits⟩

/-- Successful activations of isolated environments, each in the context that the one before it
left.  Between them the activator, the provisioner and the world may change in any way. -/
inductive Activates : ResolutionContext → List Activation → ResolutionContext → Prop
  | nil (context : ResolutionContext) : Activates context [] context
  | cons {Memory : Type} {activator : Activator} {provisioner : Provisioner Memory} {now : Instant}
      {context final : ResolutionContext} {request : ActivationRequest} {state : World × Memory}
      {activation : Activation} {rest : List Activation} :
      request.descriptor.mode = .isolated →
      (activator.activate provisioner now context request state).1.result = .ok activation →
      Activates (activator.activate provisioner now context request state).1.context rest final →
      Activates context (activation :: rest) final

/-- Deactivates activations one after the other. -/
def deactivateAll (activator : Activator) (context : ResolutionContext)
    (order : List Activation) : Activator × ResolutionContext :=
  order.foldl (fun state activation => state.1.deactivate state.2 activation) (activator, context)

/-- The entry that an activation puts on the search path. -/
def entryOf (activation : Activation) : List Path.Component :=
  activation.location.elim [] fun location => (Layout.binDir location).components

theorem deactivateAll_snd (activator : Activator) (context : ResolutionContext)
    (order : List Activation) :
    (activator.deactivateAll context order).2 =
      order.foldl (fun context activation => context.revert activation.journal) context := by
  unfold deactivateAll
  induction order generalizing activator context with
  | nil => rfl
  | cons activation order ih => exact ih _ _

/-- In the reverse order every deactivation finds what its activation left. -/
theorem same_deactivateAll_reverse {initial final : ResolutionContext}
    {activations : List Activation} (h : Activates initial activations final)
    (activator : Activator) :
    (activator.deactivateAll final activations.reverse).2.Same initial := by
  rw [deactivateAll_snd]
  induction h with
  | nil context => exact .refl context
  | cons hmode hok _ ih =>
      obtain ⟨location, _, hcontext, hjournal⟩ := edits_of_activate hmode hok
      rw [List.reverse_cons, List.foldl_append, List.foldl_cons, List.foldl_nil]
      refine (ih.revert _).trans ?_
      rw [hcontext, hjournal]
      exact ResolutionContext.revert_applyAll _ _

/-- Every activation of a run has the journal of its edits in some context. -/
theorem Activates.journal {initial final : ResolutionContext} {activations : List Activation}
    (h : Activates initial activations final) {activation : Activation}
    (hmem : activation ∈ activations) :
    ∃ context location, activation.journal =
      (ResolutionContext.applyAll context (edits location)).2 := by
  induction h with
  | nil context => simp at hmem
  | cons hmode hok _ ih =>
      rcases List.mem_cons.mp hmem with rfl | hrest
      · obtain ⟨location, _, _, hjournal⟩ := edits_of_activate hmode hok
        exact ⟨_, location, hjournal⟩
      · exact ih hrest

theorem Activates.override? {initial final : ResolutionContext} {activations : List Activation}
    (h : Activates initial activations final) {key : String}
    (hlocation : key ≠ Variable.activeLocation) (hhome : key ≠ Variable.interpreterHome) :
    final.override? key = initial.override? key := by
  induction h with
  | nil context => rfl
  | cons hmode hok _ ih =>
      obtain ⟨location, _, hcontext, _⟩ := edits_of_activate hmode hok
      rw [ih, hcontext, ResolutionContext.override?_edits _ _ _ hlocation hhome]

/-- Deactivations leave the overrides of other variables alone. -/
theorem Activates.override?_foldl_revert {initial final : ResolutionContext}
    {activations : List Activation} (h : Activates initial activations final)
    {order : List Activation} (horder : ∀ activation ∈ order, activation ∈ activations)
    (context : ResolutionContext) {key : String} (hlocation : key ≠ Variable.activeLocation)
    (hhome : key ≠ Variable.interpreterHome) :
    (order.foldl (fun context activation => context.revert activation.journal) context).override?
      key = context.override? key := by
  induction order generalizing context with
  | nil => rfl
  | cons activation order ih =>
      rw [List.foldl_cons, ih fun a ha => horder a (List.mem_cons_of_mem _ ha)]
      obtain ⟨other, location, hjournal⟩ := h.journal (horder activation List.mem_cons_self)
      rw [hjournal, ResolutionContext.override?_revert_edits, if_neg]
      exact fun hkey => hkey.elim hlocation hhome

/-- The context before an activation in the middle of a run is the one that its journal goes back
to. -/
theorem Activates.journal_of_split {initial final before : ResolutionContext}
    {front back : List Activation} {activation : Activation}
    (h : Activates initial (front ++ activation :: back) final)
    (hfront : Activates initial front before) :
    ∃ location, activation.journal =
      (ResolutionContext.applyAll before (edits location)).2 := by
  induction hfront generalizing final with
  | nil context =>
      cases h with
      | cons hmode hok _ =>
          obtain ⟨location, _, _, hjournal⟩ := edits_of_activate hmode hok
          exact ⟨location, hjournal⟩
  | cons hmode hok _ ih =>
      cases h with
      | cons hmode' hok' hrest =>
          -- Both runs start with the same activation, so they agree on the context after it.
          obtain ⟨location, hlocation, hcontext, _⟩ := edits_of_activate hmode hok
          obtain ⟨location', hlocation', hcontext', _⟩ := edits_of_activate hmode' hok'
          obtain rfl : location = location' :=
            Option.some.inj (hlocation.symm.trans hlocation')
          rw [hcontext', ← hcontext] at hrest
          exact ih hrest

/-- Where no entry is there twice, activations put their entries in front one by one, and every
journal takes its own entry off again. -/
theorem Activates.entries {initial final : ResolutionContext} {activations : List Activation}
    (h : Activates initial activations final) (hnodup : (activations.map entryOf).Nodup)
    (habsent : ∀ activation ∈ activations, entryOf activation ∉ initial.entries) :
    final.entries = (activations.map entryOf).reverse ++ initial.entries ∧
      ∀ activation ∈ activations, ∀ context : ResolutionContext,
        (context.revert activation.journal).entries = context.entries.erase (entryOf activation) := by
  induction h with
  | nil context => simp
  | @cons _ activator provisioner now context final request state activation rest hmode hok _ ih =>
      obtain ⟨location, hlocation, hcontext, hjournal⟩ := edits_of_activate hmode hok
      have hentry : entryOf activation = (Layout.binDir location).components := by
        simp [entryOf, hlocation]
      have hnew := habsent activation List.mem_cons_self
      have hafter : (activator.activate provisioner now context request state).1.context.entries =
          entryOf activation :: context.entries := by
        rw [hcontext, ResolutionContext.entries_edits, ← hentry, List.erase_of_not_mem hnew]
      rw [List.map_cons, List.nodup_cons] at hnodup
      obtain ⟨hfinal, hjournals⟩ := ih hnodup.2 fun other hother hin => by
        rw [hafter, List.mem_cons] at hin
        rcases hin with heq | hin
        · exact hnodup.1 (heq ▸ List.mem_map_of_mem hother)
        · exact habsent other (List.mem_cons_of_mem _ hother) hin
      refine ⟨?_, ?_⟩
      · rw [hfinal, hafter]
        simp
      · intro other hother
        rcases List.mem_cons.mp hother with rfl | hother
        · intro c
          rw [hjournal, hentry]
          exact ResolutionContext.entries_revert_edits (hentry ▸ hnew) c
        · exact hjournals other hother

theorem append_diff_self {α : Type} [BEq α] [LawfulBEq α] (a b : List α) : (a ++ b).diff a = b := by
  induction a with
  | nil => rfl
  | cons x a ih => rw [List.cons_append, List.diff_cons, List.erase_cons_head, ih]

/-- The search path after deactivations in any order, where no entry is there twice. -/
theorem Activates.entries_deactivateAll {initial final : ResolutionContext}
    {activations order : List Activation} (h : Activates initial activations final)
    (horder : order.Perm activations) (hnodup : (activations.map entryOf).Nodup)
    (habsent : ∀ activation ∈ activations, entryOf activation ∉ initial.entries)
    (activator : Activator) :
    (activator.deactivateAll final order).2.entries = initial.entries := by
  obtain ⟨hfinal, hjournals⟩ := h.entries hnodup habsent
  have herase : ∀ (rest : List Activation), (∀ activation ∈ rest, activation ∈ order) →
      ∀ context : ResolutionContext,
        (rest.foldl (fun context activation => context.revert activation.journal)
          context).entries = context.entries.diff (rest.map entryOf) := by
    intro rest
    induction rest with
    | nil => exact fun _ _ => rfl
    | cons activation rest ih =>
        intro hrest context
        rw [List.foldl_cons, ih fun a ha => hrest a (List.mem_cons_of_mem _ ha), List.map_cons,
          List.diff_cons, hjournals _ (horder.mem_iff.mp (hrest _ List.mem_cons_self))]
  rw [deactivateAll_snd, herase order fun _ ha => ha, hfinal]
  have hperm : (order.map entryOf).Perm (activations.map entryOf).reverse :=
    (horder.map entryOf).trans (List.reverse_perm _).symm
  rw [hperm.diff_left, append_diff_self]

/-- The overrides after deactivations in any order: those that were in force before the activation
that is deactivated last. -/
theorem Activates.overrides_deactivateAll {initial final before : ResolutionContext}
    {front back order : List Activation} {last : Activation}
    (h : Activates initial (front ++ last :: back) final)
    (hfront : Activates initial front before) (horder : order.Perm (front ++ last :: back))
    (hlast : order.getLast? = some last) (activator : Activator) :
    (activator.deactivateAll final order).2.overrides.Same before.overrides := by
  obtain ⟨earlier, rfl⟩ := List.getLast?_eq_some_iff.mp hlast
  obtain ⟨location, hjournal⟩ := h.journal_of_split hfront
  intro key
  rw [deactivateAll_snd, List.foldl_append, List.foldl_cons, List.foldl_nil, hjournal]
  refine (ResolutionContext.override?_revert_edits before _ location key).trans ?_
  split
  · rfl
  · next hkey =>
      rw [not_or] at hkey
      have hmem : ∀ activation ∈ earlier, activation ∈ front ++ last :: back :=
        fun a ha => horder.mem_iff.mp (List.mem_append_left _ ha)
      rw [h.override?_foldl_revert hmem final hkey.1 hkey.2, h.override? hkey.1 hkey.2,
        ← hfront.override? hkey.1 hkey.2]
      rfl

/-- **Deactivating every activation of a run once.**  In the reverse order it gives back the first
context.  In any order the overrides end as they were before the activation that is deactivated
last, which can only show in the two variables of environments, and the search path is the first
one if the environments are different and none of them was on it. -/
theorem deactivateAll_undoes {initial final : ResolutionContext}
    {activations order : List Activation} (h : Activates initial activations final)
    (horder : order.Perm activations) (activator : Activator) :
    let after := (activator.deactivateAll final order).2
    (order = activations.reverse → after.Same initial) ∧
    (∀ front last back before, activations = front ++ last :: back →
      Activates initial front before → order.getLast? = some last →
        after.overrides.Same before.overrides) ∧
    (∀ key, key ≠ Variable.activeLocation → key ≠ Variable.interpreterHome →
      after.override? key = initial.override? key) ∧
    ((activations.map entryOf).Nodup →
      (∀ activation ∈ activations, entryOf activation ∉ initial.entries) →
        after.entries = initial.entries) := by
  refine ⟨?_, ?_, ?_, ?_⟩
  · rintro rfl
    exact same_deactivateAll_reverse h activator
  · rintro front last back before rfl hfront hlast
    exact h.overrides_deactivateAll hfront horder hlast activator
  · intro key hlocation hhome
    rw [deactivateAll_snd,
      h.override?_foldl_revert (fun _ ha => horder.mem_iff.mp ha) final hlocation hhome,
      h.override? hlocation hhome]
  · intro hnodup habsent
    exact h.entries_deactivateAll horder hnodup habsent activator

/-! ### Two environments -/

/-- A world without files. -/
def bareWorld : World := ⟨⟨[], 1⟩, [], 0, .empty, [], .zero, []⟩

/-- What the activation of an environment that is taken as it is leaves. -/
def reuse (context : ResolutionContext) (name : String) : Completion :=
  (Activator.activate ⟨.standard (.ofText "/envs"), .empty⟩ Scripted.provisioner .epoch context
    ⟨⟨name, .isolated, some []⟩, .never, .off⟩ (bareWorld, ⟨{ answers := [true] }, []⟩)).1

/-- The context in which the first of two environments is active. -/
def withOne : ResolutionContext := (reuse (.ofSearchPath []) "a").context

/-- The context in which both environments are. -/
def withTwo : ResolutionContext := (reuse withOne "b").context

/-- Two environments are activated one after the other. -/
theorem exists_activates_two :
    ∃ first second, Activates (.ofSearchPath []) [first] withOne ∧
      Activates (.ofSearchPath []) [first, second] withTwo :=
  ⟨_, _, .cons rfl rfl (.nil _), .cons rfl rfl (.cons rfl rfl (.nil _))⟩

/-- Environments that are deactivated in the order of their activation leave a variable of the first
one behind. -/
theorem deactivateAll_in_order :
    ∃ activations final, Activates (.ofSearchPath []) activations final ∧ ∀ activator : Activator,
      (activator.deactivateAll final activations).2.override? Variable.activeLocation =
        some (some "/envs/a") ∧
      ¬ (activator.deactivateAll final activations).2.Same (.ofSearchPath []) := by
  obtain ⟨first, second, hone, htwo⟩ := exists_activates_two
  refine ⟨_, _, htwo, fun activator => ?_⟩
  have hafter : (activator.deactivateAll withTwo [first, second]).2.override?
      Variable.activeLocation = some (some "/envs/a") := by
    have hactive : withOne.override? Variable.activeLocation = some (some "/envs/a") := by
      decide +kernel
    have hlast : ([first, second] : List Activation).getLast? = some second := rfl
    have hperm : [first, second].Perm ([first] ++ [second]) := .refl _
    exact (Activates.overrides_deactivateAll htwo hone hperm hlast activator _).trans hactive
  refine ⟨hafter, fun hsame => ?_⟩
  have hbefore := hsame.2 Variable.activeLocation
  rw [← ResolutionContext.override?, hafter] at hbefore
  simp [ResolutionContext.ofSearchPath] at hbefore

/-- In the reverse order they leave nothing behind. -/
theorem deactivateAll_undoes_two :
    ∃ first second, Activates (.ofSearchPath []) [first, second] withTwo ∧
      [second, first].Perm [first, second] ∧ ∀ activator : Activator,
        (activator.deactivateAll withTwo [second, first]).2.Same (.ofSearchPath []) := by
  obtain ⟨first, second, _, htwo⟩ := exists_activates_two
  have hperm : [second, first].Perm [first, second] := .swap first second []
  exact ⟨first, second, htwo, hperm, fun activator =>
    (deactivateAll_undoes htwo hperm activator).1 rfl⟩

end Activator
end Enclave
