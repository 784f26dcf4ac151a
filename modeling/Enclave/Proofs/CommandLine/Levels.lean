import Enclave.CommandLine.Arguments
import Mathlib.Data.List.Basic

/-! # Levels of options

What is typed is read without looking at any variable (`exists_open`).  When a level is closed, its
options that were not typed take the values of their variables (`Level.supplement`), unless one of
these is refused (`Level.foldlM_addVariable`); nothing else depends on variables
(`closeAll_of_closeAll_empty`). -/

namespace Enclave.CommandLine

variable {environ : Environ} {key : Key} {value : Bytes} {followed : Bool} {level level' : Level}
  {levels outer : List Level} {stage : Stage}

theorem bind_eq_ok_iff {α β : Type} {first : Except UsageError α}
    {next : α → Except UsageError β} {result : β} :
    first.bind next = .ok result ↔ ∃ middle, first = .ok middle ∧ next middle = .ok result := by
  cases first <;> simp [Except.bind]

/-! ### What is typed -/

namespace Level

/-- Whether all values at a level were typed and are allowed. -/
def IsTyped (level : Level) : Prop :=
  ∀ given ∈ level.given, given.origin = .argument ∧
    (given.key.takesValue = true → given.key.check given.value = none)

theorem add_eq_ok {origin : Origin} (h : level.add origin key value = .ok level') :
    level' = { level with given := level.given ++ [⟨key, origin, value⟩] } ∧
      (key.takesValue = true → key.check value = none) := by
  rw [add] at h
  split at h
  · cases h
  · split at h
    · cases h
    · next hcheck =>
        refine ⟨(Except.ok.inj h).symm, fun htakes => ?_⟩
        rwa [if_pos htakes] at hcheck

theorem IsTyped.add (h : level.IsTyped) (hadd : level.add .argument key value = .ok level') :
    level'.IsTyped := by
  obtain ⟨rfl, hcheck⟩ := add_eq_ok hadd
  intro given hgiven
  rcases List.mem_append.mp hgiven with hold | hnew
  · exact h given hold
  · rw [List.mem_singleton.mp hnew]
    exact ⟨rfl, hcheck⟩

theorem IsTyped.settle (h : level.IsTyped) (hsettle : level.settle = .ok level') :
    level'.IsTyped := by
  rw [Level.settle] at hsettle
  split at hsettle
  · exact Except.ok.inj hsettle ▸ h
  · cases hsettle
  · have hidle : IsTyped { level with waiting := none } := h
    exact hidle.add hsettle

theorem stage_of_settle (hsettle : level.settle = .ok level') : level'.stage = level.stage := by
  rw [settle] at hsettle
  split at hsettle
  · rw [Except.ok.inj hsettle]
  · cases hsettle
  · rw [(add_eq_ok hsettle).1]

theorem IsTyped.addFlag (h : level.IsTyped) (hflag : level.addFlag key = .ok level') :
    level'.IsTyped := by
  obtain ⟨settled, hsettle, hadd⟩ := bind_eq_ok_iff.mp hflag
  split at hadd
  · cases hadd
  · cases hadd
  · exact (h.settle hsettle).add hadd

theorem IsTyped.addOption {attached : Option Bytes} (h : level.IsTyped)
    (hoption : level.addOption key attached = .ok level') : level'.IsTyped := by
  obtain ⟨settled, hsettle, hadd⟩ := bind_eq_ok_iff.mp hoption
  split at hadd
  · exact (h.settle hsettle).add hadd
  · obtain rfl := Except.ok.inj hadd
    have htyped := h.settle hsettle
    exact htyped

theorem IsTyped.readLong {text : List Char} (h : level.IsTyped)
    (hread : level.readLong text = .ok level') : level'.IsTyped := by
  simp only [Level.readLong] at hread
  split at hread
  · cases hread
  · split_ifs at hread
    · exact h.addOption hread
    · exact h.addFlag hread

theorem IsTyped.readShort {letters : List Char} (h : level.IsTyped)
    (hread : level.readShort letters = .ok level') : level'.IsTyped := by
  induction letters generalizing level with
  | nil => exact Except.ok.inj hread ▸ h
  | cons letter rest ih =>
      unfold Level.readShort at hread
      split at hread
      · cases hread
      · split at hread
        · exact h.addOption hread
        · obtain ⟨flagged, hflag, hrest⟩ := bind_eq_ok_iff.mp hread
          exact ih (h.addFlag hflag) hrest

theorem IsTyped.read {argument : String} (h : level.IsTyped)
    (hread : level.read argument = .ok level') : level'.IsTyped := by
  rw [Level.read] at hread
  split at hread
  · split_ifs at hread
    · obtain ⟨settled, hsettle, hoperands⟩ := bind_eq_ok_iff.mp hread
      obtain rfl := Except.ok.inj hoperands
      have htyped := h.settle hsettle
      exact htyped
    · obtain rfl := Except.ok.inj hread
      exact h
  · split at hread
    · exact Except.ok.inj hread ▸ h
    · exact h.readLong hread
    · exact h.readShort hread
    · split at hread
      · exact Except.ok.inj hread ▸ h
      · cases hread

end Level

/-- Whether levels, the innermost one first, hold typed values only, the outer ones being groups. -/
def AreTyped : List Level → Prop
  | [] => False
  | inner :: outer => inner.IsTyped ∧ ∀ level ∈ outer, level.IsTyped ∧ level.stage.isGroup = true

theorem Stage.isGroup_of_subcommand? {name : String} {inner : Stage}
    (h : stage.subcommand? name = some inner) : stage.isGroup = true := by
  cases hsub : stage.subcommands with
  | nil => simp [Stage.subcommand?, hsub] at h
  | cons entry rest => simp [Stage.isGroup, hsub]

/-- Reading arguments either fails whatever the variables are, or comes to the levels that are then
closed. -/
theorem exists_open (arguments : List String) (h : AreTyped (level :: outer)) :
    (∃ e, ∀ environ, readLevels environ outer level arguments = .error e) ∨
      ∃ opened, AreTyped opened ∧
        ∀ environ, readLevels environ outer level arguments = closeAll environ false opened := by
  induction arguments generalizing outer level with
  | nil => exact .inr ⟨level :: outer, h, fun _ => rfl⟩
  | cons argument rest ih =>
      cases hcommand :
          (if level.expectsCommand then level.stage.subcommand? argument else none) with
      | some inner =>
          have hgroup : level.stage.isGroup = true := by
            split at hcommand
            · exact Stage.isGroup_of_subcommand? hcommand
            · cases hcommand
          have hinner : AreTyped ({ stage := inner } :: level :: outer) :=
            ⟨fun _ hgiven => absurd hgiven List.not_mem_nil,
              List.forall_mem_cons.mpr ⟨⟨h.1, hgroup⟩, h.2⟩⟩
          simpa only [readLevels, hcommand] using ih hinner
      | none =>
          simp only [readLevels, hcommand]
          split
          · exact .inl ⟨_, fun _ => rfl⟩
          · cases hread : level.read argument with
            | error e => exact .inl ⟨e, fun _ => rfl⟩
            | ok next => exact ih ⟨h.1.read hread, h.2⟩

/-! ### What variables add -/

/-- The value that a variable has for an option. -/
def Key.fromEnviron (environ : Environ) (key : Key) : Option Bytes :=
  key.environKey?.bind environ.get?

theorem takesValue_of_fromEnviron (h : key.fromEnviron environ = some value) :
    key.takesValue = true := by
  cases key <;> simp_all [Key.fromEnviron, Key.environKey?, Key.takesValue]

namespace Level

/-- The value that an option takes from its variable at a level. -/
def supplied (environ : Environ) (level : Level) (key : Key) : Option Given :=
  if level.has key then none else (key.fromEnviron environ).map fun value => ⟨key, .environ, value⟩

/-- The level with the values of variables for the options among `keys` that were not given. -/
def supplement (environ : Environ) (keys : List Key) (level : Level) : Level :=
  { level with given := level.given ++ keys.filterMap (level.supplied environ) }

/-- A variable that gives a value to an option that was not given. -/
def Missing (environ : Environ) (level : Level) (key : Key) (value : Bytes) : Prop :=
  level.has key = false ∧ key.fromEnviron environ = some value

theorem addVariable_of_not_missing (h : ∀ value, ¬ level.Missing environ key value) :
    level.addVariable environ key = .ok level := by
  rw [addVariable]
  split
  · rfl
  · next hhas =>
      cases hvariable : key.fromEnviron environ with
      | some value => exact absurd ⟨by simpa using hhas, hvariable⟩ (h value)
      | none =>
          rw [Key.fromEnviron] at hvariable
          rw [hvariable]

theorem supplied_of_not_missing (h : ∀ value, ¬ level.Missing environ key value) :
    level.supplied environ key = none := by
  rw [supplied]
  split
  · rfl
  · next hhas =>
      rw [Option.map_eq_none_iff, Option.eq_none_iff_forall_ne_some]
      exact fun value hvariable => h value ⟨by simpa using hhas, hvariable⟩

/-- The level with a value that an option takes from its variable. -/
def supply (level : Level) (key : Key) (value : Bytes) : Level :=
  { level with given := level.given ++ [⟨key, .environ, value⟩] }

theorem has_supply {other : Key} (h : key ≠ other) :
    (level.supply key value).has other = level.has other := by
  simp [supply, has, h]

theorem missing_supply {other : Key} (h : key ≠ other) {value' : Bytes} :
    (level.supply key value).Missing environ other value' ↔
      level.Missing environ other value' := by
  rw [Missing, Missing, has_supply h]

theorem addVariable_of_missing (h : level.Missing environ key value) :
    level.addVariable environ key = match key.check value with
      | some refusal => .error refusal
      | none => .ok (level.supply key value) := by
  obtain ⟨hhas, hvariable⟩ := h
  have htakes := takesValue_of_fromEnviron hvariable
  rw [Key.fromEnviron] at hvariable
  cases hcheck : key.check value <;>
    simp [addVariable, hhas, hvariable, add, htakes, hcheck, supply]

theorem supplement_cons_of_missing {keys : List Key} (hkey : key ∉ keys)
    (h : level.Missing environ key value) :
    level.supplement environ (key :: keys) = (level.supply key value).supplement environ keys := by
  have htail : keys.filterMap ((level.supply key value).supplied environ) =
      keys.filterMap (level.supplied environ) :=
    List.filterMap_congr fun other hother => by
      have hne : key ≠ other := fun heq => hkey (heq ▸ hother)
      rw [supplied, supplied, has_supply hne]
  have hhead : level.supplied environ key = some ⟨key, .environ, value⟩ := by
    simp [supplied, h.1, h.2]
  simp only [supplement, htail, List.filterMap_cons, hhead]
  simp [supply]

theorem supplement_cons_of_not_missing {keys : List Key}
    (h : ∀ value, ¬ level.Missing environ key value) :
    level.supplement environ (key :: keys) = level.supplement environ keys := by
  simp only [supplement, List.filterMap_cons, supplied_of_not_missing h]

/-- Options that were not given take the values of their variables, unless one of these is
refused. -/
theorem foldlM_addVariable (environ : Environ) {keys : List Key} (h : keys.Nodup)
    (level : Level) :
    (∃ key ∈ keys, ∃ value refusal, level.Missing environ key value ∧
        key.check value = some refusal ∧
        keys.foldlM (addVariable environ) level = .error refusal) ∨
      ((∀ key ∈ keys, ∀ value, level.Missing environ key value → key.check value = none) ∧
        keys.foldlM (addVariable environ) level = .ok (level.supplement environ keys)) := by
  induction keys generalizing level with
  | nil => exact .inr ⟨fun _ hkey => absurd hkey List.not_mem_nil, by simp [supplement]; rfl⟩
  | cons key keys ih =>
      obtain ⟨hkey, hkeys⟩ := List.nodup_cons.mp h
      have hne : ∀ other ∈ keys, key ≠ other := fun other hother heq => hkey (heq ▸ hother)
      rw [List.foldlM_cons]
      by_cases hmissing : ∃ value, level.Missing environ key value
      · obtain ⟨value, hmissing⟩ := hmissing
        rw [addVariable_of_missing hmissing]
        cases hcheck : key.check value with
        | some refusal =>
            exact .inl ⟨key, List.mem_cons_self, value, refusal, hmissing, hcheck, rfl⟩
        | none =>
            rcases ih hkeys (level.supply key value) with
              ⟨other, hother, v, refusal, hv, hrefused, hfold⟩ | ⟨hall, hfold⟩
            · exact .inl ⟨other, List.mem_cons_of_mem _ hother, v, refusal,
                (missing_supply (hne other hother)).mp hv, hrefused, hfold⟩
            · rw [supplement_cons_of_missing hkey hmissing]
              refine .inr ⟨fun other hother v hv => ?_, hfold⟩
              rcases List.mem_cons.mp hother with rfl | hother
              · obtain rfl := Option.some.inj (hv.2.symm.trans hmissing.2)
                exact hcheck
              · exact hall other hother v ((missing_supply (hne other hother)).mpr hv)
      · have hmissing' : ∀ value, ¬ level.Missing environ key value :=
          fun value h => hmissing ⟨value, h⟩
        rw [addVariable_of_not_missing hmissing']
        rcases ih hkeys level with ⟨other, hother, found⟩ | ⟨hall, hfold⟩
        · exact .inl ⟨other, List.mem_cons_of_mem _ hother, found⟩
        · rw [supplement_cons_of_not_missing hmissing']
          refine .inr ⟨fun other hother v hv => ?_, hfold⟩
          rcases List.mem_cons.mp hother with rfl | hother
          · exact absurd hv (hmissing' v)
          · exact hall other hother v hv

/-- A level with the values of variables for all its options that were not given. -/
def fill (environ : Environ) (level : Level) : Except UsageError Level :=
  level.stage.keys.foldlM (addVariable environ) level

theorem keys_nodup (stage : Stage) : stage.keys.Nodup := by
  cases stage <;> decide

@[simp] theorem supplement_empty (keys : List Key) (level : Level) :
    level.supplement .empty keys = level := by
  have hnone : ∀ key, level.supplied .empty key = none := fun key =>
    supplied_of_not_missing fun value h => by
      cases key <;> cases h.2
  have hfilter : keys.filterMap (level.supplied .empty) = [] :=
    List.filterMap_eq_nil_iff.mpr fun key _ => hnone key
  rw [supplement, hfilter, List.append_nil]

theorem fill_empty (level : Level) : level.fill .empty = .ok level := by
  rcases foldlM_addVariable .empty (keys_nodup level.stage) level with
    ⟨key, _, value, _, hmissing, _⟩ | ⟨_, hfold⟩
  · cases key <;> cases hmissing.2
  · rwa [supplement_empty] at hfold

theorem fill_eq_ok (h : level.fill environ = .ok level') :
    level' = level.supplement environ level.stage.keys := by
  rcases foldlM_addVariable environ (keys_nodup level.stage) level with
    ⟨_, _, _, _, _, _, hfold⟩ | ⟨_, hfold⟩
  · cases hfold.symm.trans h
  · exact Except.ok.inj (h.symm.trans hfold)

/-! ### Closing levels -/

/-- Whether a level asks for what it needs: a group is followed by a command, and something is
run. -/
def IsComplete (level : Level) (followed : Bool) : Prop :=
  (level.stage.isGroup && !followed) = false ∧
    ¬ (level.stage = .run ∧ level.operands.getD [] = [])

theorem close_eq_ok_iff : level.close environ followed = .ok level' ↔
    ∃ settled, level.settle = .ok settled ∧ settled.fill environ = .ok level' ∧
      settled.IsComplete followed := by
  have hcheck : ∀ {settled filled : Level}, settled.fill environ = .ok filled →
      ((if (filled.stage.isGroup && !followed) = true then
          .error (if filled.given = [] then .helpOnMissing else .missingSubcommand)
        else if filled.stage = .run ∧ filled.operands.getD [] = [] then .error .missingArgument
        else .ok filled : Except UsageError Level) = .ok level' ↔
        filled = level' ∧ settled.IsComplete followed) := by
    intro settled filled hfill
    have hstage : filled.stage = settled.stage := by rw [fill_eq_ok hfill]; rfl
    have hoperands : filled.operands = settled.operands := by rw [fill_eq_ok hfill]; rfl
    rw [hstage, hoperands, IsComplete]
    split_ifs with hgroup hrun
    · simp [hgroup]
    · simp [hrun]
    · simp [hgroup, hrun]
  constructor
  · intro h
    obtain ⟨settled, hsettle, hrest⟩ := bind_eq_ok_iff.mp h
    obtain ⟨filled, hfill, hchecked⟩ := bind_eq_ok_iff.mp hrest
    obtain ⟨rfl, hcomplete⟩ := (hcheck hfill).mp (by simpa using hchecked)
    exact ⟨settled, hsettle, hfill, hcomplete⟩
  · rintro ⟨settled, hsettle, hfill, hcomplete⟩
    have hchecked := (hcheck hfill).mpr ⟨rfl, hcomplete⟩
    exact bind_eq_ok_iff.mpr ⟨settled, hsettle, bind_eq_ok_iff.mpr ⟨level', hfill, by
      simpa using hchecked⟩⟩

/-- A level that can be closed without variables is closed with what they add. -/
theorem close_of_close_empty (h : level.close .empty followed = .ok level') :
    level.close environ followed = level'.fill environ := by
  obtain ⟨settled, hsettle, hfill, hcomplete⟩ := close_eq_ok_iff.mp h
  obtain rfl := Except.ok.inj ((fill_empty settled).symm.trans hfill)
  cases hfilled : settled.fill environ with
  | ok filled => exact close_eq_ok_iff.mpr ⟨settled, hsettle, hfilled, hcomplete⟩
  | error e =>
      rw [fill] at hfilled
      simp only [close, hsettle, bind, Except.bind, hfilled]

end Level

theorem closeAll_eq_ok (h : closeAll environ followed levels = .ok outer) :
    ∃ closed, closeAll .empty followed levels = .ok closed := by
  induction levels generalizing followed outer with
  | nil => exact ⟨[], rfl⟩
  | cons level rest ih =>
      obtain ⟨filled, hclose, hrest⟩ := bind_eq_ok_iff.mp h
      obtain ⟨filledRest, hcloseRest, _⟩ := bind_eq_ok_iff.mp hrest
      obtain ⟨settled, hsettle, _, hcomplete⟩ := Level.close_eq_ok_iff.mp hclose
      obtain ⟨closed, hclosed⟩ := ih hcloseRest
      exact ⟨settled :: closed, bind_eq_ok_iff.mpr ⟨settled,
        Level.close_eq_ok_iff.mpr ⟨settled, hsettle, Level.fill_empty settled, hcomplete⟩,
        bind_eq_ok_iff.mpr ⟨closed, hclosed, rfl⟩⟩⟩

/-- Levels that can be closed without variables are closed with what these add to each. -/
theorem closeAll_of_closeAll_empty {closed : List Level}
    (h : closeAll .empty followed levels = .ok closed) :
    closeAll environ followed levels = closed.mapM (Level.fill environ) := by
  induction levels generalizing followed closed with
  | nil => obtain rfl := Except.ok.inj h; rfl
  | cons level rest ih =>
      obtain ⟨settled, hclose, hrest⟩ := bind_eq_ok_iff.mp h
      obtain ⟨closedRest, hcloseRest, hok⟩ := bind_eq_ok_iff.mp hrest
      obtain rfl := Except.ok.inj hok
      rw [List.mapM_cons, closeAll, Level.close_of_close_empty hclose, ih hcloseRest]
      rfl

theorem Level.IsTyped.close (h : level.IsTyped) (hclose : level.close .empty followed = .ok level') :
    level'.IsTyped ∧ level'.stage = level.stage := by
  obtain ⟨settled, hsettle, hfill, _⟩ := Level.close_eq_ok_iff.mp hclose
  obtain rfl := Except.ok.inj ((Level.fill_empty settled).symm.trans hfill)
  exact ⟨h.settle hsettle, Level.stage_of_settle hsettle⟩

private theorem closeAll_groups {closed : List Level}
    (h : ∀ level ∈ levels, level.IsTyped ∧ level.stage.isGroup = true)
    (hclose : closeAll .empty followed levels = .ok closed) :
    ∀ level ∈ closed, level.IsTyped ∧ level.stage.isGroup = true := by
  induction levels generalizing followed closed with
  | nil =>
      obtain rfl := Except.ok.inj hclose
      exact fun _ hlevel => absurd hlevel List.not_mem_nil
  | cons level rest ih =>
      obtain ⟨settled, hsettled, hrest⟩ := bind_eq_ok_iff.mp hclose
      obtain ⟨closedRest, hcloseRest, hok⟩ := bind_eq_ok_iff.mp hrest
      obtain rfl := Except.ok.inj hok
      obtain ⟨⟨htyped, hgroup⟩, hlevelsRest⟩ := List.forall_mem_cons.mp h
      obtain ⟨htyped', hstage⟩ := htyped.close hsettled
      exact List.forall_mem_cons.mpr ⟨⟨htyped', hstage ▸ hgroup⟩, ih hlevelsRest hcloseRest⟩

theorem AreTyped.closeAll {closed : List Level} (h : AreTyped levels)
    (hclose : closeAll .empty followed levels = .ok closed) : AreTyped closed := by
  cases levels with
  | nil => exact h.elim
  | cons inner outer =>
      obtain ⟨settled, hsettle, hrest⟩ := bind_eq_ok_iff.mp hclose
      obtain ⟨closedRest, hcloseRest, hok⟩ := bind_eq_ok_iff.mp hrest
      obtain rfl := Except.ok.inj hok
      exact ⟨(h.1.close hsettle).1, closeAll_groups h.2 hcloseRest⟩

end Enclave.CommandLine
