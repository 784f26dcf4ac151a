import Enclave.Proofs.CommandLine.Levels

/-! # Arguments and variables

What arguments ask for is told by reading them without variables and then giving every option that
was not typed the value of its variable as it is (`Arguments.filled`, `parse_of_typed`).  An empty
root and a name that is no text are refused then, and nothing else is. -/

namespace Enclave.CommandLine

variable {environ : Environ} {key : Key} {level : Level} {levels : List Level} {stage : Stage}

/-! ### Reading levels that variables were added to -/

namespace Level

theorem has_eq (level : Level) (key : Key) :
    level.has key = !(level.given.filter (·.key = key)).isEmpty := by
  rw [has, Bool.eq_iff_iff]
  simp

theorem filter_supplied {keys : List Key} (h : keys.Nodup) :
    (keys.filterMap (level.supplied environ)).filter (·.key = key) =
      if key ∈ keys then (level.supplied environ key).toList else [] := by
  have hkey : ∀ {other given}, level.supplied environ other = some given → given.key = other := by
    intro other given hgiven
    rw [supplied] at hgiven
    split at hgiven
    · cases hgiven
    · obtain ⟨value, _, rfl⟩ := Option.map_eq_some_iff.mp hgiven
      rfl
  induction keys with
  | nil => rfl
  | cons other keys ih =>
      obtain ⟨hother, hkeys⟩ := List.nodup_cons.mp h
      rw [List.filterMap_cons]
      by_cases he : other = key
      · subst he
        have hnone := ih hkeys
        rw [if_neg hother] at hnone
        cases hsupplied : level.supplied environ other with
        | none => simp [hnone]
        | some given => simp [hkey hsupplied, hnone]
      · cases hsupplied : level.supplied environ other with
        | none => simp [ih hkeys, Ne.symm he]
        | some given => simp [hkey hsupplied, he, ih hkeys, Ne.symm he]

/-- The values of an option on a level that variables were added to. -/
theorem filter_supplement {keys : List Key} (h : keys.Nodup) :
    (level.supplement environ keys).given.filter (·.key = key) =
      level.given.filter (·.key = key) ++
        if key ∈ keys then (level.supplied environ key).toList else [] := by
  rw [supplement, List.filter_append, filter_supplied h]

theorem filter_supplement_of_none {keys : List Key} (h : keys.Nodup)
    (hnone : key.environKey? = none) :
    (level.supplement environ keys).given.filter (·.key = key) =
      level.given.filter (·.key = key) := by
  have hsupplied : level.supplied environ key = none := by
    simp [supplied, Key.fromEnviron, hnone]
  rw [filter_supplement h, hsupplied]
  split <;> exact List.append_nil _

theorem getLast?_supplement (environ : Environ) (level : Level) {keys : List Key}
    (h : keys.Nodup) (hkey : key ∈ keys) :
    ((level.supplement environ keys).given.filter (·.key = key)).getLast? =
      ((level.given.filter (·.key = key)).getLast? <|>
        (key.fromEnviron environ).map fun value => ⟨key, .environ, value⟩) := by
  rw [filter_supplement h, if_pos hkey, supplied, has_eq]
  cases hgiven : level.given.filter (·.key = key) with
  | nil => cases key.fromEnviron environ <;> rfl
  | cons given rest =>
      obtain ⟨last, hlast⟩ : ∃ last, (given :: rest).getLast? = some last :=
        ⟨_, List.getLast?_eq_getLast_of_ne_nil (List.cons_ne_nil given rest)⟩
      simp only [List.isEmpty_cons, Bool.not_false, if_true, Option.toList_none, List.append_nil,
        hlast]
      rfl

theorem text?_name (level : Level) : level.text? .name =
    (level.given.filter (·.key = Key.name)).getLast?.bind (·.value.text?) := by
  rw [text?, values, List.getLast?_map, Option.bind_map]
  rfl

/-- A name that was typed is a text. -/
theorem IsTyped.exists_text {given : Given} (h : level.IsTyped)
    (hlast : (level.given.filter (·.key = Key.name)).getLast? = some given) :
    ∃ text, given.value.text? = some text := by
  obtain ⟨hmem, hkey⟩ := List.mem_filter.mp (List.mem_of_getLast? hlast)
  have hcheck := (h given hmem).2
  rw [show given.key = .name by simpa using hkey] at hcheck
  cases htext : given.value.text? with
  | none => simp [Key.check, Key.isPath, Key.takesValue, htext] at hcheck
  | some text => exact ⟨text, rfl⟩

theorem IsTyped.text?_name_eq_none_iff (h : level.IsTyped) :
    level.text? .name = none ↔ level.has .name = false := by
  rw [text?_name, has_eq]
  cases hlast : (level.given.filter (·.key = Key.name)).getLast? with
  | none => simp [List.getLast?_eq_none_iff.mp hlast]
  | some last =>
      obtain ⟨text, htext⟩ := h.exists_text hlast
      have hne : level.given.filter (·.key = Key.name) ≠ [] := fun hnil => by simp [hnil] at hlast
      simp [htext, List.isEmpty_eq_false_iff.mpr hne]

/-- The name on a level: what is typed, or else the value of the variable. -/
theorem text?_name_supplement {keys : List Key} (h : keys.Nodup) (htyped : level.IsTyped)
    (hname : Key.name ∈ keys) :
    (level.supplement environ keys).text? .name =
      (level.text? .name <|> environ.text? Variable.name) := by
  rw [text?_name, text?_name, getLast?_supplement _ _ h hname]
  cases hlast : (level.given.filter (·.key = Key.name)).getLast? with
  | none =>
      simp only [Key.fromEnviron, Key.environKey?, Option.bind_some, Environ.text?]
      cases environ.get? Variable.name <;> rfl
  | some last =>
      obtain ⟨text, htext⟩ := htyped.exists_text hlast
      simp [htext]

/-- A level that variables were added to says the same about every option without a variable. -/
theorem values_supplement {keys : List Key} (h : keys.Nodup) (hnone : key.environKey? = none) :
    (level.supplement environ keys).values key = level.values key := by
  rw [values, values, filter_supplement_of_none h hnone]

theorem text?_supplement {keys : List Key} (h : keys.Nodup) (hnone : key.environKey? = none) :
    (level.supplement environ keys).text? key = level.text? key := by
  rw [text?, text?, values_supplement h hnone]

theorem flag_supplement {keys : List Key} (h : keys.Nodup) (hnone : key.environKey? = none) :
    (level.supplement environ keys).flag key = level.flag key := by
  rw [flag, flag, has_eq, has_eq, filter_supplement_of_none h hnone]

end Level

/-! ### What the arguments ask for -/

/-- The target with the name from the variable if none was typed. -/
def Target.filled (environ : Environ) (target : Target) : Target :=
  { target with name := target.name <|> environ.text? Variable.name }

/-- The task with the name from the variable if none was typed. -/
def Task.filled (environ : Environ) : Task → Task
  | .activate target versions shell => .activate (target.filled environ) versions shell
  | .run target command => .run (target.filled environ) command
  | .freeze name system => .freeze (name <|> environ.text? Variable.name) system
  | task => task

/-- The name that a task was given.  Some tasks have none. -/
def Task.name? : Task → Option (Option String)
  | .activate target _ _ => some target.name
  | .run target _ => some target.name
  | .freeze name _ => some name
  | _ => none

/-- What arguments ask for if what was not typed is taken from the variables as it is. -/
def Arguments.filled (environ : Environ) (typed : Arguments) : Arguments :=
  { typed with
    task := typed.task.filled environ
    root := typed.root <|> (environ.get? Variable.root).map Path.mk }

/-- The level with the values of variables for all its options that were not given. -/
def Level.filled (environ : Environ) (level : Level) : Level :=
  level.supplement environ level.stage.keys

theorem Level.target_filled (htyped : level.IsTyped) (hname : Key.name ∈ level.stage.keys) :
    (level.filled environ).target = level.target.filled environ := by
  have h := keys_nodup level.stage
  simp (disch := decide) only [target, filled, Target.filled, text?_name_supplement h htyped hname,
    text?_supplement h, values_supplement h, flag_supplement h]

theorem Level.flag_filled (hnone : key.environKey? = none) :
    (level.filled environ).flag key = level.flag key :=
  flag_supplement (keys_nodup level.stage) hnone

theorem Level.task?_filled (htyped : level.IsTyped) :
    (level.filled environ).task? = level.task?.map (Task.filled environ) := by
  have hstage : (level.filled environ).stage = level.stage := rfl
  have hoperands : (level.filled environ).operands = level.operands := rfl
  rw [task?, task?, hstage]
  cases hlevel : level.stage with
  | activate =>
      have hname : Key.name ∈ level.stage.keys := by rw [hlevel]; decide
      simp (disch := decide) only [target_filled htyped hname, flag_filled]
      rfl
  | run =>
      have hname : Key.name ∈ level.stage.keys := by rw [hlevel]; decide
      simp only [target_filled htyped hname, hoperands]
      rfl
  | freeze =>
      have hname : Key.name ∈ level.stage.keys := by rw [hlevel]; decide
      have htext : (level.filled environ).text? .name =
          (level.text? .name <|> environ.text? Variable.name) :=
        text?_name_supplement (keys_nodup level.stage) htyped hname
      simp (disch := decide) only [htext, flag_filled]
      rfl
  | clean =>
      simp (disch := decide) only [flag_filled]
      rfl
  | top => rfl
  | environments => rfl
  | list => rfl

theorem lastGiven_filled_of_none (hnone : key.environKey? = none) (levels : List Level) :
    lastGiven key (levels.map (Level.filled environ)) = lastGiven key levels := by
  induction levels with
  | nil => rfl
  | cons level outer ih =>
      simp only [List.map_cons, lastGiven, ih, Level.filled]
      rw [Level.filter_supplement_of_none (Level.keys_nodup _) hnone]

/-- What `lastGiven` finds was typed, if everything was. -/
theorem origin_of_lastGiven {given : Given} (h : ∀ level ∈ levels, level.IsTyped)
    (hlast : lastGiven key levels = some given) : given.origin = .argument := by
  induction levels generalizing given with
  | nil => cases hlast
  | cons level outer ih =>
      obtain ⟨htyped, houter⟩ := List.forall_mem_cons.mp h
      have hhere : ∀ {here}, (level.given.filter (·.key = key)).getLast? = some here →
          here.origin = .argument := fun hhere =>
        (htyped _ (List.mem_filter.mp (List.mem_of_getLast? hhere)).1).1
      simp only [lastGiven] at hlast
      split at hlast
      · next here other hgiven hother =>
          split at hlast
          · exact Option.some.inj hlast ▸ ih houter hother
          · exact Option.some.inj hlast ▸ hhere hgiven
      · next here other hneither =>
          cases hgiven : (level.given.filter (·.key = key)).getLast? with
          | some here =>
              rw [hgiven] at hlast
              exact Option.some.inj hlast ▸ hhere hgiven
          | none =>
              rw [hgiven] at hlast
              exact ih houter hlast

theorem root_mem_keys (stage : Stage) : Key.root ∈ stage.keys := by
  cases stage <;> decide

theorem lastGiven_root_filled (h : ∀ level ∈ levels, level.IsTyped) (hne : levels ≠ []) :
    lastGiven .root (levels.map (Level.filled environ)) =
      (lastGiven .root levels <|>
        (environ.get? Variable.root).map fun value => ⟨.root, .environ, value⟩) := by
  induction levels with
  | nil => exact absurd rfl hne
  | cons level outer ih =>
      obtain ⟨htyped, houter⟩ := List.forall_mem_cons.mp h
      have hhere := Level.getLast?_supplement environ level
        (Level.keys_nodup level.stage) (root_mem_keys level.stage)
      have hvariable : Key.root.fromEnviron environ = environ.get? Variable.root := rfl
      rw [hvariable] at hhere
      -- on the outer levels only a typed value is stronger than a variable
      have hrest : lastGiven .root (outer.map (Level.filled environ)) =
          (lastGiven .root outer <|> if outer = [] then none else
            (environ.get? Variable.root).map fun value => ⟨.root, .environ, value⟩) := by
        by_cases hnil : outer = []
        · subst hnil
          rfl
        · rw [if_neg hnil, ih houter hnil]
      rw [List.map_cons, lastGiven, hrest, Level.filled, hhere, lastGiven]
      cases hgiven : (level.given.filter (·.key = Key.root)).getLast? with
      | some here =>
          have horigin : here.origin = .argument :=
            (htyped _ (List.mem_filter.mp (List.mem_of_getLast? hgiven)).1).1
          cases hlast : lastGiven .root outer with
          | some other =>
              have hother := origin_of_lastGiven houter hlast
              simp [horigin, hother]
          | none =>
              cases environ.get? Variable.root <;> split_ifs <;> simp [Origin.rank, horigin]
      | none =>
          cases hlast : lastGiven .root outer with
          | some other =>
              have hother := origin_of_lastGiven houter hlast
              cases environ.get? Variable.root <;> simp [Origin.rank, hother]
          | none =>
              cases environ.get? Variable.root <;> split_ifs <;> simp

/-- Every level takes the values of variables, unless one of these is refused. -/
theorem mapM_fill (environ : Environ) (levels : List Level) :
    (∃ level ∈ levels, ∃ key ∈ level.stage.keys, ∃ value refusal,
        level.Missing environ key value ∧ key.check value = some refusal ∧
          levels.mapM (Level.fill environ) = .error refusal) ∨
      ((∀ level ∈ levels, ∀ key ∈ level.stage.keys, ∀ value,
          level.Missing environ key value → key.check value = none) ∧
        levels.mapM (Level.fill environ) = .ok (levels.map (Level.filled environ))) := by
  induction levels with
  | nil => exact .inr ⟨fun _ hlevel => absurd hlevel List.not_mem_nil, rfl⟩
  | cons level outer ih =>
      rw [List.mapM_cons]
      rcases Level.foldlM_addVariable environ (Level.keys_nodup level.stage) level with
        ⟨key, hkey, value, refusal, hmissing, hcheck, hfill⟩ | ⟨hall, hfill⟩
      · refine .inl ⟨level, List.mem_cons_self, key, hkey, value, refusal, hmissing, hcheck, ?_⟩
        rw [Level.fill, hfill]
        rfl
      · rw [Level.fill, hfill]
        rcases ih with ⟨other, hother, key, hkey, value, refusal, hmissing, hcheck, hrest⟩ |
          ⟨hallRest, hrest⟩
        · refine .inl ⟨other, List.mem_cons_of_mem _ hother, key, hkey, value, refusal, hmissing,
            hcheck, ?_⟩
          rw [hrest]
          rfl
        · refine .inr ⟨List.forall_mem_cons.mpr ⟨hall, hallRest⟩, ?_⟩
          rw [hrest]
          rfl

namespace Arguments

variable {arguments : List String} {typed given : Arguments} {task : Task}

theorem ofLevels_filled (h : ∀ level ∈ levels, level.IsTyped) (hne : levels ≠ []) :
    ofLevels (levels.map (Level.filled environ)) (task.filled environ) =
      (ofLevels levels task).filled environ := by
  simp (disch := decide) only [ofLevels, filled, lastGiven_root_filled h hne,
    lastGiven_filled_of_none]
  cases lastGiven .root levels <;> cases environ.get? Variable.root <;> rfl

theorem parse_eq_ok_iff : parse environ arguments = .ok given ↔
    ∃ levels task, readLevels environ [] { stage := .top } arguments = .ok levels ∧
      levels.head?.bind Level.task? = some task ∧ given = ofLevels levels task := by
  constructor
  · intro h
    obtain ⟨levels, hread, hok⟩ := bind_eq_ok_iff.mp h
    split at hok
    · next task htask => exact ⟨levels, task, hread, htask, (Except.ok.inj hok).symm⟩
    · cases hok
  · rintro ⟨levels, task, hread, htask, rfl⟩
    refine bind_eq_ok_iff.mpr ⟨levels, hread, ?_⟩
    simp only [htask]

/-- The levels of arguments that can be read without variables: all that they hold was typed, and
with variables each takes their values. -/
theorem exists_levels (h : parse .empty arguments = .ok typed) :
    ∃ levels task, AreTyped levels ∧ levels.head?.bind Level.task? = some task ∧
      typed = ofLevels levels task ∧
      ∀ environ, readLevels environ [] { stage := .top } arguments =
        levels.mapM (Level.fill environ) := by
  obtain ⟨levels, task, hread, htask, htyped⟩ := parse_eq_ok_iff.mp h
  have htop : AreTyped [({ stage := .top } : Level)] :=
    ⟨fun _ hgiven => absurd hgiven List.not_mem_nil, fun _ hlevel => absurd hlevel List.not_mem_nil⟩
  rcases exists_open arguments htop with ⟨e, herror⟩ | ⟨opened, hopened, hclose⟩
  · cases (herror .empty).symm.trans hread
  · have hclosed := (hclose .empty).symm.trans hread
    exact ⟨levels, task, hopened.closeAll hclosed, htask, htyped, fun environ =>
      (hclose environ).trans (closeAll_of_closeAll_empty hclosed)⟩

/-- Arguments that can be read with variables can be read without them. -/
theorem exists_typed (h : parse environ arguments = .ok given) :
    ∃ typed, parse .empty arguments = .ok typed := by
  obtain ⟨levels, task, hread, htask, _⟩ := parse_eq_ok_iff.mp h
  have htop : AreTyped [({ stage := .top } : Level)] :=
    ⟨fun _ hgiven => absurd hgiven List.not_mem_nil, fun _ hlevel => absurd hlevel List.not_mem_nil⟩
  rcases exists_open arguments htop with ⟨e, herror⟩ | ⟨opened, hopened, hclose⟩
  · cases (herror environ).symm.trans hread
  · have hclosed := (hclose environ).symm.trans hread
    obtain ⟨closed, hempty⟩ := closeAll_eq_ok hclosed
    have htyped := hopened.closeAll hempty
    rw [closeAll_of_closeAll_empty hempty] at hclosed
    rcases mapM_fill environ closed with ⟨_, _, _, _, _, _, _, _, herror⟩ | ⟨_, hfilled⟩
    · cases herror.symm.trans hclosed
    · obtain rfl := Except.ok.inj (hfilled.symm.trans hclosed)
      cases closed with
      | nil => exact htyped.elim
      | cons inner outer =>
          obtain ⟨typed, htypedTask, -⟩ :
              ∃ typed, inner.task? = some typed ∧ typed.filled environ = task := by
            simpa [Level.task?_filled htyped.1] using htask
          exact ⟨_, parse_eq_ok_iff.mpr ⟨inner :: outer, typed, (hclose .empty).trans hempty,
            by simpa using htypedTask, rfl⟩⟩

theorem name?_task?_iff (htyped : level.IsTyped) (htask : level.task? = some task) :
    task.name? = some none ↔ Key.name ∈ level.stage.keys ∧ level.has .name = false := by
  rw [← htyped.text?_name_eq_none_iff]
  rw [Level.task?] at htask
  cases hstage : level.stage <;> rw [hstage] at htask <;> cases htask <;>
    simp [Task.name?, Level.target, Stage.keys, Stage.targetKeys, Stage.common]

theorem name_not_mem_keys (h : stage.isGroup = true) : Key.name ∉ stage.keys := by
  cases stage <;> first | decide | exact absurd h (by decide)

theorem lastGiven_eq_none_iff : lastGiven key levels = none ↔
    ∀ level ∈ levels, level.has key = false := by
  induction levels with
  | nil => exact ⟨fun _ _ hlevel => absurd hlevel List.not_mem_nil, fun _ => rfl⟩
  | cons level outer ih =>
      rw [List.forall_mem_cons, ← ih, Level.has_eq, lastGiven]
      cases hlast : (level.given.filter (·.key = key)).getLast? with
      | none =>
          rw [List.getLast?_eq_none_iff.mp hlast]
          cases lastGiven key outer <;> simp
      | some last =>
          have hne : level.given.filter (·.key = key) ≠ [] := fun hnil => by simp [hnil] at hlast
          cases lastGiven key outer <;> simp [List.isEmpty_eq_false_iff.mpr hne]

/-- The values of variables that are refused. -/
theorem refused_of_check {key : Key} {value : Bytes} {refusal : UsageError}
    (hvalue : key.fromEnviron environ = some value) (hcheck : key.check value = some refusal) :
    (key = .root ∧ value = [] ∧ refusal = .invalidValue) ∨
      (key = .name ∧ value.text? = none ∧ refusal = .invalidUtf8) := by
  cases key with
  | root =>
      refine .inl ⟨rfl, ?_⟩
      simpa [Key.check, Key.isPath, eq_comm] using hcheck
  | name =>
      refine .inr ⟨rfl, ?_⟩
      cases htext : value.text? with
      | none => simpa [Key.check, Key.isPath, htext, eq_comm] using hcheck
      | some text => simp [Key.check, Key.isPath, htext, Key.checkText] at hcheck
  | _ => cases hvalue

/-- Arguments that can be read without variables: with variables they ask for the same, the root and
the name being taken from the variables if they were not typed.  Only an empty root and a name that
is no text are refused. -/
theorem parse_of_typed (environ : Environ) (h : parse .empty arguments = .ok typed) :
    (environ.get? Variable.root = some [] ∧ parse environ arguments = .error .invalidValue) ∨
      (∃ value, typed.task.name? = some none ∧ environ.get? Variable.name = some value ∧
        value.text? = none ∧ parse environ arguments = .error .invalidUtf8) ∨
      parse environ arguments = .ok (typed.filled environ) ∧
        (typed.root = none → environ.get? Variable.root ≠ some []) ∧
        (typed.task.name? = some none → ∀ value, environ.get? Variable.name = some value →
          value.text? ≠ none) := by
  obtain ⟨levels, task, htyped, htask, rfl, hread⟩ := exists_levels h
  cases levels with
  | nil => exact htyped.elim
  | cons inner outer =>
      obtain ⟨hinner, houter⟩ := htyped
      have hall : ∀ level ∈ inner :: outer, level.IsTyped :=
        List.forall_mem_cons.mpr ⟨hinner, fun level hlevel => (houter level hlevel).1⟩
      have hname := name?_task?_iff hinner (show inner.task? = some task by simpa using htask)
      rcases mapM_fill environ (inner :: outer) with
        ⟨level, hlevel, key, hkey, value, refusal, ⟨hhas, hvalue⟩, hcheck, herror⟩ | ⟨hchecked, hok⟩
      · have hparse : parse environ arguments = .error refusal := by
          rw [parse, hread, herror]
          rfl
        rcases refused_of_check hvalue hcheck with ⟨rfl, rfl, rfl⟩ | ⟨rfl, htext, rfl⟩
        · exact .inl ⟨hvalue, hparse⟩
        · -- only the innermost level has a name
          rcases List.mem_cons.mp hlevel with rfl | hlevel
          · exact .inr (.inl ⟨value, hname.mpr ⟨hkey, hhas⟩, hvalue, htext, hparse⟩)
          · exact absurd hkey (name_not_mem_keys (houter level hlevel).2)
      · refine .inr (.inr ⟨?_, ?_, ?_⟩)
        · refine parse_eq_ok_iff.mpr ⟨_, task.filled environ, (hread environ).trans hok, ?_,
            (ofLevels_filled hall (List.cons_ne_nil _ _)).symm⟩
          have htask : inner.task? = some task := by simpa using htask
          simp [Level.task?_filled hinner, htask]
        · intro hroot hempty
          have hhas : inner.has .root = false :=
            lastGiven_eq_none_iff.mp (by simpa [ofLevels] using hroot) inner List.mem_cons_self
          have hnone := hchecked inner List.mem_cons_self .root (root_mem_keys _) []
            ⟨hhas, hempty⟩
          simp [Key.check, Key.isPath] at hnone
        · intro huntyped value hvalue htext
          obtain ⟨hkey, hhas⟩ := hname.mp huntyped
          have hnone := hchecked inner List.mem_cons_self .name hkey value ⟨hhas, hvalue⟩
          simp [Key.check, Key.isPath, htext] at hnone

end Arguments
end Enclave.CommandLine
