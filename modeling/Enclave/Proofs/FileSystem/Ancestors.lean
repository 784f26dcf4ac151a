import Enclave.Proofs.Lock.Paths
import Mathlib.Data.List.Infix
import Mathlib.Data.List.Nodup

/-! # The paths above a path

The path above another one has its components but the last (`exists_components_parent?`), and only
the root and the empty path have no path above them (`components_of_parent?_none`).  So the paths at
and above a path have the fronts of its components, longest first (`components_ancestors`), and no
two of them are the same (`pairwise_ancestors`). -/

namespace Enclave

namespace Bytes

/-- No more parts than there are bytes are not empty. -/
theorem length_filter_splitOn_le (separator : UInt8) (bytes : Bytes) :
    ((splitOn separator bytes).filter (· != [])).length ≤ bytes.length := by
  induction bytes with
  | nil => exact Nat.le_refl 0
  | cons b rest ih =>
      rw [splitOn, List.length_cons]
      split
      · rw [List.filter_cons_of_neg (by decide)]
        exact Nat.le_succ_of_le ih
      · obtain ⟨part, parts, hcons⟩ := List.exists_cons_of_ne_nil (splitOn_ne_nil separator rest)
        have hmore : (parts.filter (· != [])).length ≤ rest.length := by
          refine Nat.le_trans ?_ ih
          rw [hcons]
          exact (List.Sublist.filter _ (List.sublist_cons_self part parts)).length_le
        have hkeep : ((b :: part) != []) = true := rfl
        rw [hcons]
        dsimp only
        rw [List.filter_cons, if_pos hkeep, List.length_cons]
        exact Nat.succ_le_succ hmore

/-- Beside the separator, the bytes are those of the parts. -/
theorem mem_iff_splitOn {separator b : UInt8} (hb : b ≠ separator) {bytes : Bytes} :
    b ∈ bytes ↔ ∃ part ∈ splitOn separator bytes, b ∈ part := by
  induction bytes with
  | nil => simp [splitOn]
  | cons first rest ih =>
      rw [splitOn]
      split
      · next hfirst =>
          rw [beq_iff_eq.mp hfirst, List.mem_cons, ih]
          simp [hb]
      · obtain ⟨part, parts, hcons⟩ := List.exists_cons_of_ne_nil (splitOn_ne_nil separator rest)
        rw [List.mem_cons, ih, hcons]
        simp [or_assoc]

end Bytes

namespace Path

variable {path parent : Path}

/-! ### Components -/

theorem isAbsolute_congr {a b : Path} (h : a.leadBytes = b.leadBytes) :
    a.isAbsolute = b.isAbsolute :=
  Bool.eq_iff_iff.mpr (by rw [isAbsolute_iff_leadBytes, isAbsolute_iff_leadBytes, h])

/-- The first component is told by its bytes. -/
theorem lead_congr {a b : Path} (h : a.leadBytes = b.leadBytes) : a.lead = b.lead := by
  have habsolute := isAbsolute_congr h
  rw [leadBytes, leadBytes, habsolute] at h
  rw [lead, lead, habsolute]
  revert h
  cases b.isAbsolute with
  | true => exact fun _ => rfl
  | false => cases a.startsAtCurrent <;> cases b.startsAtCurrent <;> simp [dot]

theorem component_eq_parent_or_name (part : Bytes) :
    component part = .parent ∨ component part = .name part := by
  unfold component
  split
  · exact .inl rfl
  · exact .inr rfl

theorem isAbsolute_iff_root_mem (path : Path) : path.isAbsolute ↔ .root ∈ path.components := by
  constructor
  · intro h
    rw [components_of_isAbsolute h]
    exact List.mem_cons_self
  · intro h
    unfold components lead at h
    rcases List.mem_append.mp h with hlead | hparts
    · split at hlead
      · assumption
      · split at hlead <;> simp at hlead
    · obtain ⟨part, _, hpart⟩ := List.mem_map.mp hparts
      have hcases := component_eq_parent_or_name part
      simp [hpart] at hcases

/-- The name in a component, if there is one, as it stands in a path. -/
def Component.part? : Component → Option Bytes
  | .name part => some part
  | .parent => some dotDot
  | _ => none

/-- The components tell the names. -/
theorem filterMap_part?_components (path : Path) :
    path.components.filterMap Component.part? = path.names := by
  have hlead : path.lead.filterMap Component.part? = [] := by
    rw [lead]
    split
    · rfl
    · split <;> rfl
  have hpart : ∀ part, (component part).part? = some part := by
    intro part
    rw [component]
    split
    · next hdotDot => exact congrArg some (beq_iff_eq.mp hdotDot).symm
    · rfl
  change (path.lead ++ path.names.map component).filterMap Component.part? = _
  rw [List.filterMap_append, hlead, List.nil_append, List.filterMap_map]
  simp [hpart]

theorem same_symm {a b : Path} (h : a.same b) : b.same a :=
  same_iff.mpr (same_iff.mp h).symm

theorem names_of_same {a b : Path} (h : a.same b) : a.names = b.names := by
  rw [← filterMap_part?_components, same_iff.mp h, filterMap_part?_components]

theorem isAbsolute_of_same {a b : Path} (h : a.same b) : a.isAbsolute = b.isAbsolute :=
  Bool.eq_iff_iff.mpr (by rw [isAbsolute_iff_root_mem, same_iff.mp h, isAbsolute_iff_root_mem])

/-- A joined name is the last component. -/
theorem components_join_name (path : Path) {name : Bytes} (h : IsName name) :
    (path.join ⟨name⟩).components = path.components ++ [.name name] := by
  have hname : component name = .name name := if_neg (by simpa using h.ne_dotDot)
  change lead _ ++ (names _).map component = (path.lead ++ path.names.map component) ++ _
  rw [lead_congr (leadBytes_join path h.isPart), names_join path h, List.map_append,
    List.map_singleton, hname, List.append_assoc]

/-- Children are the same exactly if their directories are. -/
theorem same_join_iff {a b : Path} {name : Bytes} (h : IsName name) :
    (a.join ⟨name⟩).same (b.join ⟨name⟩) ↔ a.same b := by
  rw [same_iff, same_iff, components_join_name a h, components_join_name b h,
    List.append_left_inj]

/-- Beside slashes and dots, a path has the bytes of its names. -/
theorem mem_bytes_iff {b : UInt8} (hslash : b ≠ slash) (hdot : b ∉ dot) :
    b ∈ path.bytes ↔ ∃ part ∈ path.names, b ∈ part := by
  rw [Bytes.mem_iff_splitOn hslash]
  constructor
  · rintro ⟨part, hpart, hb⟩
    refine ⟨part, List.mem_filter.mpr ⟨hpart, ?_⟩, hb⟩
    have hne : part ≠ [] := List.ne_nil_of_mem hb
    have hshown : part ≠ dot := fun heq => hdot (heq ▸ hb)
    simp [isTrivial, hne, hshown]
  · rintro ⟨part, hpart, hb⟩
    exact ⟨part, (List.mem_filter.mp hpart).1, hb⟩

/-- A path that starts at the root does not start at the current directory. -/
theorem isAbsolute_of_startsAtCurrent (h : path.startsAtCurrent) : path.isAbsolute = false := by
  rw [Bool.eq_false_iff]
  intro habsolute
  obtain ⟨rest, hrest⟩ := List.head?_eq_some_iff.mp (beq_iff_eq.mp habsolute)
  rw [startsAtCurrent, hrest, Bytes.splitOn, if_pos (beq_self_eq_true slash)] at h
  cases h

theorem names_of_partsBack_nil (h : path.partsBack = []) : path.names = [] := by
  rw [names_eq_partsBack, h]
  rfl

/-- The parts before the last one stand at the front. -/
theorem exists_front_of_partsBack {last : Bytes} {before : List Bytes}
    (h : path.partsBack = last :: before) :
    ∃ back, Bytes.splitOn slash (path.bytes.drop path.leadBytes.length) =
      (before.dropWhile isTrivial).reverse ++ back := by
  obtain ⟨back, hsplit, _⟩ := path.exists_splitOn_drop
  refine ⟨(before.takeWhile isTrivial).reverse ++ last :: back, ?_⟩
  rw [hsplit, h, ← List.append_assoc, ← List.reverse_append, List.takeWhile_append_dropWhile,
    List.reverse_cons, List.append_assoc, List.singleton_append]

/-- The path above has the components but the last. -/
theorem exists_components_parent? (h : path.parent? = some parent) :
    parent.isAbsolute = path.isAbsolute ∧
      ∃ last, path.components = parent.components ++ [last] := by
  rw [parent?] at h
  cases hback : path.partsBack with
  | nil =>
      rw [hback] at h
      dsimp only at h
      split at h
      · next hcurrent =>
          obtain rfl := Option.some.inj h
          have habsolute := isAbsolute_of_startsAtCurrent hcurrent
          have hcomponents : path.components = [.current] := by
            change path.lead ++ path.names.map component = _
            rw [names_of_partsBack_nil hback, lead, habsolute, hcurrent]
            rfl
          exact ⟨habsolute.symm, .current, hcomponents⟩
      · cases h
  | cons last before =>
      rw [hback] at h
      obtain rfl := Option.some.inj h
      obtain ⟨back, hfront⟩ := exists_front_of_partsBack hback
      have hend : (before.dropWhile isTrivial).reverse ≠ [[]] := by
        intro hempty
        have hhead := List.head?_dropWhile_not isTrivial before
        rw [List.reverse_inj.mp (hempty.trans List.reverse_singleton.symm)] at hhead
        cases hhead
      have hlead := leadBytes_front hfront hend
      have hlast : isTrivial last = false := isTrivial_of_partsBack hback
      have hnames : path.names = before.reverse.filter (!isTrivial ·) ++ [last] := by
        rw [names_eq_partsBack, hback, List.reverse_cons, List.filter_append]
        simp [hlast]
      have habove : names ⟨path.leadBytes ++
          Bytes.joinWith slash (before.dropWhile isTrivial).reverse⟩ =
            before.reverse.filter (!isTrivial ·) := by
        rw [names_eq_partsBack, partsBack_front hfront hend, List.reverse_reverse,
          filter_reverse_dropWhile, filter_reverse_dropWhile]
      refine ⟨isAbsolute_congr hlead, component last, ?_⟩
      change path.lead ++ path.names.map component = lead _ ++ (names _).map component ++ [_]
      rw [lead_congr hlead, habove, hnames, List.map_append, List.append_assoc]
      rfl

/-- The path above is no longer. -/
theorem length_bytes_parent?_le (h : path.parent? = some parent) :
    parent.bytes.length ≤ path.bytes.length := by
  rw [parent?] at h
  cases hback : path.partsBack with
  | nil =>
      rw [hback] at h
      dsimp only at h
      split at h
      · obtain rfl := Option.some.inj h
        exact Nat.zero_le _
      · cases h
  | cons last before =>
      rw [hback] at h
      obtain rfl := Option.some.inj h
      obtain ⟨back, hfront⟩ := exists_front_of_partsBack hback
      have hjoin := Bytes.joinWith_prefix slash (before.dropWhile isTrivial).reverse back
      rw [← hfront, Bytes.joinWith_splitOn] at hjoin
      have happend := (List.prefix_append_right_inj path.leadBytes).mpr hjoin
      rw [leadBytes_append] at happend
      exact happend.length_le

/-- Only the root and the empty path have no path above them. -/
theorem components_of_parent?_none (h : path.parent? = none) :
    path.components = if path.isAbsolute then [.root] else [] := by
  rw [parent?] at h
  cases hback : path.partsBack with
  | nil =>
      rw [hback] at h
      dsimp only at h
      split at h
      · cases h
      · next hcurrent =>
          change path.lead ++ path.names.map component = _
          rw [names_of_partsBack_nil hback, lead, if_neg hcurrent, List.map_nil, List.append_nil]
  | cons last before =>
      rw [hback] at h
      cases h

/-- A path has no more components than bytes. -/
theorem length_components_le (path : Path) : path.components.length ≤ path.bytes.length := by
  have hlead : path.lead.length ≤ path.leadBytes.length := by
    rw [lead, leadBytes]
    split
    · exact Nat.le_refl 1
    · split
      · exact Nat.le_refl 1
      · exact Nat.le_refl 0
  have hnames : path.names.length ≤ (path.bytes.drop path.leadBytes.length).length := by
    rw [names_eq_drop]
    refine Nat.le_trans ?_ (Bytes.length_filter_splitOn_le slash _)
    refine List.Sublist.length_le (List.monotone_filter_right _ fun part hpart => ?_)
    simp_all [isTrivial]
  have hbytes := congrArg List.length path.leadBytes_append
  rw [List.length_append] at hbytes
  have hcomponents : path.components.length = path.lead.length + path.names.length := by
    rw [components, List.length_append, List.length_map, names]
  omega

/-! ### All paths above -/

/-- The fronts of the components, shortest first, from the root on if the path starts there. -/
def fronts (path : Path) : List (List Component) :=
  if path.isAbsolute then path.components.inits.tail else path.components.inits

theorem fronts_of_parent?_none (h : path.parent? = none) : path.fronts = [path.components] := by
  rw [fronts, components_of_parent?_none h]
  split
  · rfl
  · rfl

theorem fronts_of_parent? (h : path.parent? = some parent) :
    path.fronts = parent.fronts ++ [path.components] := by
  obtain ⟨habsolute, last, hcomponents⟩ := exists_components_parent? h
  have hinits : path.components.inits = parent.components.inits ++ [path.components] := by
    rw [hcomponents, List.inits_append]
    rfl
  have hne : parent.components.inits ≠ [] := by cases parent.components <;> simp
  rw [fronts, fronts, hinits, habsolute]
  split
  · exact List.tail_append_of_ne_nil hne
  · rfl

theorem components_ancestorsUpTo {fuel : Nat} (h : path.components.length ≤ fuel) :
    (path.ancestorsUpTo fuel).map components = path.fronts.reverse := by
  induction fuel generalizing path with
  | zero =>
      have hnil : path.components = [] := List.length_eq_zero_iff.mp (Nat.le_zero.mp h)
      have hnone : path.parent? = none := by
        cases hparent : path.parent? with
        | none => rfl
        | some parent =>
            obtain ⟨_, last, hcomponents⟩ := exists_components_parent? hparent
            rw [hnil] at hcomponents
            exact absurd hcomponents.symm (List.append_ne_nil_of_right_ne_nil _ (by simp))
      rw [fronts_of_parent?_none hnone]
      rfl
  | succ fuel ih =>
      rw [ancestorsUpTo]
      cases hparent : path.parent? with
      | none => rw [fronts_of_parent?_none hparent]; rfl
      | some parent =>
          obtain ⟨_, last, hcomponents⟩ := exists_components_parent? hparent
          have hshorter : parent.components.length ≤ fuel := by
            rw [hcomponents, List.length_append, List.length_singleton] at h
            exact Nat.le_of_succ_le_succ h
          rw [List.map_cons, ih hshorter, fronts_of_parent? hparent, List.reverse_append]
          rfl

/-- **The paths at and above a path** have the fronts of its components, longest first. -/
theorem components_ancestors (path : Path) :
    path.ancestors.map components = path.fronts.reverse :=
  components_ancestorsUpTo path.length_components_le

theorem pairwise_inits {α : Type} (list : List α) :
    list.inits.Pairwise fun front other => front.length < other.length := by
  induction list with
  | nil => exact List.pairwise_singleton _ _
  | cons a list ih =>
      rw [List.inits_cons, List.pairwise_cons, List.pairwise_map]
      refine ⟨fun front hfront => ?_, ih.imp Nat.succ_lt_succ⟩
      obtain ⟨other, _, rfl⟩ := List.mem_map.mp hfront
      exact Nat.succ_pos _

/-- Of the paths at and above a path each has fewer components than the one before. -/
theorem pairwise_ancestors (path : Path) :
    path.ancestors.Pairwise fun nearer farther =>
      farther.components.length < nearer.components.length := by
  have hfronts : path.fronts.Pairwise fun front other => front.length < other.length := by
    rw [fronts]
    split
    · exact (pairwise_inits path.components).tail
    · exact pairwise_inits path.components
  have hmap : (path.ancestors.map components).Pairwise fun nearer farther =>
      farther.length < nearer.length := by
    rw [components_ancestors, List.pairwise_reverse]
    exact hfronts
  exact List.pairwise_map.mp hmap

/-- Of the paths at and above a path no two are the same. -/
theorem eq_of_mem_ancestors {a b : Path} (ha : a ∈ path.ancestors) (hb : b ∈ path.ancestors)
    (hsame : a.same b) : a = b := by
  have hnodup : (path.ancestors.map components).Nodup := by
    refine List.pairwise_map.mpr (path.pairwise_ancestors.imp fun hlonger heq => ?_)
    rw [heq] at hlonger
    exact Nat.lt_irrefl _ hlonger
  exact List.inj_on_of_nodup_map hnodup ha hb (same_iff.mp hsame)

end Path
end Enclave
