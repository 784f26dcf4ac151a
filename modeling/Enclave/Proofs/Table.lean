import Enclave.Proofs.Text
import Enclave.Table
import Mathlib.Data.List.Nodup

/-! # Tables from lists of entries

Of the entries from which a table is made the last one with a key counts (`get?_ofList`), and so
does the last of several assignments to it (`get?_putAll`).  Every operation gives each key at most
one entry (`Distinct`), and then the order of the entries does not matter (`lookup_perm`): the table
is what its entries in the order of their keys describe (`Distinct.same_ofList_sorted`). -/

namespace Enclave.Table

variable {α : Type} {table : Table α} {key : String}

/-! ### Several entries -/

private theorem get?_foldl_set (entries : List (String × α)) (table : Table α) (key : String) :
    (entries.foldl (fun table entry => table.set entry.1 entry.2) table).get? key =
      (entries.reverse.lookup key).or (table.get? key) := by
  induction entries generalizing table with
  | nil => rfl
  | cons entry entries ih =>
      rw [List.foldl_cons, ih, get?_set, List.reverse_cons, List.lookup_append, Option.or_assoc,
        List.lookup_cons]
      by_cases heq : key = entry.1
      · simp [heq]
      · have hbeq : (key == entry.1) = false := by simpa using heq
        simp [hbeq]

/-- Of several entries with one key the last counts. -/
theorem get?_ofList (entries : List (String × α)) (key : String) :
    (ofList entries).get? key = entries.reverse.lookup key := by
  rw [ofList, get?_foldl_set, get?_empty, Option.or_none]

/-- The last entry with a key counts. -/
theorem get?_ofList_append_cons {front back : List (String × α)} {value : α}
    (h : ∀ other, (key, other) ∉ back) :
    (ofList (front ++ (key, value) :: back)).get? key = some value := by
  have hnone : back.reverse.lookup key = none := by
    rw [List.lookup_eq_none_iff]
    intro entry hentry
    have hne : key ≠ entry.1 := by
      rintro rfl
      exact h entry.2 (List.mem_reverse.mp hentry)
    simpa using hne
  rw [get?_ofList, List.reverse_append, List.reverse_cons, List.append_assoc, List.lookup_append,
    hnone, Option.none_or, List.singleton_append, List.lookup_cons, beq_self_eq_true]

/-- What a table has is among the entries that it is made of. -/
theorem mem_of_get?_ofList {entries : List (String × α)} {value : α}
    (h : (ofList entries).get? key = some value) : (key, value) ∈ entries := by
  rw [get?_ofList] at h
  obtain ⟨front, back, heq, _⟩ := List.lookup_eq_some_iff.mp h
  refine List.mem_reverse.mp ?_
  rw [heq]
  exact List.mem_append_right _ List.mem_cons_self

/-- The table after assignments in order; `none` removes a key. -/
def putAll (table : Table α) (assignments : List (String × Option α)) : Table α :=
  assignments.foldl (fun table assignment => table.put assignment.1 assignment.2) table

/-- Of several assignments to one key the last counts. -/
theorem get?_putAll (assignments : List (String × Option α)) (table : Table α) (key : String) :
    (table.putAll assignments).get? key =
      (assignments.reverse.lookup key).getD (table.get? key) := by
  induction assignments generalizing table with
  | nil => rfl
  | cons assignment assignments ih =>
      have hnext := ih (table.put assignment.1 assignment.2)
      rw [putAll] at hnext ⊢
      rw [List.foldl_cons, hnext, get?_put, List.reverse_cons, List.lookup_append, List.lookup_cons]
      cases assignments.reverse.lookup key with
      | some value => rfl
      | none =>
          by_cases heq : key = assignment.1
          · simp [heq]
          · have hbeq : (key == assignment.1) = false := by simpa using heq
            simp [hbeq]

/-- Setting a key adds no other entry. -/
theorem mem_entries_set {value : α} {entry : String × α}
    (h : entry ∈ (table.set key value).entries) : entry = (key, value) ∨ entry ∈ table.entries := by
  rw [Table.set] at h
  split at h
  · simpa [or_comm] using h
  · obtain ⟨old, hold, rfl⟩ := List.mem_map.mp h
    split
    · exact .inl rfl
    · exact .inr hold

theorem value_of_mem_set {value : α} {entry : String × α}
    (h : entry ∈ (table.set key value).entries) (hkey : entry.1 = key) : entry.2 = value := by
  rw [Table.set] at h
  split at h
  · next hnone =>
      rcases List.mem_append.mp h with hold | hnew
      · rw [get?, List.lookup_eq_none_iff] at hnone
        exact absurd hkey.symm (by simpa using hnone entry hold)
      · rw [List.mem_singleton.mp hnew]
  · obtain ⟨old, _, rfl⟩ := List.mem_map.mp h
    split at hkey
    · next heq => rw [if_pos heq]
    · next hne => exact absurd (beq_iff_eq.mpr hkey) hne

/-- Setting a key to the value that it has everywhere changes nothing. -/
theorem set_eq_self {value : α} (hsome : (table.get? key).isSome)
    (h : ∀ entry ∈ table.entries, entry.1 = key → entry.2 = value) : table.set key value = table := by
  obtain ⟨old, hold⟩ := Option.isSome_iff_exists.mp hsome
  rw [Table.set, hold]
  refine congrArg Table.mk ((List.map_congr_left fun entry hentry => ?_).trans (List.map_id _))
  split
  · next heq =>
      have hkey := beq_iff_eq.mp heq
      exact Prod.ext hkey.symm (h entry hentry hkey).symm
  · rfl

/-! ### One entry for each key -/

/-- Whether no key occurs twice. -/
def Distinct (table : Table α) : Prop :=
  (table.entries.map Prod.fst).Nodup

instance : Decidable table.Distinct :=
  inferInstanceAs (Decidable (table.entries.map Prod.fst).Nodup)

theorem distinct_empty : (empty : Table α).Distinct := List.nodup_nil

theorem get?_eq_none_iff : table.get? key = none ↔ key ∉ table.entries.map Prod.fst := by
  rw [get?, List.lookup_eq_none_iff]
  simp only [List.mem_map, not_exists, not_and, bne_iff_ne, ne_eq]
  exact forall₂_congr fun entry _ => ne_comm

theorem Distinct.set (h : table.Distinct) (key : String) (value : α) :
    (table.set key value).Distinct := by
  rw [Distinct, Table.set]
  cases hget : table.get? key with
  | none =>
      have hnew := get?_eq_none_iff.mp hget
      simp only [List.map_append, List.map_cons, List.map_nil]
      exact h.append (List.nodup_singleton key) (by simpa using hnew)
  | some old =>
      have hkeys : (table.entries.map fun entry =>
          if entry.1 == key then (key, value) else entry).map Prod.fst =
            table.entries.map Prod.fst := by
        rw [List.map_map]
        refine List.map_congr_left fun entry _ => ?_
        simp only [Function.comp_apply, beq_iff_eq]
        split
        · next heq => exact heq.symm
        · rfl
      change (List.map Prod.fst _).Nodup
      rw [hkeys]
      exact h

theorem Distinct.unset (h : table.Distinct) (key : String) : (table.unset key).Distinct :=
  List.Nodup.sublist (List.filter_sublist.map Prod.fst) h

theorem Distinct.put (h : table.Distinct) (key : String) : ∀ value : Option α,
    (table.put key value).Distinct
  | some value => h.set key value
  | none => h.unset key

theorem distinct_ofList (entries : List (String × α)) : (ofList entries).Distinct := by
  have hfold : ∀ (entries : List (String × α)) (table : Table α), table.Distinct →
      (entries.foldl (fun table entry => table.set entry.1 entry.2) table).Distinct := by
    intro entries
    induction entries with
    | nil => exact fun _ h => h
    | cons entry entries ih => exact fun table h => ih _ (h.set entry.1 entry.2)
  exact hfold entries empty distinct_empty

theorem lookup_eq_some_iff_mem {entries : List (String × α)} (h : (entries.map Prod.fst).Nodup)
    {value : α} : entries.lookup key = some value ↔ (key, value) ∈ entries := by
  induction entries with
  | nil => simp
  | cons entry entries ih =>
      obtain ⟨first, held⟩ := entry
      rw [List.map_cons, List.nodup_cons] at h
      rw [List.lookup_cons, List.mem_cons, Prod.mk.injEq]
      by_cases heq : key = first
      · subst heq
        have hnot : (key, value) ∉ entries := fun hmem =>
          h.1 (List.mem_map.mpr ⟨(key, value), hmem, rfl⟩)
        simp [hnot, eq_comm]
      · have hbeq : (key == first) = false := by simpa using heq
        simp only [hbeq, heq, false_and, false_or]
        exact ih h.2

theorem lookup_map_value {β : Type} (f : α → β) (entries : List (String × α)) (key : String) :
    (entries.map fun entry => (entry.1, f entry.2)).lookup key = (entries.lookup key).map f := by
  induction entries with
  | nil => rfl
  | cons entry entries ih =>
      rw [List.map_cons, List.lookup_cons, List.lookup_cons, ih]
      cases key == entry.1 <;> rfl

/-- Where no key occurs twice, the order of the entries does not matter. -/
theorem lookup_perm {entries entries' : List (String × α)} (hperm : entries.Perm entries')
    (h : (entries.map Prod.fst).Nodup) (key : String) :
    entries.lookup key = entries'.lookup key := by
  refine Option.ext fun value => ?_
  rw [lookup_eq_some_iff_mem h, lookup_eq_some_iff_mem ((hperm.map Prod.fst).nodup_iff.mp h),
    hperm.mem_iff]

theorem lookup_reverse {entries : List (String × α)} (h : (entries.map Prod.fst).Nodup)
    (key : String) : entries.reverse.lookup key = entries.lookup key :=
  (lookup_perm (List.reverse_perm _).symm h key).symm

theorem sorted_perm (table : Table α) : table.sorted.Perm table.entries :=
  List.mergeSort_perm _ _

theorem Distinct.nodup_sorted (h : table.Distinct) : (table.sorted.map Prod.fst).Nodup :=
  (table.sorted_perm.map Prod.fst).nodup_iff.mpr h

theorem Distinct.lookup_sorted (h : table.Distinct) (key : String) :
    table.sorted.lookup key = table.get? key :=
  lookup_perm table.sorted_perm h.nodup_sorted key

/-- Sorted, every key is before the next. -/
theorem Distinct.pairwise_sorted (h : table.Distinct) :
    table.sorted.Pairwise fun a b => a.1 < b.1 := by
  have hordered : table.sorted.Pairwise fun a b => a.1 ≤ b.1 :=
    Text.pairwise_mergeSort_by Prod.fst table.entries
  refine (hordered.and (List.pairwise_map.mp h.nodup_sorted)).imp fun {a b} hab => ?_
  exact String.not_le.mp fun hle => hab.2 (String.le_antisymm hab.1 hle)

/-- A table is what its sorted entries describe. -/
theorem Distinct.same_ofList_sorted (h : table.Distinct) : (ofList table.sorted).Same table := by
  intro key
  rw [get?_ofList, lookup_reverse h.nodup_sorted, h.lookup_sorted]

/-- Assigning the entries of a table makes it count before another one. -/
theorem get?_putAll_entries {changes : Table (Option α)} (h : changes.Distinct) (table : Table α)
    (key : String) :
    (table.putAll changes.entries).get? key = (changes.get? key).getD (table.get? key) := by
  rw [get?_putAll, lookup_reverse h]
  rfl

end Enclave.Table
