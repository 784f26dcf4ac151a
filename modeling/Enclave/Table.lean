/-! # Tables

A table assigns values to finitely many keys.  `get?` is the view of a table: setting or removing
one key changes the value of that key and of no other (`get?_set`, `get?_unset`). -/

namespace Enclave

/-- Keys with their values.  Of several entries with one key the first counts. -/
structure Table (α : Type) where
  entries : List (String × α)
deriving Repr, Inhabited, DecidableEq

namespace Table

variable {α : Type}

/-- No keys. -/
def empty : Table α := ⟨[]⟩

/-- The value of a key. -/
def get? (table : Table α) (key : String) : Option α :=
  table.entries.lookup key

/-- The table without a key. -/
def unset (table : Table α) (key : String) : Table α :=
  ⟨table.entries.filter fun entry => entry.1 != key⟩

/-- The table with a value for a key. -/
def set (table : Table α) (key : String) (value : α) : Table α :=
  match table.get? key with
  | none => ⟨table.entries ++ [(key, value)]⟩
  | some _ => ⟨table.entries.map fun entry => if entry.1 == key then (key, value) else entry⟩

/-- The table with a value for a key, or without the key. -/
def put (table : Table α) (key : String) : Option α → Table α
  | some value => table.set key value
  | none => table.unset key

/-- The table that a list of entries describes; a later one wins. -/
def ofList (entries : List (String × α)) : Table α :=
  entries.foldl (fun table entry => table.set entry.1 entry.2) empty

/-- The entries in the order of their keys. -/
def sorted (table : Table α) : List (String × α) :=
  table.entries.mergeSort fun a b => a.1 ≤ b.1

/-- Whether two tables assign the same values. -/
def Same (a b : Table α) : Prop :=
  ∀ key, a.get? key = b.get? key

/-! ### Laws -/

@[simp] theorem get?_empty (key : String) : (empty : Table α).get? key = none := rfl

private theorem lookup_append_single (entries : List (String × α)) (key other : String)
    (value : α) :
    (entries ++ [(key, value)]).lookup other =
      match entries.lookup other with
      | some v => some v
      | none => if other == key then some value else none := by
  induction entries with
  | nil => simp only [List.nil_append, List.lookup_cons, List.lookup_nil]; split <;> simp_all
  | cons e entries ih =>
      obtain ⟨k, v⟩ := e
      simp only [List.cons_append, List.lookup_cons]
      split
      · rfl
      · exact ih

private theorem lookup_map_replace (entries : List (String × α)) (key other : String)
    (value : α) :
    (entries.map fun entry => if entry.1 == key then (key, value) else entry).lookup other =
      if other == key then (entries.lookup other).map fun _ => value else entries.lookup other := by
  induction entries with
  | nil => simp
  | cons e entries ih =>
      obtain ⟨k, v⟩ := e
      simp only [List.map_cons, List.lookup_cons]
      by_cases hk : k = key
      · subst hk
        by_cases ho : other = k
        · subst ho; simp
        · have : (other == k) = false := by simpa using ho
          simp only [beq_self_eq_true, ite_true, this, Bool.false_eq_true, ite_false] at ih ⊢
          simpa [List.lookup_cons, this] using ih
      · have hkb : (k == key) = false := by simpa using hk
        simp only [hkb, Bool.false_eq_true, ite_false]
        by_cases ho : other = k
        · subst ho; simp [hk]
        · have hob : (other == k) = false := by simpa using ho
          simpa [List.lookup_cons, hob] using ih

/-- Setting a key gives it the value and leaves every other key alone. -/
theorem get?_set (table : Table α) (key other : String) (value : α) :
    (table.set key value).get? other = if other == key then some value else table.get? other := by
  unfold set
  split
  · next h =>
      simp only [get?] at h ⊢
      rw [lookup_append_single]
      by_cases ho : other = key
      · subst ho; simp [h]
      · have hob : (other == key) = false := by simpa using ho
        simp only [hob, Bool.false_eq_true, ite_false]
        cases table.entries.lookup other <;> rfl
  · next v h =>
      simp only [get?] at h ⊢
      rw [lookup_map_replace]
      by_cases ho : other = key
      · subst ho; simp [h]
      · simp [ho]

/-- Removing a key leaves every other key alone. -/
theorem get?_unset (table : Table α) (key other : String) :
    (table.unset key).get? other = if other == key then none else table.get? other := by
  simp only [get?, unset]
  induction table.entries with
  | nil => simp
  | cons e entries ih =>
      obtain ⟨k, v⟩ := e
      by_cases hk : k = key
      · subst hk
        by_cases ho : other = k
        · subst ho; simpa using ih
        · have hob : (other == k) = false := by simpa using ho
          simp only [hob, Bool.false_eq_true, ite_false] at ih ⊢
          simpa [List.lookup_cons, hob] using ih
      · have hkb : (k != key) = true := by simpa using hk
        simp only [List.filter_cons, hkb, ite_true, List.lookup_cons]
        by_cases ho : other = k
        · subst ho
          simp [hk]
        · have hob : (other == k) = false := by simpa using ho
          simp only [hob]
          exact ih

/-- Putting a value or nothing at a key leaves every other key alone. -/
theorem get?_put (table : Table α) (key other : String) (value : Option α) :
    (table.put key value).get? other = if other == key then value else table.get? other := by
  cases value with
  | none => exact get?_unset table key other
  | some value => exact get?_set table key other value

end Table
end Enclave
