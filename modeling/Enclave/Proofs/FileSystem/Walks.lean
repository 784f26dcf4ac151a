import Enclave.Proofs.FileSystem.Entries

/-! # Walks

`Leads links here parts links' there` says that the parts of a path lead from one directory to
another, on directories and links only, with `links'` of `links` links left to follow.  A walk goes
along the parts that lead somewhere and then on from there (`Leads.walk`, `leads_of_walk`), so what
a path denotes is decided by the directory that its front leads to and by the entry there
(`walk_name`).  Only directories and links count on the way: a change of other entries keeps every
way (`Leads.mono`). -/

namespace Enclave

/-! ### Names -/

/-- Whether bytes can stand for an entry between the slashes of a path, however many they are. -/
structure IsPart (part : Bytes) : Prop where
  ne_nil : part ≠ []
  ne_dot : part ≠ Path.dot
  ne_dotDot : part ≠ Path.dotDot
  slash_not_mem : Path.slash ∉ part

instance (part : Bytes) : Decidable (IsPart part) :=
  decidable_of_iff (part ≠ [] ∧ part ≠ Path.dot ∧ part ≠ Path.dotDot ∧ Path.slash ∉ part)
    ⟨fun h => ⟨h.1, h.2.1, h.2.2.1, h.2.2.2⟩, fun h => ⟨h.1, h.2, h.3, h.4⟩⟩

/-- Whether a part of a path is the name of an entry, and not too long for one. -/
structure IsName (part : Bytes) : Prop where
  ne_nil : part ≠ []
  ne_dot : part ≠ Path.dot
  ne_dotDot : part ≠ Path.dotDot
  slash_not_mem : Path.slash ∉ part
  length_le : part.length ≤ FileSystem.maxNameLength

theorem IsName.isPart {part : Bytes} (h : IsName part) : IsPart part :=
  ⟨h.ne_nil, h.ne_dot, h.ne_dotDot, h.slash_not_mem⟩

namespace FileSystem

/-! ### Ways -/

/-- Parts of a path that lead from a directory to a directory. -/
inductive Leads (fs : FileSystem) : Nat → Location → List Bytes → Nat → Location → Prop
  | here {links : Nat} {dir : Location} : Leads fs links dir [] links dir
  | stay {links links' : Nat} {dir there : Location} {rest : List Bytes} :
      Leads fs links dir rest links' there → Leads fs links dir (Path.dot :: rest) links' there
  | up {links links' : Nat} {dir there : Location} {rest : List Bytes} :
      Leads fs links dir.dropLast rest links' there →
      Leads fs links dir (Path.dotDot :: rest) links' there
  | enter {links links' id : Nat} {dir there : Location} {part : Bytes} {rest : List Bytes} :
      part ≠ Path.dot → part ≠ Path.dotDot → part.length ≤ maxNameLength →
      fs.entry? (dir ++ [part]) = some (.directory id) →
      Leads fs links (dir ++ [part]) rest links' there →
      Leads fs links dir (part :: rest) links' there
  | follow {links links' : Nat} {dir there : Location} {part : Bytes} {rest : List Bytes}
      {target : Path} :
      part ≠ Path.dot → part ≠ Path.dotDot → part.length ≤ maxNameLength →
      fs.entry? (dir ++ [part]) = some (.link target) →
      Leads fs links (if target.isAbsolute then [] else dir) (stepsOf target ++ rest) links' there →
      Leads fs (links + 1) dir (part :: rest) links' there

variable {fs fs' : FileSystem} {links links' : Nat} {dir there : Location} {parts rest : List Bytes}

/-- A walk goes on only where a part is left. -/
theorem walk_nil (fs : FileSystem) (follow : Bool) (links : Nat) (here : Location) :
    fs.walk follow links here [] = .ok (here, fs.entry? here) := by
  cases links <;> rw [walk, walkWith]

/-- How a walk goes on with the next part. -/
theorem walk_cons (fs : FileSystem) (follow : Bool) (links : Nat) (here : Location) (part : Bytes)
    (rest : List Bytes) :
    fs.walk follow links here (part :: rest) =
      if part = Path.dot then fs.walk follow links here rest
      else if part = Path.dotDot then fs.walk follow links here.dropLast rest
      else if maxNameLength < part.length then .error .nameTooLong
      else match fs.entry? (here ++ [part]) with
        | none => if rest = [] then .ok (here ++ [part], none) else .error .notFound
        | some (.link target) =>
            if rest = [] ∧ follow = false then .ok (here ++ [part], some (.link target))
            else match links with
              | 0 => .error .tooManyLinks
              | links + 1 =>
                  fs.walk follow links (if target.isAbsolute then [] else here)
                    (stepsOf target ++ rest)
        | some entry =>
            if rest = [] then .ok (here ++ [part], some entry)
            else if entry.isDirectory then fs.walk follow links (here ++ [part]) rest
            else .error .notDirectory := by
  cases links <;> rfl

/-- A walk follows the way that its first parts lead. -/
theorem Leads.walk (h : Leads fs links dir parts links' there) (hrest : rest ≠ [])
    (follow : Bool) :
    fs.walk follow links dir (parts ++ rest) = fs.walk follow links' there rest := by
  induction h with
  | here => rfl
  | stay _ ih =>
      rw [List.cons_append, walk_cons, if_pos rfl]
      exact ih
  | up _ ih =>
      rw [List.cons_append, walk_cons, if_neg (by decide), if_pos rfl]
      exact ih
  | @enter _ _ _ _ _ part rest' hdot hdotDot hlength hentry _ ih =>
      have hne : rest' ++ rest ≠ [] := List.append_ne_nil_of_right_ne_nil _ hrest
      rw [List.cons_append, walk_cons, if_neg hdot, if_neg hdotDot,
        if_neg (Nat.not_lt.mpr hlength)]
      simp only [hentry, if_neg hne, Entry.isDirectory, if_true]
      exact ih
  | @follow _ _ _ _ part rest' _ hdot hdotDot hlength hentry _ ih =>
      have hne : ¬ (rest' ++ rest = [] ∧ follow = false) := fun hnil =>
        List.append_ne_nil_of_right_ne_nil _ hrest hnil.1
      rw [List.cons_append, walk_cons, if_neg hdot, if_neg hdotDot,
        if_neg (Nat.not_lt.mpr hlength)]
      simp only [hentry, if_neg hne]
      rw [← ih, List.append_assoc]

/-- The front of a walk that arrives leads somewhere. -/
theorem leads_of_walk {follow : Bool} {result : Location × Option Entry} (hrest : rest ≠ []) :
    ∀ (links : Nat) (dir : Location) (parts : List Bytes),
      fs.walk follow links dir (parts ++ rest) = .ok result →
        ∃ links' there, Leads fs links dir parts links' there
  | links, dir, [], _ => ⟨links, dir, .here⟩
  | links, dir, part :: parts, h => by
      rw [List.cons_append, walk_cons] at h
      split at h
      · next hdot =>
          obtain ⟨links', there, hway⟩ := leads_of_walk hrest links dir parts h
          exact ⟨links', there, hdot ▸ .stay hway⟩
      · split at h
        · next hdotDot =>
            obtain ⟨links', there, hway⟩ := leads_of_walk hrest links dir.dropLast parts h
            exact ⟨links', there, hdotDot ▸ .up hway⟩
        · split at h
          · simp at h
          · next hdot hdotDot hlength =>
              have hne : parts ++ rest ≠ [] := List.append_ne_nil_of_right_ne_nil _ hrest
              cases hentry : fs.entry? (dir ++ [part]) with
              | none => simp [hentry, hne] at h
              | some entry =>
                  cases entry with
                  | directory id =>
                      simp only [hentry, if_neg hne, Entry.isDirectory, if_true] at h
                      obtain ⟨links', there, hway⟩ :=
                        leads_of_walk hrest links (dir ++ [part]) parts h
                      exact ⟨links', there,
                        .enter hdot hdotDot (Nat.not_lt.mp hlength) hentry hway⟩
                  | link target =>
                      have hnot : ¬ (parts ++ rest = [] ∧ follow = false) := fun hnil => hne hnil.1
                      simp only [hentry, if_neg hnot] at h
                      cases links with
                      | zero => simp at h
                      | succ links =>
                          dsimp only at h
                          rw [← List.append_assoc] at h
                          obtain ⟨links', there, hway⟩ := leads_of_walk hrest links _ _ h
                          exact ⟨links', there,
                            .follow hdot hdotDot (Nat.not_lt.mp hlength) hentry hway⟩
                  | file id content executable =>
                      simp [hentry, hne, Entry.isDirectory] at h
                  | device device => simp [hentry, hne, Entry.isDirectory] at h
                  | program name => simp [hentry, hne, Entry.isDirectory] at h
termination_by links _ parts => (links, parts.length)

/-- A walk tells what stands where it ends. -/
theorem entry?_of_walkWith {follow : Bool}
    {jump : Location → List Bytes → Except IoError (Location × Option Entry)}
    (hjump : ∀ here parts found entry, jump here parts = .ok (found, entry) →
      fs.entry? found = entry) {found : Location} {entry : Option Entry}
    (h : fs.walkWith follow jump dir parts = .ok (found, entry)) : fs.entry? found = entry := by
  fun_induction walkWith fs follow jump dir parts with
  | case1 here =>
      rw [Except.ok.injEq, Prod.mk.injEq] at h
      exact h.1 ▸ h.2
  | case8 => exact hjump _ _ _ _ h
  | _ => simp_all

theorem entry?_of_walk {follow : Bool} {found : Location} {entry : Option Entry}
    (h : fs.walk follow links dir parts = .ok (found, entry)) : fs.entry? found = entry := by
  induction links generalizing dir parts found entry with
  | zero => exact entry?_of_walkWith (by simp) h
  | succ links ih => exact entry?_of_walkWith (fun _ _ _ _ => ih) h

/-- A way depends only on the directories and links of the file system. -/
theorem Leads.mono
    (hways : ∀ location entry, entry.isWay → fs.entry? location = some entry →
      fs'.entry? location = some entry)
    (h : Leads fs links dir parts links' there) : Leads fs' links dir parts links' there := by
  induction h with
  | here => exact .here
  | stay _ ih => exact .stay ih
  | up _ ih => exact .up ih
  | enter hdot hdotDot hlength hentry _ ih =>
      exact .enter hdot hdotDot hlength (hways _ _ rfl hentry) ih
  | follow hdot hdotDot hlength hentry _ ih =>
      exact .follow hdot hdotDot hlength (hways _ _ rfl hentry) ih

/-- A way ends in one place. -/
theorem Leads.unique (h : Leads fs links dir parts links' there) {links'' : Nat} {there' : Location}
    (h' : Leads fs links dir parts links'' there') : links' = links'' ∧ there = there' := by
  induction h with
  | here =>
      cases h'
      exact ⟨rfl, rfl⟩
  | stay _ ih =>
      cases h' with
      | stay hway => exact ih hway
      | enter hdot => exact absurd rfl hdot
      | follow hdot => exact absurd rfl hdot
  | up _ ih =>
      cases h' with
      | up hway => exact ih hway
      | enter _ hdotDot => exact absurd rfl hdotDot
      | follow _ hdotDot => exact absurd rfl hdotDot
  | enter hdot hdotDot _ hentry _ ih =>
      cases h' with
      | stay _ => exact absurd rfl hdot
      | up _ => exact absurd rfl hdotDot
      | enter _ _ _ _ hway => exact ih hway
      | follow _ _ _ hlink => simp [hentry] at hlink
  | follow hdot hdotDot _ hentry _ ih =>
      cases h' with
      | stay _ => exact absurd rfl hdot
      | up _ => exact absurd rfl hdotDot
      | enter _ _ _ hdirectory => simp [hentry] at hdirectory
      | follow _ _ _ hlink hway =>
          rw [hentry, Option.some.injEq, Entry.link.injEq] at hlink
          subst hlink
          exact ih hway

/-! ### Ways in parts -/

theorem Leads.append (h : Leads fs links dir parts links' there) {links'' : Nat}
    {farther : Location} (h' : Leads fs links' there rest links'' farther) :
    Leads fs links dir (parts ++ rest) links'' farther := by
  induction h with
  | here => exact h'
  | stay _ ih => exact .stay (ih h')
  | up _ ih => exact .up (ih h')
  | enter hdot hdotDot hlength hentry _ ih => exact .enter hdot hdotDot hlength hentry (ih h')
  | follow hdot hdotDot hlength hentry _ ih =>
      have hway := ih h'
      rw [List.append_assoc] at hway
      exact .follow hdot hdotDot hlength hentry hway

/-- A way passes where its front leads. -/
theorem Leads.split {front back : List Bytes}
    (h : Leads fs links dir (front ++ back) links' there) :
    ∃ links'' middle, Leads fs links dir front links'' middle ∧
      Leads fs links'' middle back links' there := by
  generalize hparts : front ++ back = parts at h
  induction h generalizing front with
  | here =>
      obtain ⟨rfl, rfl⟩ := List.append_eq_nil_iff.mp hparts
      exact ⟨_, _, .here, .here⟩
  | @stay _ _ _ _ rest hway ih =>
      cases front with
      | nil =>
          rw [List.nil_append] at hparts
          exact ⟨_, _, .here, hparts ▸ .stay hway⟩
      | cons part front =>
          obtain ⟨rfl, rfl⟩ := List.cons.inj hparts
          obtain ⟨_, _, hfront, hback⟩ := ih rfl
          exact ⟨_, _, .stay hfront, hback⟩
  | @up _ _ _ _ rest hway ih =>
      cases front with
      | nil =>
          rw [List.nil_append] at hparts
          exact ⟨_, _, .here, hparts ▸ .up hway⟩
      | cons part front =>
          obtain ⟨rfl, rfl⟩ := List.cons.inj hparts
          obtain ⟨_, _, hfront, hback⟩ := ih rfl
          exact ⟨_, _, .up hfront, hback⟩
  | @enter _ _ _ _ _ _ rest hdot hdotDot hlength hentry hway ih =>
      cases front with
      | nil =>
          rw [List.nil_append] at hparts
          exact ⟨_, _, .here, hparts ▸ .enter hdot hdotDot hlength hentry hway⟩
      | cons part front =>
          obtain ⟨rfl, rfl⟩ := List.cons.inj hparts
          obtain ⟨_, _, hfront, hback⟩ := ih rfl
          exact ⟨_, _, .enter hdot hdotDot hlength hentry hfront, hback⟩
  | @follow _ _ _ _ _ rest target hdot hdotDot hlength hentry hway ih =>
      cases front with
      | nil =>
          rw [List.nil_append] at hparts
          exact ⟨_, _, .here, hparts ▸ .follow hdot hdotDot hlength hentry hway⟩
      | cons part front =>
          obtain ⟨rfl, rfl⟩ := List.cons.inj hparts
          obtain ⟨_, _, hfront, hback⟩ := ih (List.append_assoc _ _ _)
          exact ⟨_, _, .follow hdot hdotDot hlength hentry hfront, hback⟩

theorem Leads.split_cons {part : Bytes} (h : Leads fs links dir (part :: rest) links' there) :
    ∃ links'' middle, Leads fs links dir [part] links'' middle ∧
      Leads fs links'' middle rest links' there :=
  Leads.split (List.singleton_append ▸ h)

/-- Single dots lead nowhere else. -/
theorem leads_filter_dot_iff :
    Leads fs links dir (parts.filter (· != Path.dot)) links' there ↔
      Leads fs links dir parts links' there := by
  induction parts generalizing links dir with
  | nil => rfl
  | cons part parts ih =>
      by_cases hdot : part = Path.dot
      · subst hdot
        rw [List.filter_cons_of_neg (by simp), ih]
        refine ⟨.stay, fun h => ?_⟩
        obtain ⟨_, _, hfirst, hrest⟩ := h.split_cons
        obtain ⟨rfl, rfl⟩ := hfirst.unique (.stay .here)
        exact hrest
      · rw [List.filter_cons_of_pos (by simpa using hdot)]
        constructor
        · intro h
          obtain ⟨_, _, hfirst, hrest⟩ := h.split_cons
          exact hfirst.append (ih.mp hrest)
        · intro h
          obtain ⟨_, _, hfirst, hrest⟩ := h.split_cons
          exact hfirst.append (ih.mpr hrest)

/-- In a tree a way ends in a directory. -/
theorem Leads.hasDirectory (htree : fs.IsTree) (h : Leads fs links dir parts links' there)
    (hdir : fs.HasDirectory dir) : fs.HasDirectory there := by
  induction h with
  | here => exact hdir
  | stay _ ih => exact ih hdir
  | @up _ _ dir _ _ _ ih =>
      apply ih
      by_cases hne : dir = []
      · subst hne
        exact hdir
      · obtain ⟨id, hid⟩ := hdir
        exact htree dir hne (by rw [hid]; rfl)
  | enter _ _ _ hentry _ ih => exact ih ⟨_, hentry⟩
  | follow _ _ _ _ _ ih =>
      apply ih
      split
      · exact hasDirectory_nil
      · exact hdir

/-! ### The last name -/

/-- Without following links at its end, a walk finds what stands under its last name. -/
theorem walk_name {name : Bytes} (h : IsName name) (links : Nat) (dir : Location) :
    fs.walk false links dir [name] = .ok (dir ++ [name], fs.entry? (dir ++ [name])) := by
  rw [walk_cons, if_neg h.ne_dot, if_neg h.ne_dotDot, if_neg (Nat.not_lt.mpr h.length_le)]
  cases hentry : fs.entry? (dir ++ [name]) with
  | none => simp
  | some entry => cases entry <;> simp

/-- Where no link stands under its last name, it does not matter whether links are followed. -/
theorem walk_name_of_not_link {name : Bytes} (h : IsName name) (links : Nat) {dir : Location}
    (hentry : ∀ target, fs.entry? (dir ++ [name]) ≠ some (.link target)) (follow : Bool) :
    fs.walk follow links dir [name] = .ok (dir ++ [name], fs.entry? (dir ++ [name])) := by
  rw [walk_cons, if_neg h.ne_dot, if_neg h.ne_dotDot, if_neg (Nat.not_lt.mpr h.length_le)]
  cases hfound : fs.entry? (dir ++ [name]) with
  | none => simp
  | some entry =>
      cases entry with
      | link target => exact absurd hfound (hentry target)
      | _ => simp

end FileSystem
end Enclave
