import Mathlib.Data.List.Nodup
import Mathlib.Data.List.Basic

/-! # Tables with a primary key

A table is the list of its rows in insertion order. The three ways of writing a row that meets an
existing key are those of SQL: keep the old row, put the new one in its place, or change the old
one. Each has one lemma for lookups and keeps the key unique.
-/

namespace Table

variable {ρ κ : Type*} [DecidableEq κ] {key : ρ → κ}

/-- The first row with the key. -/
def lookup (key : ρ → κ) (k : κ) (rows : List ρ) : Option ρ := rows.find? fun row => key row = k

/-- `INSERT OR IGNORE`. -/
def insertOrIgnore (key : ρ → κ) (row : ρ) (rows : List ρ) : List ρ :=
  if key row ∈ rows.map key then rows else rows ++ [row]

/-- `INSERT OR REPLACE`. -/
def insertOrReplace (key : ρ → κ) (row : ρ) (rows : List ρ) : List ρ :=
  rows.filter (fun old => key old ≠ key row) ++ [row]

/-- `INSERT ... ON CONFLICT DO UPDATE`. -/
def upsert (key : ρ → κ) (row : ρ) (change : ρ → ρ) (rows : List ρ) : List ρ :=
  if key row ∈ rows.map key then rows.map fun old => if key old = key row then change old else old
  else rows ++ [row]

/-- `UPDATE ... WHERE key = k`. -/
def update (key : ρ → κ) (k : κ) (change : ρ → ρ) (rows : List ρ) : List ρ :=
  rows.map fun old => if key old = k then change old else old

theorem lookup_eq_none_iff {k : κ} {rows : List ρ} : lookup key k rows = none ↔ k ∉ rows.map key := by
  simp [lookup, List.find?_eq_none]

theorem mem_of_lookup {k : κ} {rows : List ρ} {row : ρ} (found : lookup key k rows = some row) :
    row ∈ rows ∧ key row = k :=
  ⟨List.mem_of_find?_eq_some found, by simpa using List.find?_some found⟩

theorem lookup_isSome_iff {k : κ} {rows : List ρ} :
    (lookup key k rows).isSome ↔ k ∈ rows.map key := by
  rw [← not_iff_not, Bool.not_eq_true, Option.isSome_eq_false_iff, Option.isNone_iff_eq_none,
    lookup_eq_none_iff]

/-- With unique keys, looking a row's key up finds the row. -/
theorem lookup_of_mem {rows : List ρ} (unique : (rows.map key).Nodup) {row : ρ} (member : row ∈ rows) :
    lookup key (key row) rows = some row := by
  obtain ⟨found, same⟩ := Option.isSome_iff_exists.mp
    (lookup_isSome_iff.2 (List.mem_map_of_mem (f := key) member))
  obtain ⟨inside, atKey⟩ := mem_of_lookup same
  rw [same, List.inj_on_of_nodup_map unique inside member atKey]

@[simp] theorem lookup_append {k : κ} {left right : List ρ} :
    lookup key k (left ++ right) = (lookup key k left).or (lookup key k right) := by
  simp [lookup, List.find?_append]

@[simp] theorem lookup_nil {k : κ} : lookup key k [] = none := rfl

theorem lookup_singleton {k : κ} {row : ρ} :
    lookup key k [row] = if key row = k then some row else none := by
  by_cases same : key row = k <;> simp [lookup, same]

/-- An ignored insertion changes no lookup; an effective one adds its own. -/
theorem lookup_insertOrIgnore {k : κ} {row : ρ} {rows : List ρ} :
    lookup key k (insertOrIgnore key row rows) =
      (lookup key k rows).or (if key row = k then some row else none) := by
  unfold insertOrIgnore
  split
  · next present =>
    by_cases same : key row = k
    · obtain ⟨old, found⟩ := Option.isSome_iff_exists.mp (lookup_isSome_iff.2 (same ▸ present))
      simp [found]
    · simp [same]
  · rw [lookup_append, lookup_singleton]

theorem insertOrIgnore_of_mem {row : ρ} {rows : List ρ} (present : key row ∈ rows.map key) :
    insertOrIgnore key row rows = rows := if_pos present

theorem insertOrIgnore_of_notMem {row : ρ} {rows : List ρ} (absent : key row ∉ rows.map key) :
    insertOrIgnore key row rows = rows ++ [row] := if_neg absent

theorem length_le_insertOrIgnore {row : ρ} {rows : List ρ} :
    rows.length ≤ (insertOrIgnore key row rows).length := by
  unfold insertOrIgnore
  split
  · exact Nat.le_refl _
  · rw [List.length_append]
    omega

theorem mem_insertOrIgnore {row other : ρ} {rows : List ρ}
    (member : other ∈ insertOrIgnore key row rows) : other ∈ rows ∨ other = row := by
  unfold insertOrIgnore at member
  split at member
  · exact .inl member
  · simpa using member

theorem mem_keys_insertOrIgnore {row : ρ} {rows : List ρ} {k : κ} :
    k ∈ (insertOrIgnore key row rows).map key ↔ k ∈ rows.map key ∨ k = key row := by
  unfold insertOrIgnore
  split
  · next present => exact ⟨.inl, fun either => either.elim id fun same => same ▸ present⟩
  · simp only [List.map_append, List.map_cons, List.map_nil, List.mem_append, List.mem_singleton]

theorem nodup_insertOrIgnore {row : ρ} {rows : List ρ} (unique : (rows.map key).Nodup) :
    ((insertOrIgnore key row rows).map key).Nodup := by
  unfold insertOrIgnore
  split
  · exact unique
  · next absent =>
    rw [List.map_append, List.map_cons, List.map_nil]
    exact List.nodup_append.mpr ⟨unique, List.nodup_singleton _, fun a inside b only same =>
      absent (same.trans (List.mem_singleton.mp only) ▸ inside)⟩

theorem mem_insertOrReplace_self {row : ρ} {rows : List ρ} : row ∈ insertOrReplace key row rows :=
  List.mem_append_right _ (List.mem_singleton_self row)

/-- Without the rows of a key, only that key is not found any more. -/
theorem lookup_filter_ne {k k' : κ} {rows : List ρ} :
    lookup key k (rows.filter fun row => key row ≠ k') = if k = k' then none else lookup key k rows := by
  by_cases same : k = k'
  · rw [if_pos same, lookup_eq_none_iff, same]
    simp
  · rw [if_neg same]
    induction rows with
    | nil => rfl
    | cons row rows ih =>
      by_cases mine : key row = k'
      · have other : ¬ key row = k := fun here => same (here.symm.trans mine)
        rw [List.filter_cons_of_neg (by simpa using mine), ih, lookup, lookup, List.find?_cons_of_neg (by simpa using other)]
      · rw [List.filter_cons_of_pos (by simpa using mine)]
        simp only [lookup, List.find?_cons] at ih ⊢
        rw [ih]

theorem lookup_insertOrReplace {k : κ} {row : ρ} {rows : List ρ} :
    lookup key k (insertOrReplace key row rows) = if k = key row then some row else lookup key k rows := by
  rw [insertOrReplace, lookup_append, lookup_filter_ne, lookup_singleton]
  by_cases same : k = key row
  · simp [same]
  · have other : ¬ key row = k := fun back => same back.symm
    simp [same, other]

theorem nodup_insertOrReplace {row : ρ} {rows : List ρ} (unique : (rows.map key).Nodup) :
    ((insertOrReplace key row rows).map key).Nodup := by
  rw [insertOrReplace, List.map_append, List.map_cons, List.map_nil]
  refine List.nodup_append.mpr ⟨unique.sublist (List.filter_sublist.map key), List.nodup_singleton _, ?_⟩
  rintro _ inside b only rfl
  obtain ⟨old, member, same⟩ := List.mem_map.mp inside
  rw [List.mem_singleton.mp only] at same
  exact absurd same (by simpa using List.of_mem_filter member)

/-- After an upsert a row is an old one, the new one or the changed old row of its key. -/
theorem mem_upsert {row other : ρ} {change : ρ → ρ} {rows : List ρ}
    (member : other ∈ upsert key row change rows) :
    other ∈ rows ∨ other = row ∨ ∃ old ∈ rows, other = change old := by
  unfold upsert at member
  split at member
  · obtain ⟨old, inside, same⟩ := List.mem_map.mp member
    split at same
    · exact .inr (.inr ⟨old, inside, same.symm⟩)
    · exact .inl (same ▸ inside)
  · rcases List.mem_append.mp member with inside | only
    · exact .inl inside
    · exact .inr (.inl (List.mem_singleton.mp only))

section Logged

variable {rows entries : List ρ} {row : ρ}

/-- The table holds, under unique keys, some of the entries, and a row for the key of each. -/
structure Logged (key : ρ → κ) (entries rows : List ρ) : Prop where
  unique : (rows.map key).Nodup
  written : ∀ row ∈ rows, row ∈ entries
  keyed : ∀ entry ∈ entries, key entry ∈ rows.map key

omit [DecidableEq κ] in
theorem Logged.nil : Logged key [] [] := ⟨List.nodup_nil, fun _ => id, fun _ inside => absurd inside List.not_mem_nil⟩

theorem Logged.insertOrIgnore (logged : Logged key entries rows) (row : ρ) :
    Logged key (entries ++ [row]) (insertOrIgnore key row rows) where
  unique := nodup_insertOrIgnore logged.unique
  written other inside := by
    rcases mem_insertOrIgnore inside with old | rfl
    · exact List.mem_append_left _ (logged.written other old)
    · exact List.mem_append_right _ (List.mem_singleton_self _)
  keyed entry inside := by
    rw [mem_keys_insertOrIgnore]
    rcases List.mem_append.mp inside with old | new
    · exact .inl (logged.keyed entry old)
    · exact .inr (congrArg key (List.mem_singleton.mp new))

theorem Logged.insertOrReplace (logged : Logged key entries rows) (row : ρ) :
    Logged key (entries ++ [row]) (insertOrReplace key row rows) where
  unique := nodup_insertOrReplace logged.unique
  written other inside := by
    rcases List.mem_append.mp inside with old | new
    · exact List.mem_append_left _ (logged.written other (List.mem_filter.mp old).1)
    · exact List.mem_append_right _ new
  keyed entry inside := by
    rw [← lookup_isSome_iff, lookup_insertOrReplace]
    split
    · rfl
    · next other =>
      rcases List.mem_append.mp inside with old | new
      · exact lookup_isSome_iff.2 (logged.keyed entry old)
      · exact absurd (congrArg key (List.mem_singleton.mp new)) other

/-- Replacing the rows of a list one after the other -/
theorem Logged.foldl_insertOrReplace (logged : Logged key entries rows) (items : List ρ) :
    Logged key (entries ++ items) (items.foldl (fun rows row => Table.insertOrReplace key row rows) rows) := by
  induction items generalizing entries rows with
  | nil => rwa [List.append_nil]
  | cons item rest ih =>
    have later := ih (logged.insertOrReplace item)
    rwa [List.append_assoc] at later

omit [DecidableEq κ] in
/-- With unique keys, one row cannot stand for entries of different values. -/
theorem agree_of_complete {ν : Type*} (unique : (rows.map key).Nodup) (entries : List ρ) (value : ρ → ν)
    (complete : ∀ entry ∈ entries, ∃ row ∈ rows, key row = key entry ∧ value row = value entry) :
    ∀ a ∈ entries, ∀ b ∈ entries, key a = key b → value a = value b := by
  intro a here b there same
  obtain ⟨row, inside, keyA, valueA⟩ := complete a here
  obtain ⟨other, inside', keyB, valueB⟩ := complete b there
  have one : row = other := List.inj_on_of_nodup_map unique inside inside' (keyA.trans (same.trans keyB.symm))
  rw [← valueA, one, valueB]

omit [DecidableEq κ] in
/-- When entries with the same key have the same value, each has a row with both. -/
theorem Logged.complete {ν : Type*} (logged : Logged key entries rows) (value : ρ → ν)
    (agree : ∀ a ∈ entries, ∀ b ∈ entries, key a = key b → value a = value b) :
    ∀ entry ∈ entries, ∃ row ∈ rows, key row = key entry ∧ value row = value entry := by
  intro entry inside
  obtain ⟨row, member, same⟩ := List.mem_map.mp (logged.keyed entry inside)
  exact ⟨row, member, same, agree row (logged.written row member) entry inside same⟩

end Logged

section Change

variable {change : ρ → ρ} (steady : ∀ row, key (change row) = key row)
include steady

/-- A change that leaves keys alone shows in lookups of its key only. -/
theorem lookup_update {k k' : κ} {rows : List ρ} :
    lookup key k (update key k' change rows) =
      if k = k' then (lookup key k rows).map change else lookup key k rows := by
  induction rows with
  | nil => simp [update, lookup]
  | cons row rows ih =>
    simp only [update, lookup, List.map_cons, List.find?_cons] at ih ⊢
    by_cases mine : key row = k'
    · by_cases same : k = k'
      · simp [mine, same, steady]
      · have other : k' ≠ k := fun back => same back.symm
        simp only [mine, steady, if_true, other, decide_false, same, if_false]
        simpa [same] using ih
    · by_cases same : key row = k
      · have other : k ≠ k' := fun back => mine (same.trans back)
        simp [same, other]
      · simp only [mine, if_false, same, decide_false]
        exact ih

theorem keys_update {k : κ} {rows : List ρ} :
    (update key k change rows).map key = rows.map key := by
  rw [update, List.map_map]
  refine List.map_congr_left fun row _ => ?_
  by_cases mine : key row = k <;> simp [mine, steady]

/-- After an upsert its key holds the changed old row or the new row; other keys are untouched. -/
theorem lookup_upsert {k : κ} {row : ρ} {rows : List ρ} :
    lookup key k (upsert key row change rows) =
      if k = key row then some ((lookup key k rows).elim row change) else lookup key k rows := by
  unfold upsert
  split
  · next present =>
    have changed : lookup key k (update key (key row) change rows) = _ := lookup_update steady
    rw [update] at changed
    rw [changed]
    by_cases same : k = key row
    · obtain ⟨old, found⟩ := Option.isSome_iff_exists.mp (lookup_isSome_iff.2 (same ▸ present))
      simp [same ▸ found, same]
    · simp [same]
  · next absent =>
    rw [lookup_append, lookup_singleton]
    by_cases same : k = key row
    · simp [same, lookup_eq_none_iff.2 absent]
    · have other : ¬ key row = k := fun back => same back.symm
      simp [same, other]

theorem nodup_upsert {row : ρ} {rows : List ρ} (unique : (rows.map key).Nodup) :
    ((upsert key row change rows).map key).Nodup := by
  unfold upsert
  split
  · have keys : (update key (key row) change rows).map key = rows.map key := keys_update steady
    rw [update] at keys
    rwa [keys]
  · next absent =>
    rw [List.map_append, List.map_cons, List.map_nil]
    exact List.nodup_append.mpr ⟨unique, List.nodup_singleton _, fun a inside b only same =>
      absent (same.trans (List.mem_singleton.mp only) ▸ inside)⟩

end Change

end Table
