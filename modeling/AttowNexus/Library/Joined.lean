import Mathlib.Data.List.Basic

/-! # Joined lists and their separators

Lists joined with a separator are told apart by the pieces between all separators, those inside of the lists included. From
the pieces the lists are regained when it is known how many separators each of them had.
-/

namespace Joined

variable {α : Type*} [DecidableEq α] {sep : α} {parts others : List (List α)}

/-- The pieces of lists, each cut at the separator -/
def pieces (sep : α) (parts : List (List α)) : List (List α) := parts.flatMap fun part => part.splitOn sep

/-- How many separators there are in each list -/
def separators (sep : α) (parts : List (List α)) : List ℕ := parts.map (List.count sep)

theorem splitOn_intercalate (some : parts ≠ []) : ([sep].intercalate parts).splitOn sep = pieces sep parts := by
  induction parts with
  | nil => exact absurd rfl some
  | cons part rest ih =>
    cases rest with
    | nil => simp [pieces]
    | cons next rest =>
      rw [List.intercalate_cons_cons, List.append_assoc, List.singleton_append, List.splitOn_append_cons_self,
        ih (List.cons_ne_nil _ _)]
      rfl

/-- Joins are equal when the pieces are. -/
theorem intercalate_eq_iff (some : parts ≠ []) (some' : others ≠ []) :
    [sep].intercalate parts = [sep].intercalate others ↔ pieces sep parts = pieces sep others := by
  rw [← splitOn_intercalate some, ← splitOn_intercalate some']
  constructor
  · exact congrArg _
  · intro same
    have regained : [sep].intercalate (([sep].intercalate parts).splitOn sep) =
        [sep].intercalate (([sep].intercalate others).splitOn sep) := congrArg _ same
    rwa [List.intercalate_splitOn, List.intercalate_splitOn] at regained

theorem length_splitOn (items : List α) : (items.splitOn sep).length = items.count sep + 1 := by
  induction items with
  | nil => rfl
  | cons a rest ih =>
    rw [List.splitOn_cons_eq_if_modifyHead, List.count_cons]
    split_ifs with same
    · rw [List.length_cons, ih]
    · rw [List.length_modifyHead, ih, Nat.add_zero]

/-- With as many separators in each list, the pieces determine the lists. -/
theorem eq_iff_separators (same : pieces sep parts = pieces sep others) :
    parts = others ↔ separators sep parts = separators sep others := by
  refine ⟨congrArg _, fun counts => ?_⟩
  induction parts generalizing others with
  | nil =>
    cases others with
    | nil => rfl
    | cons part rest => exact absurd counts nofun
  | cons part rest ih =>
    cases others with
    | nil => exact absurd counts nofun
    | cons other rest' =>
      obtain ⟨count, counts⟩ := List.cons.inj counts
      have lengths : (part.splitOn sep).length = (other.splitOn sep).length := by
        rw [length_splitOn, length_splitOn, count]
      obtain ⟨first, later⟩ := List.append_inj same lengths
      have regained : [sep].intercalate (part.splitOn sep) = [sep].intercalate (other.splitOn sep) := congrArg _ first
      rw [List.intercalate_splitOn, List.intercalate_splitOn] at regained
      rw [regained, ih later counts]

end Joined
