import Mathlib.Data.List.DropRight
import Mathlib.Tactic.Common

/-! # Sliding windows

A window holds the last items of a sequence, up to its size. Pushing an item onto a full window drops the
oldest one, so a window that took the items one by one is the end of their whole sequence.
-/

namespace Window

variable {α : Type*} {size : ℕ}

/-- Add an item; a full window loses its oldest one. -/
def push (size : ℕ) (window : List α) (a : α) : List α :=
  (if window.length = size then window.tail else window) ++ [a]

theorem rtake_of_length_le {items : List α} (short : items.length ≤ size) : items.rtake size = items := by
  rw [List.rtake, Nat.sub_eq_zero_of_le short, List.drop_zero]

theorem tail_rtake_succ {items : List α} (long : size < items.length) :
    (items.rtake (size + 1)).tail = items.rtake size := by
  rw [List.rtake, List.rtake, List.tail_drop]
  congr 1
  omega

/-- Pushing keeps a window the end of the sequence. -/
theorem push_rtake (positive : 0 < size) (items : List α) (a : α) :
    push size (items.rtake size) a = (items ++ [a]).rtake size := by
  obtain ⟨size, rfl⟩ := Nat.exists_eq_succ_of_ne_zero positive.ne'
  rw [push, List.rtake_concat_succ]
  congr 1
  by_cases long : size < items.length
  · have full : (items.rtake (size + 1)).length = size + 1 := by
      rw [List.rtake, List.length_drop]
      omega
    rw [if_pos full, tail_rtake_succ long]
  · rw [rtake_of_length_le (by omega), rtake_of_length_le (by omega), if_neg (by omega)]

/-- Items that fit push out the oldest ones only. -/
theorem rtake_append {items later : List α} (fits : later.length ≤ size) :
    (items ++ later).rtake size = items.rtake (size - later.length) ++ later := by
  have start : (items ++ later).length - size = items.length - (size - later.length) := by
    rw [List.length_append]
    omega
  rw [List.rtake, start, List.drop_append_of_le_length (Nat.sub_le _ _), List.rtake]

theorem rtake_rtake {kept : ℕ} (smaller : kept ≤ size) (items : List α) :
    (items.rtake size).rtake kept = items.rtake kept := by
  have start : items.length - size + (items.length - (items.length - size) - kept) = items.length - kept := by omega
  rw [List.rtake, List.rtake, List.drop_drop, List.length_drop, start, List.rtake]

theorem rdrop_append_rtake (items : List α) (kept : ℕ) : items.rdrop kept ++ items.rtake kept = items :=
  List.take_append_drop _ _

theorem rtake_suffix (items : List α) : items.rtake size <:+ items := List.drop_suffix _ _

/-- The first items are the last ones when all fit, or when the items repeat with the surplus as their period. -/
theorem take_eq_rtake_iff {items : List α} : items.take size = items.rtake size ↔
    items.length ≤ size ∨ ∀ i < size, items[i]? = items[i + (items.length - size)]? := by
  by_cases fits : items.length ≤ size
  · exact iff_of_true (by rw [List.take_of_length_le fits, rtake_of_length_le fits]) (.inl fits)
  · rw [or_iff_right fits, List.rtake]
    constructor
    · intro same i inside
      have here := congrArg (·[i]?) same
      simp only [List.getElem?_take, List.getElem?_drop, if_pos inside] at here
      rw [here, Nat.add_comm]
    · intro repeats
      refine List.ext_getElem? fun i => ?_
      rw [List.getElem?_take, List.getElem?_drop]
      split_ifs with inside
      · rw [repeats i inside, Nat.add_comm]
      · rw [List.getElem?_eq_none_iff.mpr (by omega)]

end Window
