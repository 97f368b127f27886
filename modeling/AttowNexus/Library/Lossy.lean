import Mathlib.Data.List.Basic

/-! # Lists with some elements left out

What arrives of a log when some of its elements may get lost: the order stays, the losses are counted, and
elements of one kind are never among them.
-/

variable {α : Type*}

/-- Of the log, `arrived` came through and `lost` elements did not, none of them one that `must` come. -/
structure Lossy (must : α → Bool) (log arrived : List α) (lost : ℕ) : Prop where
  ordered : arrived.Sublist log
  counted : log.length = arrived.length + lost
  complete : arrived.filter must = log.filter must

namespace Lossy

variable {must : α → Bool} {log arrived : List α} {lost : ℕ} {a : α}

theorem nil : Lossy must ([] : List α) [] 0 := ⟨.slnil, rfl, rfl⟩

/-- One more element comes through. -/
theorem arrive (lossy : Lossy must log arrived lost) : Lossy must (log ++ [a]) (arrived ++ [a]) lost where
  ordered := lossy.ordered.append (.refl _)
  counted := by
    have counted := lossy.counted
    simp only [List.length_append, List.length_singleton]
    omega
  complete := by rw [List.filter_append, List.filter_append, lossy.complete]

/-- The last element that came through is lost after all. -/
theorem lose (lossy : Lossy must log (arrived ++ [a]) lost) (may : must a = false) : Lossy must log arrived (lost + 1) where
  ordered := (List.sublist_append_left _ _).trans lossy.ordered
  counted := by
    have counted := lossy.counted
    simp only [List.length_append, List.length_singleton] at counted
    omega
  complete := by
    rw [← lossy.complete, List.filter_append, List.filter_cons_of_neg (by simp [may]), List.filter_nil, List.append_nil]

end Lossy
