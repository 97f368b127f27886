import Mathlib.Data.Option.Basic

/-! # Paths into trees

A path is a list of steps, each of which picks a child. A map of trees that commutes with the steps of a path acts on
the place that the path leads to, and on nothing else of it.
-/

namespace Paths

variable {α σ : Type*}

/-- The place that the steps lead to. -/
def follow (child : σ → α → Option α) : List σ → α → Option α
  | [], a => some a
  | step :: steps, a => (child step a).bind (follow child steps)

variable {child : σ → α → Option α} {f : α → α}

theorem follow_append (before after : List σ) (a : α) :
    follow child (before ++ after) a = (follow child before a).bind (follow child after) := by
  induction before generalizing a with
  | nil => rfl
  | cons step rest ih =>
    rw [List.cons_append, follow, follow, Option.bind_assoc]
    congr 1
    funext b
    exact ih b

/-- What commutes with each step commutes with the path. -/
theorem follow_map {steps : List σ} (commutes : ∀ step ∈ steps, ∀ a, child step (f a) = (child step a).map f) (a : α) :
    follow child steps (f a) = (follow child steps a).map f := by
  induction steps generalizing a with
  | nil => rfl
  | cons step rest ih =>
    obtain ⟨here, later⟩ := List.forall_mem_cons.mp commutes
    rw [follow, follow, here, Option.bind_map, Option.map_bind]
    congr 1
    funext b
    exact ih later b

/-- Behind a step that picks a fixed leaf there is nothing, and at it there is the leaf. -/
theorem follow_leaf {before : List σ} {step : σ} {leaf : α} (bare : ∀ step, child step leaf = none)
    (commutes : ∀ step ∈ before, ∀ a, child step (f a) = (child step a).map f)
    (picks : ∀ a, child step (f a) = (child step a).map fun _ => leaf) (after : List σ) (a : α) :
    follow child (before ++ step :: after) (f a) =
      if after = [] then (follow child (before ++ [step]) a).map fun _ => leaf else none := by
  rw [follow_append, follow_map commutes, follow_append, Option.bind_map, Option.map_bind]
  cases after with
  | nil =>
    rw [if_pos rfl]
    congr 1
    funext b
    simp [follow, picks]
  | cons next rest =>
    rw [if_neg (List.cons_ne_nil _ _), Option.bind_eq_none_iff]
    intro b _
    simp only [Function.comp_apply, follow, picks]
    cases child step b with
    | none => rfl
    | some _ => rw [Option.map_some, Option.bind_some, bare, Option.bind_none]

end Paths
