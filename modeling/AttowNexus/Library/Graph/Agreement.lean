import AttowNexus.Library.Graph.PostOrder

/-! # Graphs that agree on what is reached

Two graphs that list the same successors for everything that one of them reaches from a vertex reach the same from there
and are traversed in the same order, with whatever fuel is enough for each.
-/

namespace SuccGraph

open Relation

variable {α : Type*} [DecidableEq α] {next next' : α → List α}

omit [DecidableEq α] in
/-- A path of one graph is a path of the other. -/
theorem Reach.congr {x z : α} (path : Reach next x z) (agree : ∀ y, Reach next x y → next' y = next y) :
    Reach next' x z := by
  induction path with
  | refl => exact .refl _
  | @tail y z before edge ih =>
    have step : z ∈ next' y := by
      rw [agree y before]
      exact edge
    exact ih.trans (.single step)

omit [DecidableEq α] in
theorem reach_congr_iff {x z : α} (agree : ∀ y, Reach next x y → next' y = next y) :
    Reach next' x z ↔ Reach next x z := by
  constructor
  · intro path
    induction path with
    | refl => exact .refl _
    | @tail y z _ edge ih =>
      have step : z ∈ next' y := edge
      rw [agree y ih] at step
      exact ih.trans (.single step)
  · exact fun path => path.congr agree

/-- The traversal of one graph is that of the other. -/
theorem Lists.congr {sources : List α} {start finish : Finset α × List α} (lists : Lists next sources start finish)
    (agree : ∀ x ∈ sources, ∀ y, Reach next x y → next' y = next y) : Lists next' sources start finish := by
  induction lists with
  | nil => exact .nil
  | seen known _ ih => exact .seen known (ih fun x member => agree x (List.mem_cons_of_mem _ member))
  | @visit x rest seen out below finish unseen _ _ ihBelow ihRest =>
    have here : next' x = next x := agree x List.mem_cons_self x (.refl x)
    refine .visit unseen ?_ (ihRest fun y member => agree y (List.mem_cons_of_mem _ member))
    rw [here]
    exact ihBelow fun y edge z path => agree x List.mem_cons_self z (.head edge path)

/-- The recursion has one end. -/
theorem Lists.unique {sources : List α} {start finish finish' : Finset α × List α}
    (lists : Lists next sources start finish) (others : Lists next sources start finish') : finish = finish' := by
  induction lists generalizing finish' with
  | nil =>
    cases others
    rfl
  | seen known _ ih =>
    cases others with
    | seen _ later => exact ih later
    | visit unseen => exact absurd known unseen
  | visit unseen _ _ ihBelow ihRest =>
    cases others with
    | seen known => exact absurd known unseen
    | visit _ successors later =>
      obtain rfl := ihBelow successors
      exact ihRest later

/-- The listings are the same, with any fuel that is enough. -/
theorem postOrder_congr {support support' : Finset α} (outside : ∀ x ∉ support, next x = [])
    (outside' : ∀ x ∉ support', next' x = []) {fuel fuel' : ℕ} (enough : support.card < fuel)
    (enough' : support'.card < fuel') {x : α} (agree : ∀ y, Reach next x y → next' y = next y) :
    postOrder next' fuel' x (∅, []) = postOrder next fuel x (∅, []) := by
  have lists := lists_postOrder outside x (∅, []) (by simpa using enough)
  have lists' := lists_postOrder outside' x (∅, []) (by simpa using enough')
  refine lists'.unique (lists.congr fun source member => ?_)
  rw [List.mem_singleton.mp member]
  exact agree

end SuccGraph
