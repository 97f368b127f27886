import AttowNexus.Library.Graph.Reach
import Mathlib.Algebra.BigOperators.Group.Finset.Basic
import Mathlib.Algebra.Order.BigOperators.Group.Finset

/-! # Reachability by an explicit stack

The search pops a vertex, stops at the target, skips vertices seen before and pushes the
successors of the others. Every vertex is expanded once, so one unit of fuel for each edge of the
support is enough, whatever the graph looks like; cycles need no separate treatment. With that much
fuel the bounded search is a run of the unbounded loop.
-/

namespace SuccGraph

variable {α : Type*} [DecidableEq α] {next : α → List α}

/-- One loop iteration per unit of fuel; the head of the list is the top of the stack, and the
successors are pushed in order, so the last one is popped first. -/
def stackSearch (next : α → List α) (target : α) : ℕ → List α → Finset α → Bool
  | 0, _, _ => false
  | _ + 1, [], _ => false
  | fuel + 1, current :: rest, seen =>
      if current = target then true
      else if current ∈ seen then stackSearch next target fuel rest seen
      else stackSearch next target fuel ((next current).reverse ++ rest) (insert current seen)

/-- A successful search started somewhere that reaches the target. -/
theorem reach_of_stackSearch {target : α} {fuel : ℕ} {stack : List α} {seen : Finset α}
    (found : stackSearch next target fuel stack seen = true) :
    ∃ x ∈ stack, Reach next x target := by
  induction fuel generalizing stack seen with
  | zero => simp [stackSearch] at found
  | succ fuel ih =>
    cases stack with
    | nil => simp [stackSearch] at found
    | cons current rest =>
      simp only [stackSearch] at found
      split_ifs at found with same visited
      · exact ⟨current, List.mem_cons_self, same ▸ .refl _⟩
      · obtain ⟨x, member, path⟩ := ih found
        exact ⟨x, List.mem_cons_of_mem _ member, path⟩
      · obtain ⟨x, member, path⟩ := ih found
        rcases List.mem_append.mp member with pushed | below
        · exact ⟨current, List.mem_cons_self, .head (List.mem_reverse.mp pushed) path⟩
        · exact ⟨x, List.mem_cons_of_mem _ below, path⟩

/-- The edges leaving the vertices that were not expanded yet. -/
def pendingEdges (next : α → List α) (support seen : Finset α) : ℕ :=
  ∑ x ∈ support \ seen, (next x).length

/-- Expanding a new vertex pays for the successors it pushes. -/
theorem pendingEdges_insert {support seen : Finset α} (outside : ∀ x ∉ support, next x = [])
    {x : α} (unseen : x ∉ seen) :
    (next x).length + pendingEdges next support (insert x seen) = pendingEdges next support seen := by
  have erased : support \ insert x seen = (support \ seen).erase x := by
    ext y
    simp only [Finset.mem_sdiff, Finset.mem_insert, Finset.mem_erase, not_or]
    tauto
  rw [pendingEdges, pendingEdges, erased]
  by_cases member : x ∈ support
  · exact Finset.add_sum_erase _ (fun y => (next y).length) (Finset.mem_sdiff.mpr ⟨member, unseen⟩)
  · rw [Finset.erase_eq_of_notMem fun inside => member (Finset.mem_sdiff.mp inside).1,
      outside x member, List.length_nil, Nat.zero_add]

/-- When enough fuel finds nothing, no seen or stacked vertex reaches the target: the seen vertices
are closed up to the stack, and the stack runs empty. -/
theorem not_reach_of_stackSearch {target : α} {support : Finset α}
    (outside : ∀ x ∉ support, next x = []) {fuel : ℕ} {stack : List α} {seen : Finset α}
    (enough : stack.length + pendingEdges next support seen < fuel)
    (closed : ∀ x ∈ seen, x ≠ target ∧ ∀ y ∈ next x, y ∈ seen ∨ y ∈ stack)
    (missed : stackSearch next target fuel stack seen = false) :
    ∀ x, x ∈ seen ∨ x ∈ stack → ¬ Reach next x target := by
  induction fuel generalizing stack seen with
  | zero => omega
  | succ fuel ih =>
    cases stack with
    | nil =>
      intro x start path
      have inside : target ∈ (↑seen : Set α) := by
        refine path.mem_of_closed ↑seen (fun z member w edge => ?_) (by simpa using start)
        simpa using (closed z member).2 w edge
      exact (closed target inside).1 rfl
    | cons current rest =>
      simp only [stackSearch] at missed
      simp only [List.length_cons] at enough
      split_ifs at missed with same visited
      · have closed' : ∀ x ∈ seen, x ≠ target ∧ ∀ y ∈ next x, y ∈ seen ∨ y ∈ rest := by
          intro x member
          refine ⟨(closed x member).1, fun y edge => ?_⟩
          rcases (closed x member).2 y edge with known | stacked
          · exact .inl known
          · exact (List.mem_cons.mp stacked).imp_left fun top : y = current => top ▸ visited
        intro x start
        refine ih (by omega) closed' missed x ?_
        rcases start with member | member
        · exact .inl member
        · exact (List.mem_cons.mp member).imp_left fun top : x = current => top ▸ visited
      · have paid := pendingEdges_insert outside visited
        have enough' : ((next current).reverse ++ rest).length +
            pendingEdges next support (insert current seen) < fuel := by
          simp only [List.length_append, List.length_reverse]
          omega
        have closed' : ∀ x ∈ insert current seen, x ≠ target ∧
            ∀ y ∈ next x, y ∈ insert current seen ∨ y ∈ (next current).reverse ++ rest := by
          intro x member
          rcases Finset.mem_insert.mp member with rfl | old
          · exact ⟨same, fun y edge => .inr (List.mem_append_left _ (List.mem_reverse.mpr edge))⟩
          · refine ⟨(closed x old).1, fun y edge => ?_⟩
            rcases (closed x old).2 y edge with known | stacked
            · exact .inl (Finset.mem_insert_of_mem known)
            · rcases List.mem_cons.mp stacked with rfl | below
              · exact .inl (Finset.mem_insert_self _ _)
              · exact .inr (List.mem_append_right _ below)
        intro x start
        refine ih enough' closed' missed x ?_
        rcases start with member | member
        · exact .inl (Finset.mem_insert_of_mem member)
        · rcases List.mem_cons.mp member with rfl | below
          · exact .inl (Finset.mem_insert_self _ _)
          · exact .inr (List.mem_append_right _ below)

/-- With fuel for every edge the search decides reachability, in any graph of finite support. -/
theorem stackSearch_iff {source target : α} {support : Finset α}
    (outside : ∀ x ∉ support, next x = []) {fuel : ℕ}
    (enough : 1 + ∑ x ∈ support, (next x).length < fuel) :
    stackSearch next target fuel [source] ∅ = true ↔ Reach next source target := by
  constructor
  · intro found
    obtain ⟨x, member, path⟩ := reach_of_stackSearch found
    exact List.mem_singleton.mp member ▸ path
  · intro path
    by_contra missed
    have enough' : [source].length + pendingEdges next support ∅ < fuel := by
      simpa only [pendingEdges, Finset.sdiff_empty, List.length_singleton] using enough
    exact not_reach_of_stackSearch outside enough' (by simp) (Bool.eq_false_iff.mpr missed)
      source (.inr List.mem_cons_self) path

/-- The loop without a bound, up to its answer. -/
inductive Searches (next : α → List α) (target : α) : List α → Finset α → Bool → Prop where
  | empty {seen} : Searches next target [] seen false
  | found {rest seen} : Searches next target (target :: rest) seen true
  | skip {current rest seen answer} (other : current ≠ target) (visited : current ∈ seen)
      (later : Searches next target rest seen answer) : Searches next target (current :: rest) seen answer
  | expand {current rest seen answer} (other : current ≠ target) (unseen : current ∉ seen)
      (later : Searches next target ((next current).reverse ++ rest) (insert current seen) answer) :
      Searches next target (current :: rest) seen answer

/-- With fuel for the stack and every pending edge, the loop ends with the answer of the bounded search. -/
theorem searches_stackSearch {target : α} {support : Finset α} (outside : ∀ x ∉ support, next x = [])
    {fuel : ℕ} {stack : List α} {seen : Finset α}
    (enough : stack.length + pendingEdges next support seen < fuel) :
    Searches next target stack seen (stackSearch next target fuel stack seen) := by
  induction fuel generalizing stack seen with
  | zero => omega
  | succ fuel ih =>
    cases stack with
    | nil => exact .empty
    | cons current rest =>
      rw [List.length_cons] at enough
      simp only [stackSearch]
      split_ifs with same visited
      · subst same
        exact .found
      · exact .skip same visited (ih (by omega))
      · refine .expand same visited (ih ?_)
        have paid := pendingEdges_insert outside visited
        rw [List.length_append, List.length_reverse]
        omega

end SuccGraph
