import AttowNexus.Library.Graph.Reach
import Mathlib.Data.List.Nodup
import Mathlib.Data.List.Pairwise
import Mathlib.Data.List.Perm.Basic

/-! # Unfolding a graph into the tree of its paths

A traversal that does not remember what it has visited lists a vertex once for every path to it. Apart from
the sources, the trace contains each vertex as often as its members list it as a successor. So it lists each
vertex once exactly when no vertex that is reached has two entries as a successor.
-/

namespace SuccGraph

open Relation

variable {α : Type*} {next : α → List α} {sources trace : List α} {x : α}

/-- The vertices in the order in which a traversal without memory enters them. -/
inductive Unfolds (next : α → List α) : List α → List α → Prop where
  | nil : Unfolds next [] []
  | cons {x rest below after} (successors : Unfolds next (next x) below) (later : Unfolds next rest after) :
      Unfolds next (x :: rest) (x :: below ++ after)

/-- Every vertex that is reached is listed as a successor at most once. -/
def OnePath (next : α → List α) (x : α) : Prop :=
  ∀ v, Reach next x v → (next v).Nodup ∧ ∀ w, Reach next x w → ∀ p ∈ next v, p ∈ next w → v = w

namespace Unfolds

/-- The trace is made of the sources and of the successors that its members list. -/
theorem perm (unfolds : Unfolds next sources trace) : trace.Perm (sources ++ trace.flatMap next) := by
  induction unfolds with
  | nil => exact .nil
  | @cons x rest below after _ _ left right =>
    rw [List.cons_append, List.cons_append, List.flatMap_cons, List.flatMap_append]
    refine .cons x ?_
    calc
      (below ++ after).Perm ((next x ++ below.flatMap next) ++ (rest ++ after.flatMap next)) := left.append right
      _ = (next x ++ below.flatMap next ++ rest) ++ after.flatMap next := by rw [← List.append_assoc]
      List.Perm _ ((rest ++ (next x ++ below.flatMap next)) ++ after.flatMap next) :=
        List.perm_append_comm.append_right _
      _ = rest ++ (next x ++ (below.flatMap next ++ after.flatMap next)) := by simp only [List.append_assoc]

/-- One source and then the others -/
theorem append {rest after : List α} (first : Unfolds next [x] trace) (later : Unfolds next rest after) :
    Unfolds next (x :: rest) (trace ++ after) := by
  cases first with
  | cons successors done =>
    cases done
    rw [List.append_nil]
    exact .cons successors later

/-- The trace lists what the sources reach. -/
theorem mem_iff (unfolds : Unfolds next sources trace) {z : α} :
    z ∈ trace ↔ ∃ source ∈ sources, Reach next source z := by
  constructor
  · intro member
    induction unfolds with
    | nil => exact absurd member List.not_mem_nil
    | cons successors later below after =>
      rw [List.cons_append, List.mem_cons, List.mem_append] at member
      obtain rfl | inside | inside := member
      · exact ⟨_, List.mem_cons_self, .refl _⟩
      · obtain ⟨successor, edge, path⟩ := below inside
        exact ⟨_, List.mem_cons_self, .head edge path⟩
      · obtain ⟨source, listed, path⟩ := after inside
        exact ⟨source, List.mem_cons_of_mem _ listed, path⟩
  · rintro ⟨source, listed, path⟩
    have closed : ∀ v ∈ {v | v ∈ trace}, ∀ w ∈ next v, w ∈ {v | v ∈ trace} := by
      intro v inside w edge
      exact unfolds.perm.mem_iff.mpr (List.mem_append_right _ (List.mem_flatMap.mpr ⟨v, inside, edge⟩))
    exact path.mem_of_closed _ closed (unfolds.perm.mem_iff.mpr (List.mem_append_left _ listed))

/-- A traversal that ends meets no cycle. -/
theorem not_cyclic (unfolds : Unfolds next sources trace) : ∀ z ∈ trace, ¬ TransGen (Edge next) z z := by
  induction unfolds with
  | nil => exact fun _ member => absurd member List.not_mem_nil
  | @cons x rest below after successors _ left right =>
    intro z member cycle
    rw [List.cons_append, List.mem_cons, List.mem_append] at member
    obtain rfl | inside | inside := member
    · obtain ⟨y, edge, back⟩ := TransGen.head'_iff.mp cycle
      exact left z (successors.mem_iff.2 ⟨y, edge, back⟩) cycle
    · exact left z inside cycle
    · exact right z inside cycle

theorem reach_iff (unfolds : Unfolds next [x] trace) {z : α} : z ∈ trace ↔ Reach next x z := by
  simp only [unfolds.mem_iff, List.mem_singleton, exists_eq_left]

/-- Only one member lists the vertex, and once: it is listed as often as the member occurs. -/
private theorem count_flatMap_of_only [DecidableEq α] {trace : List α} {v z : α}
    (only : ∀ w ∈ trace, (next w).count z = if w = v then 1 else 0) :
    (trace.flatMap next).count z = trace.count v := by
  induction trace with
  | nil => rfl
  | cons w rest ih =>
    obtain ⟨here, later⟩ := List.forall_mem_cons.mp only
    rw [List.flatMap_cons, List.count_append, here, ih later, List.count_cons, beq_eq_decide]
    simp only [decide_eq_true_eq]
    omega

/-- Each vertex is listed once exactly when each that is reached has one entry as a successor. -/
theorem nodup_iff (unfolds : Unfolds next [x] trace) : trace.Nodup ↔ OnePath next x := by
  classical
  constructor
  · intro once v path
    have successors := (unfolds.perm.nodup_iff.mp once).of_append_right
    obtain ⟨each, apart⟩ := List.nodup_flatMap.mp successors
    refine ⟨each v (unfolds.reach_iff.2 path), fun w other p left right => ?_⟩
    by_contra differ
    have symmetric : Std.Symm (Function.onFun List.Disjoint next) := ⟨fun _ _ apart _ here there => apart there here⟩
    exact apart.forall (unfolds.reach_iff.2 path) (unfolds.reach_iff.2 other) differ left right
  · intro single
    have counted : ∀ z, Reach next x z → trace.count z = 1 := by
      intro z path
      induction path with
      | refl =>
        -- nothing that is reached lists the start
        have unlisted : x ∉ trace.flatMap next := by
          intro member
          obtain ⟨v, inside, edge⟩ := List.mem_flatMap.mp member
          exact unfolds.not_cyclic x (unfolds.reach_iff.2 (.refl x))
            (TransGen.tail' (unfolds.reach_iff.1 inside) edge)
        rw [unfolds.perm.count_eq, List.singleton_append, List.count_cons_self,
          List.count_eq_zero_of_not_mem unlisted]
      | @tail v z path edge ih =>
        have other : x ≠ z := by
          rintro rfl
          exact unfolds.not_cyclic x (unfolds.reach_iff.2 (.refl x)) (TransGen.tail' path edge)
        have only : ∀ w ∈ trace, (next w).count z = if w = v then 1 else 0 := by
          intro w inside
          have reached := unfolds.reach_iff.1 inside
          split
          · next same => exact List.count_eq_one_of_mem (single w reached).1 (same ▸ edge)
          · next differ =>
            exact List.count_eq_zero_of_not_mem fun again => differ ((single w reached).2 v path z again edge)
        rw [unfolds.perm.count_eq, List.singleton_append, List.count_cons_of_ne other,
          count_flatMap_of_only only, ih]
    exact List.nodup_iff_count_eq_one.mpr fun z member => counted z (unfolds.reach_iff.1 member)

end Unfolds

end SuccGraph
