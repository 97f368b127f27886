import Mathlib.Logic.Relation
import Mathlib.Logic.Function.Basic
import Mathlib.Data.List.Basic

/-! # Graphs given by a successor list

A graph is a function listing the direct successors of a vertex. Reachability is Mathlib's
reflexive transitive closure of that relation. The one update studied is replacing the successor
list of a single vertex: paths that cannot come back to the vertex are unaffected, and acyclicity
survives exactly because no new successor reaches it.
-/

namespace SuccGraph

open Relation

variable {α : Type*} {next : α → List α}

/-- `y` is listed directly after `x`. -/
def Edge (next : α → List α) (x y : α) : Prop := y ∈ next x

/-- Zero or more edges lead from the first vertex to the second. -/
def Reach (next : α → List α) : α → α → Prop := ReflTransGen (Edge next)

/-- No vertex comes back to itself along one or more edges. -/
def Acyclic (next : α → List α) : Prop := ∀ x, ¬ TransGen (Edge next) x x

namespace Reach

theorem refl (x : α) : Reach next x x := ReflTransGen.refl

theorem single {x y : α} (edge : y ∈ next x) : Reach next x y := ReflTransGen.single edge

theorem head {x y z : α} (edge : y ∈ next x) (rest : Reach next y z) : Reach next x z :=
  ReflTransGen.head edge rest

theorem trans {x y z : α} (first : Reach next x y) (second : Reach next y z) : Reach next x z :=
  ReflTransGen.trans first second

/-- A set that contains the source and all successors of its members contains every vertex reached. -/
theorem mem_of_closed {x y : α} (members : Set α)
    (path : Reach next x y) (closed : ∀ z ∈ members, ∀ w ∈ next z, w ∈ members)
    (start : x ∈ members) : y ∈ members := by
  induction path with
  | refl => exact start
  | tail _ edge ih => exact closed _ ih _ edge

/-- A path is empty or starts with an edge. -/
theorem eq_or_head {x z : α} (path : Reach next x z) : x = z ∨ ∃ y ∈ next x, Reach next y z := by
  rcases ReflTransGen.cases_head path with same | ⟨y, edge, rest⟩
  · exact .inl same
  · exact .inr ⟨y, edge, rest⟩

end Reach

theorem Acyclic.not_reach_of_edge (acyclic : Acyclic next) {x y : α} (edge : y ∈ next x) :
    ¬ Reach next y x :=
  fun back => acyclic x (TransGen.head' edge back)

theorem acyclic_nil : Acyclic (fun _ : α => []) := by
  intro x cycle
  obtain ⟨y, edge, _⟩ := TransGen.head'_iff.mp cycle
  exact List.not_mem_nil edge

section Update

variable [DecidableEq α] {v : α} {fresh : List α}

/-- From a vertex that cannot come to `v`, replacing the successors of `v` changes nothing. -/
theorem reach_update_iff {x y : α} (away : ¬ Reach next x v) :
    Reach (Function.update next v fresh) x y ↔ Reach next x y := by
  constructor
  · intro path
    induction path using ReflTransGen.head_induction_on with
    | refl => exact .refl _
    | @head a b edge _ ih =>
      have other : a ≠ v := fun same => away (same ▸ .refl _)
      have old : b ∈ next a := by simpa only [Edge, Function.update_of_ne other] using edge
      exact .head old (ih fun back => away (.head old back))
  · intro path
    induction path using ReflTransGen.head_induction_on with
    | refl => exact .refl _
    | @head a b edge _ ih =>
      have other : a ≠ v := fun same => away (same ▸ .refl _)
      have new : b ∈ Function.update next v fresh a := by
        rw [Function.update_of_ne other]
        exact edge
      exact .head new (ih fun back => away (.head edge back))

/-- A path of the changed graph is an old path or runs through the changed vertex. -/
theorem Reach.old_or_through {x y : α} (path : Reach (Function.update next v fresh) x y) :
    Reach next x y ∨
      Reach (Function.update next v fresh) x v ∧ Reach (Function.update next v fresh) v y := by
  induction path using ReflTransGen.head_induction_on with
  | refl => exact .inl (.refl _)
  | @head a b edge rest ih =>
    by_cases same : a = v
    · subst same
      exact .inr ⟨.refl _, .head edge rest⟩
    · have old : b ∈ next a := by simpa only [Edge, Function.update_of_ne same] using edge
      rcases ih with path | ⟨before, after⟩
      · exact .inl (.head old path)
      · exact .inr ⟨.head edge before, after⟩

/-- Replacing the successors of `v` by vertices that do not reach `v` creates no cycle. -/
theorem Acyclic.update (acyclic : Acyclic next) (away : ∀ p ∈ fresh, ¬ Reach next p v) :
    Acyclic (Function.update next v fresh) := by
  have noLoop : ∀ p ∈ fresh, ¬ Reach (Function.update next v fresh) p v :=
    fun p member back => away p member ((reach_update_iff (away p member)).mp back)
  have atV : ¬ TransGen (Edge (Function.update next v fresh)) v v := by
    intro cycle
    obtain ⟨p, edge, back⟩ := TransGen.head'_iff.mp cycle
    exact noLoop p (by simpa only [Edge, Function.update_self] using edge) back
  intro x cycle
  obtain ⟨y, edge, back⟩ := TransGen.head'_iff.mp cycle
  by_cases same : x = v
  · exact atV (same ▸ cycle)
  · have old : y ∈ next x := by simpa only [Edge, Function.update_of_ne same] using edge
    rcases Reach.old_or_through back with path | ⟨before, after⟩
    · exact acyclic x (TransGen.head' old path)
    · exact atV (TransGen.trans_right after (TransGen.head' edge before))

end Update

end SuccGraph
