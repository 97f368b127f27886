import AttowNexus.Proofs.DagIndex

/-! # Loading a ledger in another order

A rebuild checks each commit against the part of the graph that is already there, and that part depends
on the order. The parent map at the end does not: it states the parents of each commit. Every query reads
the parent map only, so two orders that put parents first give the same answers. An empty id is refused in
any order.
-/

namespace AttowNexus

open SuccGraph

namespace DagIndex

variable {left right : List Commit}

/-- Two indexes with one parent map, which answer every query alike. -/
structure Alike (dag other : DagIndex) : Prop where
  parents : dag.parents = other.parents
  isAncestor : ∀ ancestor commitId, dag.isAncestor ancestor commitId = other.isAncestor ancestor commitId
  ancestry : ∀ commitId, dag.ancestry commitId = other.ancestry commitId
  nearest : ∀ a b, dag.nearestCommonAncestor a b = other.nearestCommonAncestor a b

/-- The queries read the parent map and nothing else. -/
theorem alike_iff {dag other : DagIndex} : dag.Alike other ↔ dag.parents = other.parents := by
  constructor
  · exact Alike.parents
  · intro same
    have ancestry : ∀ commitId, dag.ancestry commitId = other.ancestry commitId := by
      intro commitId
      rw [DagIndex.ancestry, DagIndex.ancestry, same]
    refine ⟨same, fun ancestor commitId => ?_, ancestry, fun a b => ?_⟩
    · rw [DagIndex.isAncestor, DagIndex.isAncestor, same]
    · rw [nearestCommonAncestor, nearestCommonAncestor, ancestry a, ancestry b]

/-- Commits with distinct ids, each named and after its parents. -/
structure Loadable (commits : List Commit) : Prop where
  distinct : (commits.map (·.commitId)).Nodup
  named : ∀ commit ∈ commits, commit.commitId ≠ ""
  causal : ParentsFirst (·.commitId) (·.parentCommitIds) commits

/-- A loadable list loads. -/
theorem Loadable.fromCommits_eq {commits : List Commit} (loadable : Loadable commits) :
    fromCommits commits = .ok (ofCommits commits) := by
  obtain ⟨dag, built⟩ := (fromCommits_ok_iff loadable.distinct loadable.named).2 loadable.causal
  rw [built, (fromCommits_ok built).1]

/-- Another order that puts parents first is loadable too. -/
theorem Loadable.reorder (loadable : Loadable left) (same : right.Perm left)
    (causal : ParentsFirst (·.commitId) (·.parentCommitIds) right) : Loadable right where
  distinct := (same.map (·.commitId)).nodup_iff.mpr loadable.distinct
  named commit member := loadable.named commit (same.mem_iff.mp member)
  causal := causal

/-- Both orders record the same parents. -/
theorem Loadable.ofCommits_alike (loadable : Loadable left) (same : right.Perm left) :
    (ofCommits left).Alike (ofCommits right) := by
  have unique : ∀ c ∈ left, ∀ d ∈ left, c.commitId = d.commitId → c = d := by
    intro c here d there equal
    exact List.inj_on_of_nodup_map loadable.distinct here there equal
  exact alike_iff.2 (ofCommits_parents_eq unique fun c => same.mem_iff).symm

/-- Two orders of commits with distinct ids, none of them empty, in which every parent precedes its
children, both load, and the two indexes are alike. -/
theorem load_order_irrelevant (distinct : (left.map (·.commitId)).Nodup)
    (named : ∀ commit ∈ left, commit.commitId ≠ "") (same : right.Perm left)
    (causal : ParentsFirst (·.commitId) (·.parentCommitIds) left)
    (causal' : ParentsFirst (·.commitId) (·.parentCommitIds) right) :
    ∃ dag other, fromCommits left = .ok dag ∧ fromCommits right = .ok other ∧ dag.Alike other := by
  have loadable : Loadable left := ⟨distinct, named, causal⟩
  refine ⟨_, _, loadable.fromCommits_eq, (loadable.reorder same causal').fromCommits_eq, ?_⟩
  exact loadable.ofCommits_alike same

section Sample

private def loaded (commitId : String) (parentCommitIds : List String) : Commit :=
  { (default : Commit) with commitId := commitId, parentCommitIds := parentCommitIds }

/-- The two commits of a fork, in either order, below a merge -/
theorem load_order_irrelevant_forked :
    let fork := [loaded "r" [], loaded "a" ["r"], loaded "b" ["r"], loaded "m" ["b", "a"]]
    let other := [loaded "r" [], loaded "b" ["r"], loaded "a" ["r"], loaded "m" ["b", "a"]]
    fork.map (·.commitId) ≠ other.map (·.commitId) ∧
      ∃ dag dag', fromCommits fork = .ok dag ∧ fromCommits other = .ok dag' ∧ dag.Alike dag' := by
  intro fork other
  refine ⟨by decide, load_order_irrelevant (by decide) (by decide) ?_ ?_ ?_⟩
  · exact .cons _ (.swap _ _ _)
  all_goals
    apply (fromCommits_ok_iff (by decide) (by decide)).1
    exact ⟨_, fromCommits_of_isSome (by decide)⟩

/-- A single commit with an empty id is in order, and refused. -/
theorem load_refused_unnamed :
    ¬ ∀ left right : List Commit, (left.map (·.commitId)).Nodup → right.Perm left →
      ParentsFirst (·.commitId) (·.parentCommitIds) left → ParentsFirst (·.commitId) (·.parentCommitIds) right →
      ∃ dag other, fromCommits left = .ok dag ∧ fromCommits right = .ok other ∧ dag.Alike other := by
  intro claim
  have causal : ParentsFirst (·.commitId) (·.parentCommitIds) [loaded "" []] :=
    ParentsFirst.snoc_iff.2 ⟨.nil, fun _ edge => absurd edge List.not_mem_nil⟩
  obtain ⟨dag, _, built, _⟩ := claim [loaded "" []] _ (by decide) (.refl _) causal causal
  have refused : (fromCommits [loaded "" []]).toOption.isSome = false := by decide
  rw [built] at refused
  exact Bool.noConfusion refused

end Sample

end DagIndex

end AttowNexus
