import AttowNexus.Proofs.DagIndex

/-! # Ancestry queries

`is_ancestor` searches with a stack and `ancestry` recurses, each with its own set of seen commits. On an index that
successful appends built both end, and they agree on what lies above a commit.
-/

namespace AttowNexus

open SuccGraph

variable {dag : DagIndex} {commits : List Commit}

namespace ParentMap

variable {parents : ParentMap}

/-- The loop of `reachable_locked` ends with the answer of the bounded search. -/
theorem searches_reachableLocked (start target : String) :
    Searches parents.next target [start] ∅ (parents.reachableLocked start target) := by
  apply searches_stackSearch (fun _ unknown => next_of_notMem unknown)
  rw [pendingEdges, Finset.sdiff_empty, List.length_singleton, searchFuel]
  omega

/-- The recursion of `collect_ancestry` ends with the listing of the bounded traversal. -/
theorem lists_collectAncestry (commitId : String) :
    ∃ seen, Lists parents.next [commitId] (∅, []) (seen, parents.collectAncestry commitId) := by
  refine ⟨_, lists_postOrder (fun _ unknown => next_of_notMem unknown) commitId (∅, []) ?_⟩
  rw [Finset.sdiff_empty]
  exact Nat.lt_succ_self _

end ParentMap

namespace DagIndex

/-- Both queries answer what the parent links say, and both traversals end. -/
theorem ancestry_queries_exact (built : fromCommits commits = .ok dag) (ancestor commitId : String) :
    (dag.isAncestor ancestor commitId = true ↔ Reach dag.parents.next commitId ancestor) ∧
      (∀ x, x ∈ dag.ancestry commitId ↔ dag.isAncestor x commitId = true) ∧
      (dag.ancestry commitId).Nodup ∧
      ParentsFirst id dag.parents.next (dag.ancestry commitId) ∧
      (dag.ancestry commitId).getLast? = some commitId ∧
      Searches dag.parents.next ancestor [commitId] ∅ (dag.parents.reachableLocked commitId ancestor) ∧
      ∃ seen, Lists dag.parents.next [commitId] (∅, []) (seen, dag.ancestry commitId) := by
  have acyclic : Acyclic dag.parents.next := (fromCommits_ok built).2.acyclic
  refine ⟨isAncestor_iff, fun x => ?_, ancestry_nodup commitId, ancestry_parentsFirst acyclic commitId, ?_,
    ParentMap.searches_reachableLocked commitId ancestor, ParentMap.lists_collectAncestry commitId⟩
  · rw [mem_ancestry_iff, isAncestor_iff]
  · exact getLast_postOrder _ commitId

section Sample

private def linked (commitId : String) (parentCommitIds : List String) : Commit :=
  { (default : Commit) with commitId := commitId, parentCommitIds := parentCommitIds }

private def diamond : List Commit :=
  [linked "r" [], linked "a" ["r"], linked "b" ["r"], linked "m" ["b", "a"]]

/-- Two commits above one root, and a commit above both -/
theorem ancestry_queries_exact_diamond :
    (ofCommits diamond).ancestry "m" = ["r", "b", "a", "m"] ∧
      ∀ x, x ∈ (ofCommits diamond).ancestry "m" ↔ (ofCommits diamond).isAncestor x "m" = true := by
  have built : fromCommits diamond = .ok (ofCommits diamond) := fromCommits_of_isSome (by decide)
  exact ⟨by decide, (ancestry_queries_exact built "r" "m").2.1⟩

end Sample

end DagIndex

end AttowNexus
