import AttowNexus.Proofs.DagIndex

/-! # Any sequence of appends

Appends of arbitrary commits, accepted or refused, new or under a known id, leave the parent map closed and
acyclic: a refused append writes nothing, and an accepted one has seen that no new parent reaches the commit.
-/

namespace AttowNexus

open SuccGraph

namespace DagIndex

/-- The index after a list of appends, each of which may be refused. -/
def afterAppends (commits : List Commit) : DagIndex :=
  commits.foldl (fun dag commit => (appendInPlace commit dag).2) empty

variable {dag : DagIndex} {commit : Commit}

theorem afterAppends_snoc (commits : List Commit) (commit : Commit) :
    afterAppends (commits ++ [commit]) = (appendInPlace commit (afterAppends commits)).2 := by
  rw [afterAppends, List.foldl_append]
  rfl

/-- An append records an accepted commit and otherwise keeps the index. -/
theorem appendInPlace_cases (dag : DagIndex) (commit : Commit) :
    (dag.Accepts commit ∧ appendInPlace commit dag = (.ok (), dag.record commit)) ∨
    ∃ refusal, appendInPlace commit dag = (.error refusal, dag) := by
  rw [appendInPlace_eq]
  cases outcome : dag.append commit with
  | error refusal => exact .inr ⟨refusal, rfl⟩
  | ok after =>
    obtain ⟨accepts, rfl⟩ := append_eq_ok_iff.1 outcome
    exact .inl ⟨accepts, rfl⟩

/-- One append, whatever its outcome, keeps the index well formed. -/
theorem appendInPlace_wellFormed (wellFormed : dag.parents.WellFormed) :
    (appendInPlace commit dag).2.parents.WellFormed := by
  rcases appendInPlace_cases dag commit with ⟨accepts, run⟩ | ⟨refusal, run⟩
  · rw [run]
    exact accepts.wellFormed wellFormed
  · rw [run]
    exact wellFormed

theorem afterAppends_wellFormed (commits : List Commit) : (afterAppends commits).parents.WellFormed := by
  induction commits using List.reverseRecOn with
  | nil => exact ParentMap.wellFormed_empty
  | append_singleton commits commit ih =>
    rw [afterAppends_snoc]
    exact appendInPlace_wellFormed ih

/-- After any list of appends, and so after each prefix of it, every listed parent is a key and no commit is
its own ancestor; an append that is refused then changes neither map. -/
theorem appends_keep_dag (commits : List Commit) :
    (∀ commitId above, (afterAppends commits).parents.lookup commitId = some above →
      ∀ parent ∈ above, parent ∈ (afterAppends commits).parents) ∧
    Acyclic (afterAppends commits).parents.next ∧
    ∀ commit refusal after, appendInPlace commit (afterAppends commits) = (.error refusal, after) →
      after = afterAppends commits := by
  have wellFormed := afterAppends_wellFormed commits
  refine ⟨fun commitId above found parent edge => ?_, wellFormed.acyclic, fun commit refusal after run => ?_⟩
  · exact wellFormed.closed commitId parent (ParentMap.next_of_lookup found ▸ edge)
  · rcases appendInPlace_cases (afterAppends commits) commit with ⟨_, accepted⟩ | ⟨_, refused⟩
    · exact absurd (Prod.mk.inj (run.symm.trans accepted)).1 nofun
    · exact (Prod.mk.inj (run.symm.trans refused)).2

section Reappended

private def node (commitId : String) (parents : List String) : Commit :=
  { (default : Commit) with commitId := commitId, parentCommitIds := parents }

/-- Two roots and a child of the first, which is then moved below the second. -/
private def moved : List Commit := [node "a" [], node "b" [], node "c" ["a"], node "c" ["b"]]

/-- The moved commit has its new parents, and neither root can be appended again below it. -/
theorem appends_keep_dag_moved :
    (afterAppends moved).parents.next "c" = ["b"] ∧
      appendInPlace (node "b" ["c"]) (afterAppends moved) =
        (.error "commit would introduce a DAG cycle", afterAppends moved) := by
  refine ⟨by decide, ?_⟩
  have refused : (appendInPlace (node "b" ["c"]) (afterAppends moved)).1 =
      .error "commit would introduce a DAG cycle" := by decide
  have run := Prod.ext_iff.mpr ⟨refused, rfl⟩
  exact run.trans (Prod.ext_iff.mpr ⟨rfl, (appends_keep_dag moved).2.2 _ _ _ run⟩)

end Reappended

end DagIndex

end AttowNexus
