import AttowNexus.Proofs.Naming
import AttowNexus.Proofs.Replay

/-! # A replay covers exactly the ancestry

After successful calls the tables and the index state the same parents. The recursion over the store and the
walk over the index then reach the same commits, and each of them lists every one once.
-/

namespace AttowNexus

open SuccGraph AppState

variable {deps : External} {config : Config} {allowed : Request → Prop} {commits : List Commit} {s : AppState}
  {commit : Commit}

/-- The tables and the index state the same parents. -/
theorem Accepted.parentsOf_eq (accepted : Accepted deps config allowed commits s)
    (free : CollisionFree deps commits) : s.store.tables.parentsOf = s.dag.parents.next := by
  have built := accepted.built
  have keyed : s.store.tables.Keyed := built.keyed
  have index : s.dag = .ofCommits commits := built.index
  have unique : ∀ c ∈ commits, ∀ d ∈ commits, c.commitId = d.commitId → c = d := fun c left d right =>
    free.eq_of_commitId_eq left right (accepted.sealed left) (accepted.sealed right)
  funext commitId
  cases found : s.store.tables.getCommit commitId with
  | none =>
    have unlisted : commitId ∉ s.store.tables.stored.map (·.commitId) := by
      rw [keyed.ids_eq]
      exact CommitTables.getCommit_eq_none_iff.1 found
    have unknown : commitId ∉ s.dag.parents := fun known => unlisted (built.mem_ids_iff.mpr known)
    rw [CommitTables.parentsOf, found, ParentMap.next, Finmap.lookup_eq_none.mpr unknown]
    rfl
  | some commit =>
    obtain ⟨stored, rfl⟩ := keyed.getCommit_eq_some_iff.mp found
    have listed : s.dag.parents.lookup commit.commitId = some commit.parentCommitIds :=
      index ▸ DagIndex.lookup_ofCommits unique (built.kept.subset stored)
    rw [keyed.parentsOf_eq stored, ParentMap.next_of_lookup listed]

/-- After successful calls a state-only replay of a stored commit succeeds, and its provenance lists the commit
and each of its ancestors exactly once and nothing else, as the ancestry in the index does. -/
theorem replay_covers_ancestry (accepted : Accepted deps config allowed commits s)
    (free : CollisionFree deps commits) (stored : commit ∈ s.store.tables.stored) (request : ReplayRequest)
    (of : request.commitId = commit.commitId) (stateOnly : request.mode = ReplayMode.stateOnly.toI32) :
    ∃ result, replayInner deps request s = (.ok result, s) ∧ result.provenanceCommitIds.Nodup ∧
      (∀ commitId, commitId ∈ result.provenanceCommitIds ↔
        Reach s.store.tables.parentsOf commit.commitId commitId) ∧
      ∀ commitId, commitId ∈ result.provenanceCommitIds ↔ commitId ∈ s.dag.ancestry commit.commitId := by
  have keyed : s.store.tables.Keyed := accepted.built.keyed
  obtain ⟨listed, read, _⟩ := CommitTables.ancestryCommits_ok keyed accepted.built.causal stored
  obtain ⟨result, run, _⟩ : ∃ result, replay deps s.store.tables request = .ok result ∧ _ :=
    replay_of_ancestry (request.confirmed_stateOnly stateOnly) (of ▸ read)
  obtain ⟨distinct, covers⟩ := replay_provenance keyed run
  rw [of] at covers
  refine ⟨result, replayInner_eq_ok_iff.2 ⟨run, rfl⟩, distinct, covers, fun commitId => ?_⟩
  rw [covers, accepted.parentsOf_eq free]
  exact DagIndex.mem_ancestry_iff.symm

section Diamond

private def crossRoot : String := Sample.headOf (runCalls .sample Sample.config [Sample.checkpoint "r" 1]) "r"

private def sides : List Call :=
  [Sample.checkpoint "r" 1, Sample.checkpoint "r" 2,
   ⟨.checkpoint (Sample.checkpointRequest "q" [crossRoot] []), .calm ⟨3, 0⟩ 3⟩]

private def ownSide : String := Sample.headOf (runCalls .sample Sample.config sides) "r"

private def otherSide : String := Sample.headOf (runCalls .sample Sample.config sides) "q"

/-- Two checkpoints on one root and a merge that lists one of them twice. -/
private def diamond : List Call :=
  sides ++ [⟨.checkpoint (Sample.checkpointRequest "r" [ownSide, otherSide, ownSide] []), .calm ⟨4, 0⟩ 4⟩]

private def crossed : AppState := runCalls .sample Sample.config diamond

theorem replay_covers_ancestry_diamond :
    ∃ commit ∈ crossed.store.tables.stored, commit.parentCommitIds.length = 3 ∧
      ∃ result, replayInner .sample ⟨commit.commitId, ReplayMode.stateOnly.toI32, false⟩ crossed =
          (.ok result, crossed) ∧ result.provenanceCommitIds.Nodup ∧
        ∀ commitId, commitId ∈ result.provenanceCommitIds ↔ commitId ∈ crossed.dag.ancestry commit.commitId := by
  have accepted : Accepted .sample Sample.config Request.Durable _ crossed :=
    accepted_runCalls (by simp [diamond, sides, Sample.checkpoint, Request.Durable]) (by decide +kernel)
  have free : CollisionFree .sample (commitsOfCalls .sample Sample.config diamond .initial) :=
    collisionFree_of_nodup (by decide)
  have merge : ∃ commit ∈ crossed.store.tables.stored, commit.parentCommitIds.length = 3 := by decide +kernel
  obtain ⟨commit, stored, parents⟩ := merge
  obtain ⟨result, run, distinct, _, agrees⟩ := replay_covers_ancestry accepted free stored
    ⟨commit.commitId, ReplayMode.stateOnly.toI32, false⟩ rfl rfl
  exact ⟨commit, stored, parents, result, run, distinct, agrees⟩

end Diamond

end AttowNexus
