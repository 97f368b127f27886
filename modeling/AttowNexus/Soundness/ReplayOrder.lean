import AttowNexus.Proofs.Accepted
import AttowNexus.Proofs.Replay

/-! # The order of a replay

A replay sorts the collected ancestry, which has parents first, by clock and second. The sort is stable,
so parents stay first exactly when no commit of the ancestry has an earlier clock or second than one of
its parents. A checkpoint has clock 0, whatever it is built on.
-/

namespace AttowNexus

open SuccGraph AppState

variable {deps : External} {config : Config} {s : AppState} {tables : CommitTables} {commit : Commit}

/-- Every commit comes after each of the parents it is stored with. -/
def CausalOrder (tables : CommitTables) (commitIds : List String) : Prop :=
  ParentsFirst id tables.parentsOf commitIds

/-- In the ancestry of a commit no clock and second are earlier than those of a parent. -/
def ClocksIncrease (tables : CommitTables) (commitId : String) : Prop :=
  ∀ child ∈ tables.stored, Reach tables.parentsOf commitId child.commitId →
    ∀ parent ∈ tables.stored, parent.commitId ∈ child.parentCommitIds → parent.replayKey ≤ child.replayKey

/-- Sorting a listing keeps it causal exactly when keys do not decrease from parent to child. -/
theorem CommitTables.Listing.causalOrder_sorted_iff (keyed : tables.Keyed) {listed : List Commit}
    (listing : tables.Listing listed) :
    CausalOrder tables ((sortForReplay listed).map (·.commitId)) ↔
      ∀ child ∈ listed, ∀ parent ∈ listed, parent.commitId ∈ child.parentCommitIds →
        parent.replayKey ≤ child.replayKey := by
  have own : ∀ x ∈ sortForReplay listed, (tables.parentsOf ∘ Commit.commitId) x = x.parentCommitIds := by
    intro x member
    exact keyed.parentsOf_eq (listing.stored x ((List.perm_insertionSort _ _).mem_iff.mp member))
  rw [CausalOrder, ParentsFirst.map_iff, ParentsFirst.congr_iff own]
  exact parentsFirst_insertionSort_iff listing.distinct listing.causal

/-- A confirmed replay of a stored commit returns, and merges its ancestry in the order it reports. -/
theorem replay_stored (deps : External) (keyed : tables.Keyed) (causal : tables.Causal)
    (stored : commit ∈ tables.stored) (request : ReplayRequest) (of : request.commitId = commit.commitId)
    (confirmed : request.Confirmed) :
    ∃ result order, replay deps tables request = .ok result ∧
      result.provenanceCommitIds = order.map (·.commitId) ∧
      result.reconstructedState = some (jsonPayload deps (deps.toVec (mergeStates deps order))) ∧
      (CausalOrder tables result.provenanceCommitIds ↔ ClocksIncrease tables commit.commitId) := by
  obtain ⟨listed, read, listing, members⟩ := CommitTables.ancestryCommits_ok keyed causal stored
  obtain ⟨result, run, provenance, state, _⟩ : ∃ result, replay deps tables request = .ok result ∧ _ :=
    replay_of_ancestry confirmed (of ▸ read)
  refine ⟨result, sortForReplay listed, run, provenance, state, ?_⟩
  rw [provenance, listing.causalOrder_sorted_iff keyed]
  constructor
  · intro ordered child inside path parent above edge
    have below : Reach tables.parentsOf commit.commitId parent.commitId :=
      path.trans (.single (keyed.parentsOf_eq inside ▸ edge))
    exact ordered child ((members child).mpr ⟨inside, path⟩) parent ((members parent).mpr ⟨above, below⟩) edge
  · intro increase child inside parent above edge
    obtain ⟨stored, path⟩ := (members child).mp inside
    exact increase child stored path parent ((members parent).mp above).1 edge

/-- After successful calls, the replay of a stored commit applies parents first exactly when no commit of
its ancestry has an earlier clock or second than one of its parents. -/
theorem replay_causal_iff {allowed : Request → Prop} {commits : List Commit}
    (accepted : Accepted deps config allowed commits s) (stored : commit ∈ s.store.tables.stored)
    (request : ReplayRequest) (of : request.commitId = commit.commitId) (confirmed : request.Confirmed) :
    ∃ result order, replay deps s.store.tables request = .ok result ∧
      result.provenanceCommitIds = order.map (·.commitId) ∧
      result.reconstructedState = some (jsonPayload deps (deps.toVec (mergeStates deps order))) ∧
      (CausalOrder s.store.tables result.provenanceCommitIds ↔
        ClocksIncrease s.store.tables commit.commitId) :=
  replay_stored deps accepted.built.keyed accepted.built.causal stored request of confirmed

section Clocks

/-- Two checkpoints in consecutive seconds. -/
private def risingCalls : List Call := [Sample.checkpoint "r" 1, Sample.checkpoint "r" 2]

private def rising : AppState := runCalls .sample Sample.config risingCalls

/-- A publish with clock 5 and a checkpoint on top of it, which has clock 0. -/
private def fallingCalls : List Call := [Sample.publish "r" 5 1 [], Sample.checkpoint "r" 2]

private def falling : AppState := runCalls .sample Sample.config fallingCalls

private def stateOnly (commitId : String) : ReplayRequest := ⟨commitId, ReplayMode.stateOnly.toI32, false⟩

theorem replay_causal_rising :
    ∃ commit ∈ rising.store.tables.stored, commit.parentCommitIds ≠ [] ∧
      ∃ result, replay .sample rising.store.tables (stateOnly commit.commitId) = .ok result ∧
        CausalOrder rising.store.tables result.provenanceCommitIds := by
  have accepted : Accepted .sample Sample.config Request.Durable _ rising :=
    accepted_runCalls (by simp [risingCalls, Sample.checkpoint, Request.Durable]) (by decide)
  have linked : ∃ commit ∈ rising.store.tables.stored, commit.parentCommitIds ≠ [] := by decide
  have increasing : ∀ child ∈ rising.store.tables.stored, ∀ parent ∈ rising.store.tables.stored,
      parent.commitId ∈ child.parentCommitIds → parent.replayKey ≤ child.replayKey := by decide
  obtain ⟨commit, stored, parents⟩ := linked
  obtain ⟨result, _, run, _, _, causal⟩ :=
    replay_causal_iff accepted stored (stateOnly commit.commitId) rfl (ReplayRequest.confirmed_stateOnly _ rfl)
  exact ⟨commit, stored, parents, result, run, causal.mpr fun child inside _ => increasing child inside⟩

/-- The checkpoint is merged before the publish it is built on. -/
theorem replay_causal_fails_falling :
    ¬ ∀ (deps : External) (config : Config) (commits : List Commit) (s : AppState) (commit : Commit)
      (request : ReplayRequest) (result : ReplayResult), Accepted deps config Request.Durable commits s →
      commit ∈ s.store.tables.stored → request.commitId = commit.commitId →
      replay deps s.store.tables request = .ok result → CausalOrder s.store.tables result.provenanceCommitIds := by
  intro claim
  have accepted : Accepted .sample Sample.config Request.Durable _ falling :=
    accepted_runCalls (by simp [fallingCalls, Sample.checkpoint, Sample.publish, Sample.publishRequest,
      Request.Durable]) (by decide)
  have decreasing : ∃ child ∈ falling.store.tables.stored, ∃ parent ∈ falling.store.tables.stored,
      parent.commitId ∈ child.parentCommitIds ∧ ¬ parent.replayKey ≤ child.replayKey := by decide
  obtain ⟨child, inside, parent, above, edge, later⟩ := decreasing
  obtain ⟨result, _, run, _, _, causal⟩ := replay_stored .sample accepted.built.keyed accepted.built.causal inside
    (stateOnly child.commitId) rfl (ReplayRequest.confirmed_stateOnly _ rfl)
  have order := claim _ _ _ _ child _ result accepted inside rfl run
  exact later (causal.mp order child inside (.refl _) parent above edge)

end Clocks

end AttowNexus
