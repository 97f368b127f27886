import AttowNexus.Library.Graph.Agreement
import AttowNexus.Proofs.Debts
import AttowNexus.Proofs.Replay
import AttowNexus.Soundness.InterleavedLedger

/-! # When every call has been answered

While calls overlap, the counters, the index and the tables are out of step. Once all calls have been answered the
counters agree with what was broadcast, whatever failed, and if no store call failed the tables hold everything that the
index knows, so every commit can be replayed, in whatever order the rows were written.
-/

namespace AttowNexus

open SuccGraph

/-- Replay needs no order of the rows: a number that goes down from every stored commit to its parents bounds the depth. -/
theorem CommitTables.collect_of_rank {tables : CommitTables} (keyed : tables.Keyed) {rank : String → ℕ}
    (closed : ∀ commit ∈ tables.stored, ∀ parent ∈ commit.parentCommitIds, ∃ above ∈ tables.stored,
      above.commitId = parent ∧ rank parent < rank commit.commitId) {fuel : ℕ} {commit : Commit}
    (member : commit ∈ tables.stored) (enough : rank commit.commitId < fuel) (before : List Commit) :
    ∃ after, collect tables fuel commit.commitId before = .ok after := by
  induction fuel generalizing commit before with
  | zero => exact absurd enough (Nat.not_lt_zero _)
  | succ fuel ih =>
    have works : ∀ parent ∈ commit.parentCommitIds, ∀ prior, ∃ after, collect tables fuel parent prior = .ok after := by
      intro parent edge prior
      obtain ⟨above, stored, rfl, lower⟩ := closed commit member parent edge
      exact ih stored (by omega) prior
    obtain ⟨below, run⟩ := foldlM_ok works before
    exact ⟨_, collect_succ_eq_ok_iff.2 ⟨commit, below, keyed.getCommit_eq_some_iff.mpr ⟨member, rfl⟩, run, rfl⟩⟩

/-- An ancestor has fewer ancestors. -/
theorem ParentMap.WellFormed.length_ancestry_lt {parents : ParentMap} (wellFormed : parents.WellFormed)
    {commitId parent : String} (edge : parent ∈ parents.next commitId) :
    (parents.collectAncestry parent).length < (parents.collectAncestry commitId).length := by
  have apart : commitId ∉ parents.collectAncestry parent := by
    rw [mem_collectAncestry_iff]
    exact wellFormed.acyclic.not_reach_of_edge edge
  have more : commitId :: parents.collectAncestry parent ⊆ parents.collectAncestry commitId := by
    intro ancestor member
    apply mem_collectAncestry_iff.mpr
    rcases List.mem_cons.mp member with rfl | above
    · exact .refl _
    · exact .head edge (mem_collectAncestry_iff.mp above)
  have distinct : (commitId :: parents.collectAncestry parent).Nodup :=
    List.nodup_cons.mpr ⟨apart, collectAncestry_nodup parent⟩
  exact (List.subperm_of_subset distinct more).length_le

/-- When the tables hold what the index knows, with the same parents, every commit can be replayed. -/
theorem replay_of_indexed {deps : External} {tables : CommitTables} {dag : DagIndex} {request : ReplayRequest}
    (keyed : tables.Keyed) (wellFormed : dag.parents.WellFormed)
    (known : ∀ commit ∈ tables.stored, commit.commitId ∈ dag.parents ∧
      dag.parents.next commit.commitId = commit.parentCommitIds)
    (held : ∀ commitId ∈ dag.parents, commitId ∈ tables.stored.map (·.commitId)) (confirmed : request.Confirmed)
    (asked : request.commitId ∈ dag.parents) :
    ∃ result, replay deps tables request = .ok result ∧
      result.provenanceCommitIds.Perm (dag.ancestry request.commitId) := by
  have inside : ∀ ancestor ∈ dag.ancestry request.commitId, ancestor ∈ tables.stored.map (·.commitId) :=
    fun ancestor member => held ancestor (wellFormed.mem_of_reach asked (DagIndex.mem_ancestry_iff.mp member))
  have size : (dag.ancestry request.commitId).length < tables.commits.length + 1 := by
    have fits := (List.subperm_of_subset (dag.ancestry_nodup request.commitId) inside).length_le
    rw [List.length_map, CommitTables.stored, List.length_map] at fits
    omega
  have closed : ∀ commit ∈ tables.stored, ∀ parent ∈ commit.parentCommitIds, ∃ above ∈ tables.stored,
      above.commitId = parent ∧
        (dag.parents.collectAncestry parent).length < (dag.parents.collectAncestry commit.commitId).length := by
    intro commit member parent stated
    rw [← (known commit member).2] at stated
    obtain ⟨above, stored, same⟩ := List.mem_map.mp (held parent (wellFormed.closed _ parent stated))
    exact ⟨above, stored, same, wellFormed.length_ancestry_lt stated⟩
  obtain ⟨commit, member, same⟩ := List.mem_map.mp (held _ asked)
  obtain ⟨listed, read⟩ : ∃ listed, collect tables (tables.commits.length + 1) commit.commitId [] = .ok listed :=
    @CommitTables.collect_of_rank tables keyed _ closed _ _ member (same ▸ size) []
  obtain ⟨result, run, _⟩ := @replay_of_ancestry deps _ _ confirmed _ (same ▸ read)
  refine ⟨result, run, ?_⟩
  obtain ⟨distinct, covers⟩ := replay_provenance keyed run
  have agree : ∀ y, Reach dag.parents.next request.commitId y → tables.parentsOf y = dag.parents.next y := by
    intro y path
    obtain ⟨other, stored, rfl⟩ := List.mem_map.mp (held y (wellFormed.mem_of_reach asked path))
    rw [keyed.parentsOf_eq stored, (known other stored).2]
  refine (List.perm_ext_iff_of_nodup distinct (dag.ancestry_nodup _)).mpr fun commitId => ?_
  rw [covers, DagIndex.mem_ancestry_iff, reach_congr_iff agree]

namespace Daemon

variable {deps : External} {config : Config} {moves : List (Pool.Move Call)} {calls : Calls}

/-- The answer of a publish that made no commit -/
def publishedOnly : Strand Daemon Error Response → Bool
  | .done (.ok (.publishDelta response)) => !response.persisted
  | _ => false

theorem SideBySide.held (run : SideBySide deps config moves calls) :
    calls.Held Balanced fun call => Settles call.ambient openDebts :=
  Pool.held_of_run run (fun call _ => paying_serve call) balanced_initial

section Settling

variable {ambient : Ambient} {outcome : Except Error Response} {share : Multiset Debt}

/-- What an answer may leave open is a loss or a delta without a commit. -/
theorem Settles.count_eq_zero (settles : Settles ambient openDebts outcome share) {debt : Debt} (paid : ¬ debt.Loss)
    (other : debt ≠ .ephemeral) : share.count debt = 0 := by
  rw [Multiset.count_eq_zero]
  intro member
  cases outcome with
  | error e => exact paid (settles.kinds debt member)
  | ok response =>
    obtain rfl : share = openDebts response := settles
    cases response with
    | publishDelta response =>
      rw [openDebts] at member
      split at member
      · exact Multiset.notMem_zero _ member
      · exact other (Multiset.mem_singleton.mp member)
    | registerAgent => exact Multiset.notMem_zero _ member
    | checkpoint => exact Multiset.notMem_zero _ member
    | rollback => exact Multiset.notMem_zero _ member
    | fork => exact Multiset.notMem_zero _ member

theorem Settles.count_ephemeral (settles : Settles ambient openDebts outcome share) :
    share.count .ephemeral = if publishedOnly (.done outcome) = true then 1 else 0 := by
  cases outcome with
  | error e =>
    refine Multiset.count_eq_zero.mpr fun member => ?_
    exact settles.kinds _ member
  | ok response =>
    obtain rfl : share = openDebts response := settles
    cases response with
    | publishDelta response =>
      rw [openDebts, publishedOnly]
      cases response.persisted <;> rfl
    | registerAgent => rfl
    | checkpoint => rfl
    | rollback => rfl
    | fork => rfl

/-- A share without debts, unless a store call failed or a delta was only published -/
theorem Settles.count_of_calm (settles : Settles ambient openDebts outcome share) (calm : ambient.Calm) {debt : Debt}
    (other : debt ≠ .ephemeral) : share.count debt = 0 := by
  by_cases loss : debt.Loss
  · cases outcome with
    | error e =>
      rw [settles.calm calm]
      rfl
    | ok response =>
      obtain rfl : share = openDebts response := settles
      cases response with
      | publishDelta response =>
        rw [openDebts]
        split
        · rfl
        · rw [Multiset.count_singleton, if_neg other]
      | registerAgent => rfl
      | checkpoint => rfl
      | rollback => rfl
      | fork => rfl
  · exact settles.count_eq_zero loss other

/-- All shares together hold of a debt what each of them holds. -/
theorem count_sum_shares {strands : List (Call × Strand Daemon Error Response)} {shares : List (Multiset Debt)}
    {debt : Debt} {counts : Call × Strand Daemon Error Response → Bool}
    (each : List.Forall₂ (fun entry share => ∃ outcome, entry.2 = .done outcome ∧
      Settles entry.1.ambient openDebts outcome share) strands shares)
    (one : ∀ entry ∈ strands, ∀ outcome share, entry.2 = .done outcome →
      Settles entry.1.ambient openDebts outcome share → share.count debt = if counts entry = true then 1 else 0) :
    shares.sum.count debt = strands.countP counts := by
  induction each with
  | nil => rfl
  | @cons entry share strands shares here _ ih =>
    obtain ⟨outcome, done, settles⟩ := here
    have first := one entry List.mem_cons_self outcome share done settles
    have later := ih fun other member => one other (List.mem_cons_of_mem _ member)
    rw [List.sum_cons, Multiset.count_add, List.countP_cons, first, later]
    omega

end Settling

/-- Once all calls have been answered, whatever failed, each counter is the number of broadcasts of its kind; the
warnings and the deltas that were only published are the broadcasts without a commit. -/
theorem counters_agree_when_answered (run : SideBySide deps config moves calls) (done : calls.Done) :
    calls.state.metrics.deltasTotal = calls.state.spoken (fun _ _ => true) ∧
    calls.state.metrics.durableDeltasTotal = calls.state.spoken (fun delta _ => delta.durable) ∧
    calls.state.metrics.ephemeralDeltasTotal = calls.state.spoken (fun delta _ => !delta.durable) ∧
    calls.state.metrics.commitsTotal = calls.state.spoken (fun _ commitId => commitId ≠ "") ∧
    calls.state.metrics.loopWarningsTotal + calls.strands.countP (publishedOnly ·.2) =
      calls.state.spoken (fun _ commitId => commitId = "") := by
  obtain ⟨shares, each, balanced⟩ := (SideBySide.held run).of_done done
  have none : ∀ {debt : Debt}, ¬ debt.Loss → debt ≠ .ephemeral → shares.sum.count debt = 0 := by
    intro debt paid other
    have counted : shares.sum.count debt = calls.strands.countP fun _ => false :=
      count_sum_shares each fun _ _ _ _ _ settles => by
        rw [if_neg Bool.false_ne_true]
        exact settles.count_eq_zero paid other
    rw [counted, List.countP_eq_zero]
    exact fun _ _ => Bool.false_ne_true
  have ephemeral : shares.sum.count .ephemeral = calls.strands.countP (publishedOnly ·.2) :=
    count_sum_shares each fun _ _ _ _ same settles => by
      rw [same]
      exact settles.count_ephemeral
  refine ⟨?_, ?_, ?_, ?_, ?_⟩
  · have total := balanced.deltas
    rwa [none id (by simp), Nat.add_zero] at total
  · have total := balanced.durables
    rwa [none id (by simp), Nat.add_zero] at total
  · have total := balanced.ephemerals
    rwa [none id (by simp), Nat.add_zero] at total
  · have total := balanced.commits
    rwa [none id (by simp), Nat.add_zero] at total
  · have total := balanced.warnings
    rwa [ephemeral, none id (by simp), Nat.add_zero] at total

theorem counters_agree_when_answered_inTurn :
    sampleCalls.state.metrics.deltasTotal = 2 ∧
    sampleCalls.state.metrics.commitsTotal = sampleCalls.state.spoken (fun _ commitId => commitId ≠ "") := by
  obtain ⟨_, _, _, commits, _⟩ := counters_agree_when_answered run_sampleCalls done_sampleCalls
  exact ⟨by decide, commits⟩

/-- Once all calls have been answered and no store call failed, the tables hold every commit that the index knows, the
counts of the runs add up to the commits, and every commit can be replayed; the provenance is its ancestry. -/
theorem replayable_when_answered (run : SideBySide deps config moves calls) (done : calls.Done)
    (calm : ∀ call, .start call ∈ moves → call.ambient.Calm) (free : CollisionFree deps calls.state.indexed) :
    calls.state.runCounts = calls.state.metrics.commitsTotal ∧
    ∀ commit ∈ calls.state.indexed,
      calls.state.app.store.tables.getCommit commit.commitId = some commit ∧
      ∀ request : ReplayRequest, request.commitId = commit.commitId → request.Confirmed →
        ∃ result, replay deps calls.state.app.store.tables request = .ok result ∧
          result.provenanceCommitIds.Perm (calls.state.app.dag.ancestry commit.commitId) := by
  obtain ⟨shares, each, balanced⟩ := (SideBySide.held run).of_done done
  have none : ∀ {debt : Debt}, debt ≠ .ephemeral → shares.sum.count debt = 0 := by
    intro debt other
    have counted : shares.sum.count debt = calls.strands.countP fun _ => false :=
      count_sum_shares each fun entry member _ _ _ settles => by
        rw [if_neg Bool.false_ne_true]
        exact settles.count_of_calm (calm entry.1 (Pool.started_of_run run entry member)) other
    rw [counted, List.countP_eq_zero]
    exact fun _ _ => Bool.false_ne_true
  have consistent := (SideBySide.grown run).state
  have wellFormed := consistent.wellFormed free
  have stores : ∀ commitId ∈ calls.state.app.dag.parents, calls.state.Stores commitId := fun commitId known =>
    (balanced.stored commitId known).resolve_right fun owed =>
      absurd owed (Multiset.count_eq_zero.mp (none (by simp)))
  have found : ∀ commit ∈ calls.state.indexed,
      calls.state.app.store.tables.getCommit commit.commitId = some commit := fun commit member =>
    consistent.getCommit_eq free member (stores _ (consistent.known commit member))
  have stated : ∀ commit ∈ calls.state.indexed,
      calls.state.app.dag.parents.next commit.commitId = commit.parentCommitIds := fun commit member =>
    ParentMap.next_of_lookup (consistent.lookup_parents free member)
  refine ⟨?_, fun commit member => ⟨found commit member, fun request of confirmed => ?_⟩⟩
  · have total := balanced.rows
    rwa [none (by simp), Nat.add_zero] at total
  have known : ∀ other ∈ calls.state.app.store.tables.stored, other.commitId ∈ calls.state.app.dag.parents ∧
      calls.state.app.dag.parents.next other.commitId = other.parentCommitIds := fun other stored =>
    ⟨consistent.known other (consistent.stored other stored), stated other (consistent.stored other stored)⟩
  have held : ∀ commitId ∈ calls.state.app.dag.parents,
      commitId ∈ calls.state.app.store.tables.stored.map (·.commitId) := by
    intro commitId inside
    obtain ⟨other, read⟩ := stores commitId inside
    obtain ⟨stored, same⟩ := consistent.keyed.getCommit_eq_some_iff.mp read
    exact same ▸ List.mem_map_of_mem stored
  rw [← of]
  exact replay_of_indexed consistent.keyed wellFormed known held confirmed (of ▸ consistent.known commit member)

theorem calm_inTurn (call : Call) (started : .start call ∈ inTurn) : call.ambient.Calm := by
  have two : call = Sample.checkpoint "left" 1 ∨ call = Sample.checkpoint "right" 2 := by
    simpa [inTurn] using started
  rcases two with rfl | rfl
  · exact fun _ => rfl
  · exact fun _ => rfl

theorem replayable_when_answered_inTurn :
    sampleCalls.state.runCounts = 2 ∧ ∀ commit ∈ sampleCalls.state.indexed,
      sampleCalls.state.app.store.tables.getCommit commit.commitId = some commit := by
  obtain ⟨rows, each⟩ := replayable_when_answered run_sampleCalls done_sampleCalls calm_inTurn collisionFree_sampleCalls
  refine ⟨rows.trans (by decide), fun commit member => ?_⟩
  obtain ⟨found, _⟩ := each commit member
  exact found

end Daemon

end AttowNexus
