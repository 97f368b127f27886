import AttowNexus.Library.Graph.Unfolding
import AttowNexus.Proofs.Accepted
import AttowNexus.Proofs.Intact

/-! # The commits that a replay reads

`collect` asks the store for a commit before it looks whether the commit is already collected, and it
collects the parents in any case. The ids it asks for are the unfolding of the ancestry into its paths. So it
asks for each ancestor once exactly when no ancestor is listed twice as a parent; `collect_ancestry` of the
index looks first.
-/

namespace AttowNexus

open SuccGraph AppState

variable {deps : External} {config : Config} {s : AppState} {tables : CommitTables} {commit : Commit}
  {commitId : String}

namespace CommitTables

/-- `collect` with the ids that it passes to `get_commit`. -/
def collectReads (tables : CommitTables) : ℕ → String → List Commit → Fallible (List String) Error (List Commit)
  | 0, _, _ => .fail (.message "stack overflow")
  | fuel + 1, commitId, out => do
      Fallible.modify (· ++ [commitId])
      match tables.getCommit commitId with
      | none => Fallible.fail (.message ("commit " ++ commitId ++ " not found"))
      | some commit => do
          let below ← commit.parentCommitIds.foldlM (fun out parent => collectReads tables fuel parent out) out
          if below.any (·.commitId = commit.commitId) then pure below else pure (below ++ [commit])

/-- The ids that `ancestry_commits` passes to `get_commit`. -/
def ancestryReads (tables : CommitTables) (commitId : String) : List String :=
  (collectReads tables (tables.commits.length + 1) commitId [] []).2

/-- A loop whose steps return what plain steps return does so too. -/
theorem foldlM_fst {step : List Commit → String → Fallible (List String) Error (List Commit)}
    {plain : List Commit → String → Except Error (List Commit)}
    (same : ∀ out commitId reads, (step out commitId reads).1 = plain out commitId) (commitIds : List String)
    (out : List Commit) (reads : List String) :
    (commitIds.foldlM step out reads).1 = commitIds.foldlM plain out := by
  induction commitIds generalizing out reads with
  | nil => rfl
  | cons commitId rest ih =>
    rw [List.foldlM_cons, List.foldlM_cons, ← same out commitId reads]
    cases here : step out commitId reads with
    | mk outcome after =>
      cases outcome with
      | error error =>
        rw [Fallible.bind_of_error here]
        rfl
      | ok middle =>
        rw [Fallible.bind_of_ok here]
        exact ih middle after

/-- Noting the reads does not change what is collected. -/
theorem collectReads_fst (fuel : ℕ) (commitId : String) (out : List Commit) (reads : List String) :
    (collectReads tables fuel commitId out reads).1 = collect tables fuel commitId out := by
  induction fuel generalizing commitId out reads with
  | zero => rfl
  | succ fuel ih =>
    rw [collectReads, collect, Fallible.bind_of_ok (Fallible.modify_eq_iff.2 ⟨rfl, rfl⟩)]
    cases tables.getCommit commitId with
    | none => rfl
    | some commit =>
      have loop := foldlM_fst (fun out parent reads => ih parent out reads) commit.parentCommitIds out
        (reads ++ [commitId])
      dsimp only
      rw [← loop]
      cases here : commit.parentCommitIds.foldlM (fun out parent => collectReads tables fuel parent out) out
          (reads ++ [commitId]) with
      | mk outcome after =>
        cases outcome with
        | error error =>
          rw [Fallible.bind_of_error here]
          rfl
        | ok below =>
          rw [Fallible.bind_of_ok here]
          change _ = if below.any (·.commitId = commit.commitId) then Except.ok below else .ok (below ++ [commit])
          split <;> rfl

/-- A level that returns has read its own id and then what the parents read. -/
theorem collectReads_succ_ok {fuel : ℕ} {before after : List Commit} {reads done : List String}
    (run : collectReads tables (fuel + 1) commitId before reads = (.ok after, done)) :
    ∃ below, (tables.parentsOf commitId).foldlM (fun out parent => collectReads tables fuel parent out) before
      (reads ++ [commitId]) = (.ok below, done) := by
  rw [collectReads, Fallible.bind_of_ok (Fallible.modify_eq_iff.2 ⟨rfl, rfl⟩)] at run
  cases found : tables.getCommit commitId with
  | none => simp [found] at run
  | some commit =>
    simp only [found] at run
    obtain ⟨below, middle, loop, rest⟩ := Fallible.bind_eq_ok_iff.1 run
    obtain rfl : done = middle := by
      split at rest
      · exact (Fallible.pure_eq_iff.1 rest).2
      · exact (Fallible.pure_eq_iff.1 rest).2
    refine ⟨below, ?_⟩
    rwa [parentsOf, found]

theorem foldlM_unfolds {step : List Commit → String → Fallible (List String) Error (List Commit)}
    {next : String → List String} {commitIds : List String}
    (reads : ∀ {commitId before after start done}, step before commitId start = (.ok after, done) →
      ∃ trace, Unfolds next [commitId] trace ∧ done = start ++ trace)
    {before after : List Commit} {start done : List String}
    (run : commitIds.foldlM step before start = (.ok after, done)) :
    ∃ trace, Unfolds next commitIds trace ∧ done = start ++ trace := by
  induction commitIds generalizing before start with
  | nil =>
    obtain ⟨-, rfl⟩ := Fallible.pure_eq_iff.1 run
    exact ⟨[], .nil, (List.append_nil _).symm⟩
  | cons commitId rest ih =>
    rw [List.foldlM_cons] at run
    obtain ⟨middle, between, here, later⟩ := Fallible.bind_eq_ok_iff.1 run
    obtain ⟨first, unfolded, rfl⟩ := reads here
    obtain ⟨second, others, rfl⟩ := ih later
    exact ⟨first ++ second, unfolded.append others, List.append_assoc _ _ _⟩

/-- A run that returns has read the unfolding of the ancestry. -/
theorem collectReads_unfolds {fuel : ℕ} {before after : List Commit} {reads done : List String}
    (run : collectReads tables fuel commitId before reads = (.ok after, done)) :
    ∃ trace, Unfolds tables.parentsOf [commitId] trace ∧ done = reads ++ trace := by
  induction fuel generalizing commitId before after reads done with
  | zero => simp [collectReads] at run
  | succ fuel ih =>
    obtain ⟨below, loop⟩ := collectReads_succ_ok run
    obtain ⟨trace, unfolded, rfl⟩ := foldlM_unfolds ih loop
    exact ⟨commitId :: trace ++ [], .cons unfolded .nil, by simp⟩

/-- An ancestry that is read is read once exactly when it has one path to each member. -/
theorem ancestryReads_iff {listed : List Commit} (read : ancestryCommits tables commitId = .ok listed) :
    (∀ ancestor, Reach tables.parentsOf commitId ancestor → (tables.ancestryReads commitId).count ancestor = 1) ↔
      OnePath tables.parentsOf commitId := by
  have same : (collectReads tables (tables.commits.length + 1) commitId [] []).1 = ancestryCommits tables commitId :=
    collectReads_fst _ _ _ _
  obtain ⟨trace, unfolded, done⟩ := collectReads_unfolds (Prod.ext (same.trans read) rfl)
  have reads : tables.ancestryReads commitId = trace := done
  rw [← unfolded.nodup_iff, List.nodup_iff_count_eq_one, reads]
  exact forall_congr' fun ancestor => by rw [unfolded.reach_iff]

end CommitTables

/-- When no commit of the history was lost while it was stored, every ancestry is collected. -/
theorem History.ancestryCommits_ok {events : List Event} (history : History deps config events s)
    (stores : ∀ event ∈ events, event.Stores) (stored : commit ∈ s.store.tables.stored) :
    ∃ listed, ancestryCommits s.store.tables commit.commitId = .ok listed := by
  have reachable : Reachable deps config s := ⟨events, history⟩
  obtain ⟨listed, read, _⟩ := CommitTables.ancestryCommits_ok reachable.keyed (history.intact stores).causal stored
  exact ⟨listed, read⟩

/-- While an ancestry is collected, the store is asked for the commit and each of its ancestors exactly once. -/
def ReadsOnce (tables : CommitTables) (commitId : String) : Prop :=
  ∀ ancestor, Reach tables.parentsOf commitId ancestor → (tables.ancestryReads commitId).count ancestor = 1

/-- Whenever the ancestry of a stored commit is collected, each ancestor is read once exactly when no ancestor has two
entries as a parent. It is always collected when no commit of the history was lost while it was stored. -/
theorem replay_reads_once_iff {events : List Event} (history : History deps config events s)
    (stored : commit ∈ s.store.tables.stored) :
    (∀ listed, ancestryCommits s.store.tables commit.commitId = .ok listed →
        (ReadsOnce s.store.tables commit.commitId ↔ OnePath s.store.tables.parentsOf commit.commitId)) ∧
      ((∀ event ∈ events, event.Stores) → ∃ listed, ancestryCommits s.store.tables commit.commitId = .ok listed) := by
  refine ⟨fun listed read => CommitTables.ancestryReads_iff read, fun stores => ?_⟩
  exact history.ancestryCommits_ok stores stored

section Shared

private def rootCalls : List Call := [Sample.checkpoint "r" 1]

private def rootId : String := Sample.headOf (runCalls .sample Sample.config rootCalls) "r"

private def rowCalls : List Call := rootCalls ++ [Sample.checkpoint "r" 2]

private def rowState : AppState := runCalls .sample Sample.config rowCalls

/-- A chain and a branch on one root. -/
private def parallelCalls : List Call :=
  rowCalls ++ [⟨.checkpoint (Sample.checkpointRequest "q" [rootId] []), .calm ⟨3, 0⟩ 3⟩]

private def parallelState : AppState := runCalls .sample Sample.config parallelCalls

/-- Both tips merged into one commit. -/
private def crossingCalls : List Call :=
  parallelCalls ++ [⟨.checkpoint (Sample.checkpointRequest "r"
    [Sample.headOf parallelState "r", Sample.headOf parallelState "q"] []), .calm ⟨4, 0⟩ 4⟩]

private def crossingState : AppState := runCalls .sample Sample.config crossingCalls

/-- The tip of a chain -/
theorem replay_reads_once_iff_chain : ∃ commit ∈ rowState.store.tables.stored,
    commit.parentCommitIds = [rootId] ∧ ReadsOnce rowState.store.tables commit.commitId := by
  obtain ⟨events, made, history⟩ := history_runCalls .sample Sample.config rowCalls
  have tip : ∃ commit ∈ rowState.store.tables.stored, commit.parentCommitIds = [rootId] := by decide
  obtain ⟨commit, stored, parents⟩ := tip
  refine ⟨commit, stored, parents, ?_⟩
  obtain ⟨iff, read⟩ := replay_reads_once_iff history stored
  obtain ⟨listed, read⟩ := read (history_stores made (by decide))
  refine (iff listed read).2 fun v path => ?_
  have closed : ∀ z ∈ rowState.store.tables.stored.map (·.commitId), ∀ w ∈ rowState.store.tables.parentsOf z,
      w ∈ rowState.store.tables.stored.map (·.commitId) := by decide
  have inside : ∀ x, Reach rowState.store.tables.parentsOf commit.commitId x →
      x ∈ rowState.store.tables.stored.map (·.commitId) := fun x path =>
    path.mem_of_closed {x | x ∈ rowState.store.tables.stored.map Commit.commitId} closed (List.mem_map_of_mem stored)
  have each : ∀ v ∈ rowState.store.tables.stored.map (·.commitId),
      (rowState.store.tables.parentsOf v).Nodup ∧
        ∀ w ∈ rowState.store.tables.stored.map (·.commitId), ∀ p ∈ rowState.store.tables.parentsOf v,
          p ∈ rowState.store.tables.parentsOf w → v = w := by decide
  obtain ⟨once, only⟩ := each v (inside v path)
  exact ⟨once, fun w other => only w (inside w other)⟩

/-- The replay of the merge reads the root twice. -/
theorem replay_reads_root_twice :
    ¬ ∀ (deps : External) (config : Config) (events : List Event) (s : AppState) (commit : Commit),
      History deps config events s → commit ∈ s.store.tables.stored →
      (∃ listed, ancestryCommits s.store.tables commit.commitId = .ok listed) →
      ReadsOnce s.store.tables commit.commitId := by
  intro claim
  obtain ⟨events, made, history⟩ : ∃ events : List Event, events.map (·.call) = crossingCalls ∧
      History .sample Sample.config events crossingState := history_runCalls .sample Sample.config crossingCalls
  have stores : ∀ call ∈ crossingCalls, call.ambient.fails .appendCommit = false := by
    simp [crossingCalls, parallelCalls, rowCalls, rootCalls, Sample.checkpoint, Ambient.calm]
  have merge : ∃ commit ∈ crossingState.store.tables.stored,
      (crossingState.store.tables.ancestryReads commit.commitId).count rootId = 2 ∧
      ∃ side ∈ crossingState.store.tables.parentsOf commit.commitId,
        rootId ∈ crossingState.store.tables.parentsOf side := by
    decide +kernel
  obtain ⟨commit, stored, twice, side, below, edge⟩ := merge
  have read := history.ancestryCommits_ok (history_stores made stores) stored
  have once : ReadsOnce crossingState.store.tables commit.commitId :=
    claim .sample Sample.config events crossingState commit history stored read
  have path : Reach crossingState.store.tables.parentsOf commit.commitId rootId := .head below (.single edge)
  exact absurd ((once rootId path).symm.trans twice) (by decide)

end Shared

end AttowNexus
