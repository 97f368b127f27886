import AttowNexus.Proofs.History
import AttowNexus.Proofs.Replay

/-! # Stored history does not change

Calls only add rows to the commits table, so a stored commit is read back unchanged after any further calls.
A replay reads nothing but the commits below its own, and these are all there if it returned once; so it
returns the same ever after.
-/

namespace AttowNexus

open AppState

variable {deps : External} {config : Config} {s t : AppState}

/-- After any run from a reachable state a stored commit is read back unchanged, and a replay that returned
before returns the same result. -/
theorem history_immutable (reachable : Reachable deps config s) {events : List Event}
    (run : Run (Step deps config) s events t) {commitId : String} {commit : Commit}
    (stored : s.store.tables.getCommit commitId = some commit) :
    t.store.tables.getCommit commitId = some commit ∧
      ∀ request result, request.commitId = commitId →
        replayInner deps request s = (.ok result, s) → replayInner deps request t = (.ok result, t) := by
  have grown : s.store.tables.Extends t.store.tables := (writes_of_run run reachable.sound).grows
  refine ⟨grown.keeps stored, fun request result _ before => ?_⟩
  have returned := (replayInner_eq_ok_iff.1 before).1
  exact replayInner_eq_ok_iff.2 ⟨replay_of_grown grown returned, rfl⟩

section Moved

/-- Two checkpoints with a side effect each. -/
private def before : AppState :=
  runCalls .sample Sample.config
    [⟨.checkpoint (Sample.checkpointRequest "r" [] [Sample.sideEffect]), .calm ⟨1, 0⟩ 1⟩,
     ⟨.checkpoint (Sample.checkpointRequest "r" [] [Sample.sideEffect]), .calm ⟨2, 0⟩ 2⟩]

private def head : String := Sample.headOf before "r"

/-- A fork from the head into another run. -/
private def forkCall : Call := ⟨.fork ⟨head, "other", none⟩, .calm ⟨3, 0⟩ 3⟩

/-- A checkpoint in the new run, whose head cannot be moved. -/
private def lateCheckpoint : Call :=
  ⟨.checkpoint (Sample.checkpointRequest "other" [] []),
    { Ambient.calm ⟨4, 0⟩ 4 with fails := fun call => call = .setHead }⟩

theorem history_immutable_moved :
    ∃ (events : List Event) (after : AppState) (result : ReplayResult),
      Run (Step .sample Sample.config) before events after ∧ events.length = 2 ∧
      replayInner .sample ⟨head, 0, false⟩ before = (.ok result, before) ∧
      replayInner .sample ⟨head, 0, false⟩ after = (.ok result, after) ∧
      result.provenanceCommitIds.length = 2 := by
  have listed : (replayInner .sample ⟨head, 0, false⟩ before).1.toOption.map
      (·.provenanceCommitIds.length) = some 2 := by decide
  obtain ⟨result, outcome, length⟩ := Fallible.exists_ok_of_map listed
  have returned := (replayInner_eq_ok_iff.1 outcome).1
  have kept : replayInner .sample ⟨head, 0, false⟩ before = (.ok result, before) :=
    replayInner_eq_ok_iff.2 ⟨returned, rfl⟩
  obtain ⟨commit, stored⟩ := getCommit_of_replay returned
  obtain ⟨first, middle, forked⟩ : ∃ r t, exec .sample Sample.config forkCall before = (r, t) := ⟨_, _, rfl⟩
  obtain ⟨second, after, failed⟩ : ∃ r t, exec .sample Sample.config lateCheckpoint middle = (r, t) := ⟨_, _, rfl⟩
  have one : Step .sample Sample.config before ⟨forkCall, first⟩ middle := forked
  have two : Step .sample Sample.config middle ⟨lateCheckpoint, second⟩ after := failed
  have run := (Run.single one).append (.single two)
  have immutable := history_immutable (reachable_runCalls .sample Sample.config _) run stored
  exact ⟨_, after, result, run, rfl, kept, immutable.2 _ _ rfl kept, length⟩

end Moved

end AttowNexus
