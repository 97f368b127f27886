import AttowNexus.Proofs.Accepted
import AttowNexus.Library.Listing

/-! # Counters and history

A transaction ignores a commit whose id it knows but counts it all the same. Along successful calls the
counters therefore count the accepted commits, which are the stored ones exactly as long as no id comes
back; once one does, the difference stays.
-/

namespace AttowNexus

open AppState

/-- Every reported count is the number of commits that listing them gives. -/
structure CountersAgree (tables : CommitTables) : Prop where
  runs : ∀ summary ∈ tables.listRuns,
    summary.commitCount = (tables.listCommits (some summary.runId) none none).length
  channels : ∀ row ∈ tables.channels, row.durableCount = tables.stored.countP (·.channel = row.channel)

namespace Ledger

variable {ledger : Ledger} {commits : List Commit}

theorem Built.stored_eq_iff (built : Built commits ledger) :
    ledger.tables.stored = commits ↔ (commits.map (·.commitId)).Nodup := by
  constructor
  · intro same
    exact same ▸ built.keyed.stored_nodup
  · intro distinct
    apply built.kept.eq_of_length_le
    have inside : commits.map (·.commitId) ⊆ ledger.tables.stored.map (·.commitId) := by
      intro commitId member
      obtain ⟨commit, listed, rfl⟩ := List.mem_map.mp member
      exact built.ids commit listed
    simpa using distinct.length_le_of_subset inside

/-- Counts per run that agree leave no room for a commit that was counted but not stored. -/
theorem Built.stored_eq_of_countersAgree (built : Built commits ledger) (agree : CountersAgree ledger.tables) :
    ledger.tables.stored = commits := by
  apply Listing.eq_of_sublist_of_countP Commit.runId built.kept
  intro runId
  have fewer := built.kept.countP_le (p := (·.runId = runId))
  have counted := built.runs runId
  rcases Nat.eq_zero_or_pos (ledger.tables.runCount runId) with none | positive
  · omega
  · obtain ⟨summary, listed, rfl, count⟩ := CommitTables.exists_mem_listRuns positive
    have reported := agree.runs summary listed
    rw [CommitTables.length_listCommits_run, ← List.countP_eq_length_filter] at reported
    omega

theorem Built.countersAgree_of_stored_eq (built : Built commits ledger) (counted : ledger.tables.Counted)
    (same : ledger.tables.stored = commits) : CountersAgree ledger.tables where
  runs summary listed := by
    rw [counted.mem_listRuns listed, built.runs, CommitTables.length_listCommits_run, same,
      List.countP_eq_length_filter]
  channels row listed := by rw [counted.mem_channels listed, built.channels, same]

end Ledger

variable {deps : External} {config : Config} {allowed : Request → Prop} {commits : List Commit} {s : AppState}

/-- Along successful calls the counters agree with the tables exactly while all accepted ids differ. -/
theorem countersAgree_iff (accepted : Accepted deps config allowed commits s) :
    CountersAgree s.store.tables ↔ (commits.map (·.commitId)).Nodup := by
  have built := accepted.built
  constructor
  · intro agree
    exact built.stored_eq_iff.mp (built.stored_eq_of_countersAgree agree)
  · intro distinct
    exact built.countersAgree_of_stored_eq accepted.reachable.sound.counted (built.stored_eq_iff.mpr distinct)

section Twice

/-- A checkpoint and a publish on top of it. -/
private def onceCalls : List Call :=
  [Sample.checkpoint "r" 1,
    Sample.publish "r" 1 2 [Sample.headOf (runCalls .sample Sample.config [Sample.checkpoint "r" 1]) "r"]]

/-- The same with the publish delivered twice. -/
private def twiceCalls : List Call :=
  onceCalls ++ [Sample.publish "r" 1 2 [Sample.headOf (runCalls .sample Sample.config [Sample.checkpoint "r" 1]) "r"]]

private theorem durable_twiceCalls : ∀ call ∈ twiceCalls, call.request.Durable := by
  simp [twiceCalls, onceCalls, Sample.checkpoint, Sample.publish, Sample.publishRequest, Request.Durable]

theorem countersAgree_once : CountersAgree (runCalls .sample Sample.config onceCalls).store.tables := by
  have accepted : Accepted .sample Sample.config Request.Durable _ (runCalls .sample Sample.config onceCalls) :=
    accepted_runCalls (fun call member => durable_twiceCalls call (List.mem_append_left _ member))
      (by decide)
  exact (countersAgree_iff accepted).mpr (by decide)

/-- The repeated publish is counted and not stored. -/
theorem countersAgree_fails_twice :
    ¬ ∀ (deps : External) (config : Config) (commits : List Commit) (s : AppState),
      Accepted deps config Request.Durable commits s → CountersAgree s.store.tables := by
  intro claim
  have accepted : Accepted .sample Sample.config Request.Durable _ (runCalls .sample Sample.config twiceCalls) :=
    accepted_runCalls durable_twiceCalls (by decide)
  have built := accepted.built
  have agree := claim _ _ _ _ accepted
  have distinct := built.stored_eq_iff.mp (built.stored_eq_of_countersAgree agree)
  exact absurd distinct (by decide)

end Twice

end AttowNexus
