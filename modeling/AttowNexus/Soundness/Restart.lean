import AttowNexus.Proofs.Accepted

/-! # Restarting the daemon

A restart loads the stored commits by clock, time and id, and appends them to an empty index. The stored
order itself puts parents first, so the loaded one does exactly when no parent comes after its child in
the order of the query; a child with a smaller clock than its parent makes the restart fail.
-/

namespace AttowNexus

open SuccGraph AppState

/-- The place of a commit in the order of `list_commits`. -/
def Commit.loadKey (commit : Commit) : ℤ ×ₗ ℤ ×ₗ String := (CommitRow.ofCommit commit).orderKey

/-- The index can be rebuilt from the tables and states the same parents as the live one. -/
def Recovers (s : AppState) : Prop :=
  ∃ dag, DagIndex.fromCommits s.store.tables.listAllCommits = .ok dag ∧ dag.parents = s.dag.parents

/-- No commit is loaded before one of its parents. -/
def LoadsParentsFirst (commits : List Commit) : Prop :=
  ∀ commit ∈ commits, ∀ parent ∈ commits, parent.commitId ∈ commit.parentCommitIds →
    parent.loadKey ≤ commit.loadKey

instance (commits : List Commit) : Decidable (LoadsParentsFirst commits) :=
  inferInstanceAs (Decidable (∀ commit ∈ commits, ∀ parent ∈ commits,
    parent.commitId ∈ commit.parentCommitIds → parent.loadKey ≤ commit.loadKey))

theorem CommitTables.parentsFirst_listAllCommits_iff {tables : CommitTables} (keyed : tables.Keyed)
    (causal : ParentsFirst (·.commitId) (·.parentCommitIds) tables.stored) :
    ParentsFirst (·.commitId) (·.parentCommitIds) tables.listAllCommits ↔ LoadsParentsFirst tables.stored := by
  have distinct : (tables.commits.map ((·.commitId) ∘ CommitRow.proto)).Nodup := by
    rw [← List.map_map]
    exact keyed.stored_nodup
  rw [listAllCommits_eq, ParentsFirst.map_iff,
    parentsFirst_insertionSort_iff distinct (ParentsFirst.map_iff.1 causal), LoadsParentsFirst]
  constructor
  · intro ordered commit member parent other edge
    obtain ⟨row, inside, rfl⟩ := List.mem_map.mp member
    obtain ⟨above, outside, rfl⟩ := List.mem_map.mp other
    have key := ordered row inside above outside edge
    rwa [keyed.faithful row inside, keyed.faithful above outside] at key
  · intro ordered row inside above outside edge
    have key := ordered row.proto (List.mem_map_of_mem inside) above.proto (List.mem_map_of_mem outside) edge
    rwa [Commit.loadKey, Commit.loadKey, ← keyed.faithful row inside, ← keyed.faithful above outside] at key

namespace Ledger

variable {commits : List Commit} {ledger : Ledger}

/-- When different commits have different ids, the stored commits are the accepted ones. -/
theorem Built.mem_stored_iff (built : Built commits ledger)
    (unique : ∀ c ∈ commits, ∀ d ∈ commits, c.commitId = d.commitId → c = d) {commit : Commit} :
    commit ∈ ledger.tables.stored ↔ commit ∈ commits := by
  constructor
  · exact fun member => built.kept.subset member
  · intro member
    obtain ⟨other, stored, same⟩ := List.mem_map.mp (built.ids commit member)
    rwa [← unique other (built.kept.subset stored) commit member same]

theorem Built.loadsParentsFirst_iff (built : Built commits ledger)
    (unique : ∀ c ∈ commits, ∀ d ∈ commits, c.commitId = d.commitId → c = d) :
    LoadsParentsFirst ledger.tables.stored ↔ LoadsParentsFirst commits := by
  simp only [LoadsParentsFirst, built.mem_stored_iff unique]

/-- Loading succeeds exactly when it meets parents first. -/
theorem Built.loads_iff (built : Built commits ledger) (sound : ledger.Sound) :
    (∃ dag, DagIndex.fromCommits ledger.tables.listAllCommits = .ok dag) ↔
      LoadsParentsFirst ledger.tables.stored := by
  have perm := CommitTables.listAllCommits_perm ledger.tables
  rw [← CommitTables.parentsFirst_listAllCommits_iff built.keyed built.causal]
  apply DagIndex.fromCommits_ok_iff
  · exact (perm.map _).nodup_iff.mpr built.keyed.stored_nodup
  · intro commit member unnamed
    have long := sound.named commit (perm.mem_iff.mp member)
    rw [unnamed] at long
    exact absurd long (by decide)

end Ledger

variable {deps : External} {config : Config} {allowed : Request → Prop} {commits : List Commit} {s : AppState}

theorem loads_of_recovers (accepted : Accepted deps config allowed commits s) (recovers : Recovers s) :
    LoadsParentsFirst s.store.tables.stored := by
  obtain ⟨dag, loaded, _⟩ := recovers
  exact (accepted.built.loads_iff accepted.reachable.sound).mp ⟨dag, loaded⟩

/-- After successful calls a restart recovers the parents of the live index exactly when no accepted commit
comes before one of its parents in the order of clock, time and id. -/
theorem recovers_iff (accepted : Accepted deps config allowed commits s)
    (unique : ∀ c ∈ commits, ∀ d ∈ commits, c.commitId = d.commitId → c = d) :
    Recovers s ↔ LoadsParentsFirst commits := by
  have built := accepted.built
  constructor
  · intro recovers
    exact (built.loadsParentsFirst_iff unique).mp (loads_of_recovers accepted recovers)
  · intro ordered
    obtain ⟨dag, loaded⟩ := (built.loads_iff accepted.reachable.sound).mpr
      ((built.loadsParentsFirst_iff unique).mpr ordered)
    refine ⟨dag, loaded, ?_⟩
    have live : s.dag = .ofCommits commits := built.index
    rw [(DagIndex.fromCommits_ok loaded).1, live]
    refine DagIndex.ofCommits_parents_eq unique fun commit => ?_
    exact (CommitTables.listAllCommits_perm _).mem_iff.trans (built.mem_stored_iff unique)

section Clocks

/-- Two checkpoints in consecutive seconds. -/
private def orderedCalls : List Call := [Sample.checkpoint "r" 1, Sample.checkpoint "r" 2]

/-- A publish with clock 5 and a checkpoint on top of it, which has clock 0. -/
private def earlierClockCalls : List Call := [Sample.publish "r" 5 1 [], Sample.checkpoint "r" 2]

theorem recovers_ordered : Recovers (runCalls .sample Sample.config orderedCalls) := by
  have accepted : Accepted .sample Sample.config Request.Durable _ (runCalls .sample Sample.config orderedCalls) :=
    accepted_runCalls (by simp [orderedCalls, Sample.checkpoint, Request.Durable]) (by decide)
  have distinct : ((commitsOfCalls .sample Sample.config orderedCalls .initial).map (·.commitId)).Nodup := by
    decide
  exact (recovers_iff accepted fun c here d there => List.inj_on_of_nodup_map distinct here there).mpr
    (by decide)

/-- The child is loaded first, and its parent is unknown then. -/
theorem recovers_fails_earlierClock :
    ¬ ∀ (deps : External) (config : Config) (commits : List Commit) (s : AppState),
      Accepted deps config Request.Durable commits s →
      (∀ c ∈ commits, ∀ d ∈ commits, c.commitId = d.commitId → c = d) → Recovers s := by
  intro claim
  have accepted : Accepted .sample Sample.config Request.Durable _
      (runCalls .sample Sample.config earlierClockCalls) :=
    accepted_runCalls (by simp [earlierClockCalls, Sample.checkpoint, Sample.publish, Sample.publishRequest,
      Request.Durable]) (by decide)
  have distinct : ((commitsOfCalls .sample Sample.config earlierClockCalls .initial).map (·.commitId)).Nodup := by
    decide
  have recovers := claim _ _ _ _ accepted fun c here d there => List.inj_on_of_nodup_map distinct here there
  exact absurd (loads_of_recovers accepted recovers) (by decide)

end Clocks

end AttowNexus
