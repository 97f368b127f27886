import AttowNexus.Proofs.History

/-! # What a failed request leaves behind

An operation writes the index, the tables and a head one after the other and returns at the first store
call that fails; nothing takes the earlier writes back. The ledger is the same as before exactly when no
write was reached, or when every write that was reached found its value there already.
-/

namespace AttowNexus

open AppState

namespace Ledger

variable {ambient : Ambient} {commit : Commit} {start finish : Ledger}

/-- The index, the stored commits and the heads are the same. -/
structure Same (start finish : Ledger) : Prop where
  dag : finish.dag = start.dag
  commits : finish.tables.commits = start.tables.commits
  heads : finish.heads = start.heads

theorem Same.refl (ledger : Ledger) : Same ledger ledger := ⟨rfl, rfl, rfl⟩

/-- Each write of `persist_commit` that is reached finds its value there. -/
def RecordsNothing (ledger : Ledger) (ambient : Ambient) (commit : Commit) : Prop :=
  ledger.dag.Accepts commit →
    (commit.parentCommitIds = [] ∧ ledger.dag.parents.lookup commit.commitId = some []) ∧
    (ambient.fails .appendCommit = false →
      commit.commitId ∈ ledger.tables.commits.map (·.commitId) ∧
      (ambient.fails .setHead = false → headOf ledger.heads commit.lineage = some commit.commitId))

/-- The write of a head is not reached or finds its value there. -/
def MovesNothing (ledger : Ledger) (ambient : Ambient) (lineage : Lineage) (commitId : String) : Prop :=
  ambient.fails .setHead = false → headOf ledger.heads lineage = some commitId

theorem Recorded.same_iff (headKeys : (start.heads.map (·.headKey)).Nodup)
    (recorded : Recorded ambient commit start false finish) : Same start finish ↔ start.RecordsNothing ambient commit := by
  cases recorded with
  | refused refuses => exact iff_of_true (.refl _) fun accepts => absurd accepts refuses
  | unstored accepts fails =>
    constructor
    · intro same _
      exact ⟨DagIndex.record_eq_self_iff.1 same.dag, fun works => absurd (fails.symm.trans works) nofun⟩
    · intro nothing
      exact ⟨DagIndex.record_eq_self_iff.2 (nothing accepts).1, rfl, rfl⟩
  | headless accepts stores fails =>
    constructor
    · intro same _
      exact ⟨DagIndex.record_eq_self_iff.1 same.dag, fun _ =>
        ⟨CommitTables.commits_appendCommit_eq_iff.1 same.commits, fun works => absurd (fails.symm.trans works) nofun⟩⟩
    · intro nothing
      obtain ⟨index, tables⟩ := nothing accepts
      exact ⟨DagIndex.record_eq_self_iff.2 index,
        CommitTables.commits_appendCommit_eq_iff.2 (tables stores).1, rfl⟩
  | persisted accepts stores moves =>
    constructor
    · intro same _
      exact ⟨DagIndex.record_eq_self_iff.1 same.dag, fun _ =>
        ⟨CommitTables.commits_appendCommit_eq_iff.1 same.commits, fun _ =>
          (moveHead_eq_self_iff headKeys).mp same.heads⟩⟩
    · intro nothing
      obtain ⟨index, tables⟩ := nothing accepts
      obtain ⟨known, head⟩ := tables stores
      exact ⟨DagIndex.record_eq_self_iff.2 index, CommitTables.commits_appendCommit_eq_iff.2 known,
        (moveHead_eq_self_iff headKeys).mpr (head moves)⟩

theorem same_setHead_iff (headKeys : (start.heads.map (·.headKey)).Nodup) (moves : ambient.fails .setHead = false)
    {lineage : Lineage} {commitId : String} :
    Same start (start.setHead lineage commitId) ↔ start.MovesNothing ambient lineage commitId := by
  constructor
  · intro same _
    exact (moveHead_eq_self_iff headKeys).mp same.heads
  · intro nothing
    exact ⟨rfl, rfl, (moveHead_eq_self_iff headKeys).mpr (nothing moves)⟩

theorem RolledBack.same_iff {request : RollbackRequest} {error : Error}
    (headKeys : (start.heads.map (·.headKey)).Nodup)
    (rolledBack : RolledBack ambient request start (.error error) finish) :
    Same start finish ↔ ∀ head target, start.AdmitsRollback ambient request head target →
      start.MovesNothing ambient head.lineage target.commitId := by
  cases rolledBack with
  | rejected rejects => exact iff_of_true (.refl _) fun head target admits => absurd admits (rejects head target)
  | headless _ fails =>
    exact iff_of_true (.refl _) fun _ _ _ works => absurd (fails.symm.trans works) nofun
  | @unlogged head target admits moves =>
    rw [same_setHead_iff headKeys moves]
    constructor
    · intro nothing head' target' admits'
      obtain rfl : head = head' := Option.some.inj (admits.head.symm.trans admits'.head)
      obtain rfl : target = target' := Option.some.inj (admits.target.symm.trans admits'.target)
      exact nothing
    · exact fun nothing => nothing head target admits

theorem Forked.same_iff {request : ForkRequest} {error : Error} (headKeys : (start.heads.map (·.headKey)).Nodup)
    (forked : Forked ambient request start (.error error) finish) :
    Same start finish ↔ ∀ source, start.AdmitsFork ambient request source →
      start.MovesNothing ambient (forkLineage ambient request source) source.commitId := by
  cases forked with
  | rejected rejects => exact iff_of_true (.refl _) fun source admits => absurd admits (rejects source)
  | headless _ fails =>
    exact iff_of_true (.refl _) fun _ _ works => absurd (fails.symm.trans works) nofun
  | @unlogged source admits moves =>
    rw [same_setHead_iff headKeys moves]
    constructor
    · intro nothing source' admits'
      obtain rfl : source = source' := Option.some.inj (admits.source.symm.trans admits'.source)
      exact nothing
    · exact fun nothing => nothing source admits

end Ledger

variable {deps : External} {config : Config} {s t : AppState}

/-- What the request has written when it fails was there before. -/
def FailsHarmlessly (deps : External) (config : Config) (call : Call) (s : AppState) : Prop :=
  match call.request with
  | .registerAgent _ => True
  | .publishDelta request => ∀ delta, AdmitsPublish deps config call.ambient s request delta →
      Persists config delta →
      s.ledger.RecordsNothing call.ambient (publishCommit deps config call.ambient s.store.heads request delta)
  | .checkpoint request => AdmitsCheckpoint deps config call.ambient s request →
      s.ledger.RecordsNothing call.ambient (checkpointCommit deps config call.ambient s.store.heads request)
  | .rollback request => ∀ head target, s.ledger.AdmitsRollback call.ambient request head target →
      s.ledger.MovesNothing call.ambient head.lineage target.commitId
  | .fork request => ∀ source, s.ledger.AdmitsFork call.ambient request source →
      s.ledger.MovesNothing call.ambient (Ledger.forkLineage call.ambient request source) source.commitId

private theorem eq_error_of_map {α β : Type} {r : Except Error α} {wrap : α → β} {error : Error}
    (failure : Except.error error = r.map wrap) : r = .error error := by
  cases r with
  | error other => exact congrArg Except.error (Except.error.inj failure).symm
  | ok answer => exact absurd failure nofun

/-- A request that fails leaves the index, the stored commits and the heads as they were exactly when it
fails harmlessly. -/
theorem failedRequest_keeps_iff (reachable : Reachable deps config s) {call : Call} {error : Error}
    (run : exec deps config call s = (.error error, t)) :
    s.ledger.Same t.ledger ↔ FailsHarmlessly deps config call s := by
  obtain ⟨request, ambient⟩ := call
  have headKeys := reachable.sound.headKeys
  cases request with
  | registerAgent request => exact iff_of_true (step_registerAgent run ▸ .refl _) trivial
  | publishDelta request =>
    obtain ⟨r, called, failure⟩ := step_publishDelta run
    obtain rfl := eq_error_of_map failure
    rcases publishDeltaInner_cases called with ⟨rejects, _, same⟩ | ⟨_, _, _, ⟨_, answered, _⟩, _⟩ |
        ⟨delta, admits, persists, recorded, _⟩
    · exact iff_of_true (same ▸ .refl _) fun delta admits => absurd admits (rejects delta)
    · exact absurd answered nofun
    · refine (recorded.same_iff headKeys).trans ⟨fun nothing other admits' _ => ?_, fun all => all delta admits persists⟩
      obtain rfl : delta = other := Option.some.inj (admits.given.symm.trans admits'.given)
      exact nothing
  | checkpoint request =>
    obtain ⟨r, called, failure⟩ := step_checkpoint run
    obtain rfl := eq_error_of_map failure
    rcases checkpointInner_cases called with ⟨rejects, _, same⟩ | ⟨admits, recorded, _⟩
    · exact iff_of_true (same ▸ .refl _) fun admits => absurd admits rejects
    · exact (recorded.same_iff headKeys).trans ⟨fun nothing _ => nothing, fun all => all admits⟩
  | rollback request =>
    obtain ⟨r, called, failure⟩ := step_rollback run
    obtain rfl := eq_error_of_map failure
    exact (rollbackInner_rolledBack called).same_iff headKeys
  | fork request =>
    obtain ⟨r, called, failure⟩ := step_fork run
    obtain rfl := eq_error_of_map failure
    exact (forkInner_forked called).same_iff headKeys

section Sample

/-- A run with a root and a commit on it -/
private def extended : AppState := runCalls .sample Sample.config [Sample.checkpoint "r" 1, Sample.checkpoint "r" 2]

private def extendedRoot : String := Sample.headOf (runCalls .sample Sample.config [Sample.checkpoint "r" 1]) "r"

private def backToExtendedRoot : RollbackRequest := ⟨Sample.headOf extended "r", extendedRoot, false⟩

/-- A rollback to the root whose write of the head fails -/
private def unmoved : Call :=
  ⟨.rollback backToExtendedRoot, { Ambient.calm ⟨3, 0⟩ 3 with fails := fun call => call = .setHead }⟩

/-- The rollback fails at its last call of the store only. -/
theorem failedRequest_keeps_unmoved : ∃ t,
    exec .sample Sample.config unmoved extended = (.error (.store .setHead), t) ∧ extended.ledger.Same t.ledger ∧
      (exec .sample Sample.config ⟨.rollback backToExtendedRoot, .calm ⟨3, 0⟩ 3⟩ extended).1.isOk = true := by
  have reachable : Reachable .sample Sample.config extended := reachable_runCalls _ _ _
  obtain ⟨t, run⟩ : ∃ t, exec .sample Sample.config unmoved extended = (.error (.store .setHead), t) := ⟨_, rfl⟩
  refine ⟨t, run, (failedRequest_keeps_iff reachable run).mpr fun head target _ works => ?_, by decide⟩
  exact absurd works (by decide)

/-- A first checkpoint whose transaction fails. -/
private def unstored : Call :=
  ⟨.checkpoint (Sample.checkpointRequest "r" [] []),
    { Ambient.calm ⟨1, 0⟩ 1 with fails := fun call => call = .appendCommit }⟩

/-- The index knows a commit that is not stored. -/
theorem failedCheckpoint_indexes :
    ¬ ∀ (deps : External) (config : Config) (s t : AppState) (call : Call) (error : Error),
      Reachable deps config s → exec deps config call s = (.error error, t) → s.ledger.Same t.ledger := by
  intro claim
  have reachable : Reachable .sample Sample.config .initial := ⟨[], .nil⟩
  have failed : (exec .sample Sample.config unstored .initial).1.isOk = false := by decide
  have grown : (exec .sample Sample.config unstored .initial).2.dag.parents.keys.card = 1 := by decide
  rcases run : exec .sample Sample.config unstored .initial with ⟨error | answer, t⟩
  · have same := claim _ _ _ t unstored error reachable run
    have dag : t.dag = .empty := same.dag
    rw [run] at grown
    simp only [dag] at grown
    exact absurd grown (by decide)
  · rw [run] at failed
    exact absurd failed nofun

end Sample

end AttowNexus
