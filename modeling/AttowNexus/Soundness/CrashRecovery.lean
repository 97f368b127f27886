import AttowNexus.Soundness.InterleavedLedger
import AttowNexus.Library.Graph.Agreement

/-! # A crash at any moment

The tables are all that is left of a daemon that stops while calls are on their way. A new daemon can load them exactly
when their order puts parents first, and then it gives the same answers about every stored commit as the old one did,
although the old index may have known more.
-/

namespace AttowNexus

open SuccGraph

section Agreement

variable {parents parents' : ParentMap} {commitId : String}

/-- What a map says of a commit depends on the commits that it reaches only. -/
theorem ParentMap.collectAncestry_congr (agree : ∀ y, Reach parents.next commitId y → parents'.next y = parents.next y) :
    parents'.collectAncestry commitId = parents.collectAncestry commitId := by
  rw [collectAncestry, collectAncestry]
  exact congrArg Prod.snd (postOrder_congr (fun _ unknown => next_of_notMem unknown)
    (fun _ unknown => next_of_notMem unknown) (Nat.lt_succ_self _) (Nat.lt_succ_self _) agree)

theorem DagIndex.isAncestor_congr {dag dag' : DagIndex}
    (agree : ∀ y, Reach dag.parents.next commitId y → dag'.parents.next y = dag.parents.next y) (ancestor : String) :
    dag'.isAncestor ancestor commitId = dag.isAncestor ancestor commitId := by
  rw [Bool.eq_iff_iff, isAncestor_iff, isAncestor_iff]
  exact reach_congr_iff agree

end Agreement

namespace Daemon

variable {deps : External} {config : Config} {moves : List (Pool.Move Call)} {calls : Calls} {daemon : Daemon}
  {app : AppState}

theorem restart_eq_ok_iff {store : SqliteStore} :
    AppState.restart store = .ok app ↔
      ∃ dag, DagIndex.fromCommits store.tables.listAllCommits = .ok dag ∧ app = .new store dag := by
  rw [AppState.restart]
  cases DagIndex.fromCommits store.tables.listAllCommits with
  | error refusal => simp [bind, Except.bind]
  | ok dag => simp [bind, Except.bind, pure, Except.pure, eq_comm]

theorem Consistent.named_listed (consistent : daemon.Consistent deps) (free : CollisionFree deps daemon.indexed) :
    ∀ commit ∈ daemon.app.store.tables.listAllCommits, commit.commitId ≠ "" := by
  intro commit member unnamed
  have long := (consistent.sound free).named commit
    ((CommitTables.listAllCommits_perm _).mem_iff.mp member)
  rw [unnamed] at long
  exact absurd long (by decide)

/-- The loaded index knows the stored commits and nothing else, with the parents that they state. -/
theorem Consistent.lookup_loaded (consistent : daemon.Consistent deps) {commitId : String}
    (known : commitId ∈ (DagIndex.ofCommits daemon.app.store.tables.listAllCommits).parents) :
    ∃ commit ∈ daemon.app.store.tables.stored, commit.commitId = commitId ∧
      (DagIndex.ofCommits daemon.app.store.tables.listAllCommits).parents.lookup commitId =
        some commit.parentCommitIds := by
  obtain ⟨commit, member, rfl⟩ := List.mem_map.mp (DagIndex.mem_ofCommits_iff.mp known)
  have perm := CommitTables.listAllCommits_perm daemon.app.store.tables
  refine ⟨commit, perm.mem_iff.mp member, rfl, DagIndex.lookup_ofCommits (fun c here d there same => ?_) member⟩
  exact List.inj_on_of_nodup_map consistent.keyed.stored_nodup (perm.mem_iff.mp here) (perm.mem_iff.mp there) same

/-- Whenever the daemon stops, a new one can load the tables exactly when their order puts parents first. Then its
ledger is sound, its heads name stored commits, and it answers every question about the ancestry of a stored commit as
the old daemon would have. -/
theorem recovery_after_crash (run : SideBySide deps config moves calls) (free : CollisionFree deps calls.state.indexed) :
    ((∃ app, AppState.restart calls.state.app.store = .ok app) ↔
      ParentsFirst (·.commitId) (·.parentCommitIds) calls.state.app.store.tables.listAllCommits) ∧
    ∀ app, AppState.restart calls.state.app.store = .ok app →
      app.ledger.Sound ∧ app.ledger.HeadsStored ∧ app.store = calls.state.app.store ∧
      ∀ commitId, calls.state.Stores commitId →
        app.dag.ancestry commitId = calls.state.app.dag.ancestry commitId ∧
        ∀ ancestor, app.dag.isAncestor ancestor commitId = calls.state.app.dag.isAncestor ancestor commitId := by
  have consistent := (SideBySide.grown run).state
  have sound := consistent.sound free
  have perm := CommitTables.listAllCommits_perm calls.state.app.store.tables
  have distinct : (calls.state.app.store.tables.listAllCommits.map (·.commitId)).Nodup :=
    (perm.map _).nodup_iff.mpr consistent.keyed.stored_nodup
  constructor
  · rw [← DagIndex.fromCommits_ok_iff distinct (consistent.named_listed free)]
    simp only [restart_eq_ok_iff]
    constructor
    · rintro ⟨_, dag, built, _⟩
      exact ⟨dag, built⟩
    · rintro ⟨dag, built⟩
      exact ⟨_, dag, built, rfl⟩
  · intro app restarted
    obtain ⟨dag, built, rfl⟩ := restart_eq_ok_iff.mp restarted
    obtain ⟨rfl, wellFormed⟩ := DagIndex.fromCommits_ok built
    have known : ∀ commit ∈ calls.state.app.store.tables.stored,
        commit.commitId ∈ (DagIndex.ofCommits calls.state.app.store.tables.listAllCommits).parents := fun commit member =>
      DagIndex.mem_ofCommits_iff.mpr (List.mem_map_of_mem (perm.mem_iff.mpr member))
    refine ⟨⟨wellFormed, sound.keyed, sound.counted, sound.headKeys, sound.named, known⟩, consistent.headsStored, rfl,
      fun commitId stores => ?_⟩
    obtain ⟨commit, found⟩ := stores
    obtain ⟨member, rfl⟩ := consistent.keyed.getCommit_eq_some_iff.mp found
    have agree : ∀ y, Reach (DagIndex.ofCommits calls.state.app.store.tables.listAllCommits).parents.next
        commit.commitId y → calls.state.app.dag.parents.next y =
          (DagIndex.ofCommits calls.state.app.store.tables.listAllCommits).parents.next y := by
      intro y path
      obtain ⟨other, inside, rfl, loaded⟩ :=
        consistent.lookup_loaded (wellFormed.mem_of_reach (known commit member) path)
      rw [ParentMap.next_of_lookup loaded,
        ParentMap.next_of_lookup (consistent.lookup_parents free (consistent.stored other inside))]
    exact ⟨(ParentMap.collectAncestry_congr agree).symm, fun ancestor => (DagIndex.isAncestor_congr agree ancestor).symm⟩

section Sample

/-- Both commits are indexed, and the daemon stops when only the first is in the tables. -/
private def cutShort : List (Pool.Move Call) := inTurn.take 13

private def cutCalls : Calls :=
  (cutShort.foldlM (Pool.perform (serve .sample Sample.config)) (.idle initial)).getD (.idle initial)

theorem recovery_after_crash_halfway :
    cutCalls.state.indexed.length = 2 ∧ cutCalls.state.app.store.tables.stored.length = 1 ∧
    ∃ app, AppState.restart cutCalls.state.app.store = .ok app ∧ app.ledger.Sound ∧ app.ledger.HeadsStored := by
  have run : SideBySide .sample Sample.config cutShort cutCalls :=
    Pool.run_of_performs (Option.eq_some_of_isSome (by decide))
  have free : CollisionFree .sample cutCalls.state.indexed := collisionFree_of_nodup (by decide)
  have loads : (AppState.restart cutCalls.state.app.store).toOption.isSome = true := by decide
  obtain ⟨_, recovers⟩ := recovery_after_crash run free
  cases restarted : AppState.restart cutCalls.state.app.store with
  | error refusal =>
    rw [restarted] at loads
    cases loads
  | ok app =>
    obtain ⟨sound, heads, _⟩ := recovers app restarted
    exact ⟨by decide, by decide, app, rfl, sound, heads⟩

end Sample

end Daemon

end AttowNexus
