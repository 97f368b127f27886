import AttowNexus.Proofs.Intact
import AttowNexus.Proofs.Naming

/-! # A commit id stands for a whole history

The name of a commit is cut from the hash of an encoding that contains the names of its parents. So two
daemons that store a commit under one id store the same commit, below it the same commits all the way down,
and reconstruct the same state from it.
-/

namespace AttowNexus

open SuccGraph AppState

/-- The stored commits in the ancestry of a commit, itself included. -/
def AppState.ancestors (s : AppState) (commitId : String) : Set Commit :=
  {commit | commit ∈ s.store.tables.stored ∧ Reach s.store.tables.parentsOf commitId commit.commitId}

section Agreement

variable {deps : External} {config config' : Config} {s s' : AppState}

/-- Without collisions two daemons agree on every id that both have. -/
theorem Reachable.commits_agree (left : Reachable deps config s) (right : Reachable deps config' s')
    (free : CollisionFree deps (s.store.tables.stored ++ s'.store.tables.stored)) {c d : Commit}
    (here : c ∈ s.store.tables.stored) (there : d ∈ s'.store.tables.stored) (same : c.commitId = d.commitId) :
    c = d :=
  free.eq_of_commitId_eq (List.mem_append_left _ here) (List.mem_append_right _ there) (left.sealed here)
    (right.sealed there) same

theorem Reachable.ancestries_agree (left : Reachable deps config s) (right : Reachable deps config' s')
    (free : CollisionFree deps (s.store.tables.stored ++ s'.store.tables.stored)) {commitId : String}
    {here there : List Commit} (first : ancestryCommits s.store.tables commitId = .ok here)
    (second : ancestryCommits s'.store.tables commitId = .ok there) : here = there := by
  refine CommitTables.collect_agree (fun other c d found found' => ?_) first second
  obtain ⟨stored, named⟩ := left.keyed.getCommit_eq_some_iff.mp found
  obtain ⟨stored', named'⟩ := right.keyed.getCommit_eq_some_iff.mp found'
  exact left.commits_agree right free stored stored' (named.trans named'.symm)

end Agreement

variable {deps : External} {config config' : Config} {events events' : List Event} {s s' : AppState}

/-- Two daemons with a commit of one id have the same commit there, and replays of it that return agree. When
neither history lost a commit, both daemons have the same ancestry below it and both replays return. -/
theorem commitId_identifies_history (left : History deps config events s) (right : History deps config' events' s')
    (free : CollisionFree deps (s.store.tables.stored ++ s'.store.tables.stored)) {c d : Commit}
    (here : c ∈ s.store.tables.stored) (there : d ∈ s'.store.tables.stored) (same : c.commitId = d.commitId) :
    c = d ∧
    (∀ request result result', request.commitId = c.commitId → replayInner deps request s = (.ok result, s) →
      replayInner deps request s' = (.ok result', s') → result = result') ∧
    ((∀ event ∈ events, event.Stores) → (∀ event ∈ events', event.Stores) →
      s.ancestors c.commitId = s'.ancestors d.commitId ∧
      ∀ request, request.commitId = c.commitId → request.Confirmed →
        ∃ result, replayInner deps request s = (.ok result, s) ∧ replayInner deps request s' = (.ok result, s')) := by
  have reachable : Reachable deps config s := ⟨events, left⟩
  have reachable' : Reachable deps config' s' := ⟨events', right⟩
  have agree : ∀ request result result', replayInner deps request s = (.ok result, s) →
      replayInner deps request s' = (.ok result', s') → result = result' := by
    intro request result result' run run'
    obtain ⟨_, listed, read, rfl⟩ := replay_eq_ok_iff.1 (replayInner_eq_ok_iff.1 run).1
    obtain ⟨_, listed', read', rfl⟩ := replay_eq_ok_iff.1 (replayInner_eq_ok_iff.1 run').1
    rw [reachable.ancestries_agree reachable' free read read']
  refine ⟨reachable.commits_agree reachable' free here there same, fun request result result' _ => agree request _ _,
    fun stores stores' => ?_⟩
  have intact := left.intact stores
  have intact' := right.intact stores'
  constructor
  · obtain ⟨listed, read, _, members⟩ := CommitTables.ancestryCommits_ok reachable.keyed intact.causal here
    obtain ⟨listed', read', _, members'⟩ := CommitTables.ancestryCommits_ok reachable'.keyed intact'.causal there
    have lists : listed = listed' := reachable.ancestries_agree reachable' free read (same ▸ read')
    ext commit
    exact (members commit).symm.trans (lists ▸ members' commit)
  · intro request of confirmed
    obtain ⟨result, run⟩ : ∃ result, replayInner deps request s = (.ok result, s) :=
      intact.replays reachable.keyed here of confirmed
    obtain ⟨result', run'⟩ : ∃ result', replayInner deps request s' = (.ok result', s') :=
      intact'.replays reachable'.keyed there (of.trans same) confirmed
    exact ⟨result, run, agree request result result' run run' ▸ run'⟩

section Diverging

/-- Two checkpoints on one run. -/
private def shared : List Call := [Sample.checkpoint "r" 1, Sample.checkpoint "r" 2]

private def common : AppState := runCalls .sample Sample.config shared

private def ours : Call := Sample.checkpoint "ours" 3

private def theirs : Call := Sample.checkpoint "theirs" 4

private def diverged (call : Call) : AppState := runCalls .sample Sample.config (shared ++ [call])

/-- Two daemons that went on differently have the same first run. -/
theorem commitId_identifies_history_diverged :
    ∃ commit, commit ∈ (diverged ours).store.tables.stored ∧ commit ∈ (diverged theirs).store.tables.stored ∧
      commit.parentCommitIds ≠ [] ∧
      (diverged ours).ancestors commit.commitId = (diverged theirs).ancestors commit.commitId := by
  have linked : ∃ commit ∈ common.store.tables.stored, commit.parentCommitIds ≠ [] := by decide
  have distinct : ((common.store.tables.stored ++ (recordedBy .sample Sample.config ours common ++
      recordedBy .sample Sample.config theirs common)).map fun commit =>
        External.sample.shortHash (External.sample.encodeToVec commit.unnamed)).Nodup := by decide
  have went : ∀ call, Step .sample Sample.config common ⟨call, (exec .sample Sample.config call common).1⟩
      (diverged call) := fun call => step_runCalls _ _ _ _
  have free : CollisionFree .sample
      ((diverged ours).store.tables.stored ++ (diverged theirs).store.tables.stored) := by
    refine (collisionFree_of_nodup distinct).mono fun commit member => ?_
    rcases List.mem_append.mp member with left | right
    · rcases (went ours).mem_stored left with old | new
      · exact List.mem_append_left _ old
      · exact List.mem_append_right _ (List.mem_append_left _ new)
    · rcases (went theirs).mem_stored right with old | new
      · exact List.mem_append_left _ old
      · exact List.mem_append_right _ (List.mem_append_right _ new)
  obtain ⟨commit, stored, parents⟩ := linked
  have reachable : Reachable .sample Sample.config common := reachable_runCalls _ _ _
  have kept : ∀ call, commit ∈ (diverged call).store.tables.stored := by
    intro call
    have grown : common.store.tables.Extends (diverged call).store.tables :=
      ((went call).writes reachable.sound.keyed).grows
    exact ((reachable.step (went call)).keyed.getCommit_eq_some_iff.mp
      (grown.keeps (reachable.keyed.getCommit_eq_some_iff.mpr ⟨stored, rfl⟩))).1
  obtain ⟨events, made, history⟩ := history_runCalls .sample Sample.config (shared ++ [ours])
  obtain ⟨events', made', history'⟩ := history_runCalls .sample Sample.config (shared ++ [theirs])
  have identified := commitId_identifies_history history history' free (kept ours) (kept theirs) rfl
  refine ⟨commit, kept ours, kept theirs, parents, (identified.2.2 ?_ ?_).1⟩
  · exact history_stores made (by simp [shared, ours, Sample.checkpoint, Ambient.calm])
  · exact history_stores made' (by simp [shared, theirs, Sample.checkpoint, Ambient.calm])

end Diverging

end AttowNexus
