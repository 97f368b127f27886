import AttowNexus.Proofs.Intact
import AttowNexus.Proofs.Naming

/-! # Work resumes where the head was put

A rollback or a fork puts the head of a lineage on a commit. Calls on other lineages leave that head alone, so
the next checkpoint on the lineage has this commit as its only parent, and a replay of it covers the commit,
its ancestors and nothing that was rolled back.
-/

namespace AttowNexus

open SuccGraph AppState

/-- The lineage whose head the call moves if it gets that far. -/
def Call.Moves (config : Config) (s : AppState) (call : Call) (lineage : Lineage) : Prop :=
  match call.request with
  | .registerAgent _ => False
  | .publishDelta request => ∃ delta, request.delta = some delta ∧ Persists config delta ∧ delta.lineage = lineage
  | .checkpoint request => request.lineage = lineage
  | .rollback request => ∃ head, s.store.tables.getCommit request.headCommitId = some head ∧ head.lineage = lineage
  | .fork request => ∃ source, s.store.tables.getCommit request.sourceCommitId = some source ∧
      Ledger.forkLineage call.ambient request source = lineage

/-- A call, successful or not, on a plain lineage that is not the given one. -/
structure Elsewhere (deps : External) (config : Config) (lineage : Lineage) (s : AppState) (event : Event)
    (t : AppState) : Prop where
  step : Step deps config s event t
  apart : ∀ other, event.call.Moves config s other → other.Plain ∧ other ≠ lineage

/-- A successful rollback or fork, with the lineage and the commit on which it put the head. -/
inductive PutsHead (deps : External) (config : Config) (s : AppState) : AppState → Lineage → String → Prop
  | rollback {ambient : Ambient} {request : RollbackRequest} {response : RollbackResponse} {t : AppState} {head : Commit}
      (found : s.store.tables.getCommit request.headCommitId = some head)
      (run : rollbackInner deps ambient request s = (.ok response, t)) :
      PutsHead deps config s t head.lineage request.targetCommitId
  | fork {ambient : Ambient} {request : ForkRequest} {result : ForkResult} {t : AppState} {source : Commit}
      (found : s.store.tables.getCommit request.sourceCommitId = some source)
      (run : forkInner deps ambient request s = (.ok result, t)) :
      PutsHead deps config s t (Ledger.forkLineage ambient request source) request.sourceCommitId

variable {deps : External} {config : Config} {s s₁ s₂ t : AppState} {lineage : Lineage} {target : String}

/-- Putting a head changes nothing else of the ledger. -/
theorem PutsHead.ledger_eq (put : PutsHead deps config s t lineage target) (keyed : s.ledger.tables.Keyed) :
    t.ledger = s.ledger.setHead lineage target ∧ ∃ commit, s.ledger.tables.getCommit target = some commit := by
  cases put with
  | rollback found run =>
    obtain ⟨head, target, admits, _, finish⟩ := rollbackInner_ok run
    obtain rfl := Option.some.inj (admits.head.symm.trans found)
    obtain ⟨_, named⟩ := keyed.getCommit_eq_some_iff.mp admits.target
    exact ⟨named ▸ finish, target, admits.target⟩
  | fork found run =>
    obtain ⟨source, admits, finish⟩ := forkInner_ok run
    obtain rfl := Option.some.inj (admits.source.symm.trans found)
    obtain ⟨_, named⟩ := keyed.getCommit_eq_some_iff.mp admits.source
    exact ⟨named ▸ finish, source, admits.source⟩

theorem PutsHead.headOf_eq (put : PutsHead deps config s t lineage target) (keyed : s.ledger.tables.Keyed) :
    headOf t.store.heads lineage = some target := by
  have heads : t.store.heads = moveHead lineage target s.store.heads :=
    congrArg Ledger.heads (put.ledger_eq keyed).1
  rw [heads, headOf_moveHead, if_pos rfl]

theorem PutsHead.reachable (put : PutsHead deps config s t lineage target) (reachable : Reachable deps config s) :
    Reachable deps config t := by
  cases put with
  | rollback found run => exact reachable.step (step_of_rollback run)
  | fork found run => exact reachable.fork run

/-- A call on another lineage leaves the head alone. -/
theorem Elsewhere.headOf_eq {event : Event} (elsewhere : Elsewhere deps config lineage s event t)
    (plain : lineage.Plain) : headOf t.store.heads lineage = headOf s.store.heads lineage := by
  have keys : ∀ other, event.call.Moves config s other → lineage.headKey ≠ other.headKey := by
    intro other moves same
    obtain ⟨plain', different⟩ := elsewhere.apart other moves
    exact different (plain.eq_of_headKey_eq plain' same).symm
  change headOf t.ledger.heads lineage = headOf s.ledger.heads lineage
  obtain ⟨⟨request, ambient⟩, outcome⟩ := event
  cases request with
  | registerAgent request => rw [step_registerAgent elsewhere.step]
  | publishDelta request =>
    obtain ⟨r, run, _⟩ := step_publishDelta elsewhere.step
    rcases publishDeltaInner_cases run with ⟨_, _, same⟩ | ⟨_, _, _, _, same⟩ | ⟨delta, admits, persists, recorded, _⟩
    · rw [same]
    · rw [same]
    · exact recorded.headOf_of_apart (keys delta.lineage ⟨delta, admits.given, persists, rfl⟩)
  | checkpoint request =>
    obtain ⟨r, run, _⟩ := step_checkpoint elsewhere.step
    rcases checkpointInner_cases run with ⟨_, _, same⟩ | ⟨_, recorded, _⟩
    · rw [same]
    · exact recorded.headOf_of_apart (keys request.lineage rfl)
  | rollback request =>
    obtain ⟨r, run, _⟩ := step_rollback elsewhere.step
    exact (rollbackInner_rolledBack run).headOf_of_apart fun head found => keys head.lineage ⟨head, found, rfl⟩
  | fork request =>
    obtain ⟨r, run, _⟩ := step_fork elsewhere.step
    exact (forkInner_forked run).headOf_of_apart fun source found => keys _ ⟨source, found, rfl⟩

theorem headOf_of_elsewhere {events : List Event} (run : Run (Elsewhere deps config lineage) s events t)
    (plain : lineage.Plain) : headOf t.store.heads lineage = headOf s.store.heads lineage := by
  induction run with
  | nil => rfl
  | snoc _ call ih => exact (call.headOf_eq plain).trans ih

/-- A successful checkpoint of a bare request stores a commit on the head of its lineage. -/
theorem checkpoint_on_head (reachable : Reachable deps config s) (plainHead : headOf s.store.heads lineage = some target)
    {ambient : Ambient} {request : CheckpointRequest} {response : CheckpointResponse}
    (on : request.lineage = lineage) (bare : request.parentCommitIds = [])
    (run : checkpointInner deps config ambient request s = (.ok response, t))
    (free : CollisionFree deps
      (checkpointCommit deps config ambient s.store.heads request :: t.store.tables.stored)) :
    ∃ n, t.store.tables.getCommit response.commitId = some n ∧ n.parentCommitIds = [target] := by
  have after := reachable.step (step_of_checkpoint run)
  rcases checkpointInner_cases run with ⟨_, ⟨_, failed⟩, _⟩ | ⟨_, recorded, named⟩
  · exact absurd failed nofun
  · obtain ⟨_, finish⟩ := recorded.persisted_of_true
    have tables : t.store.tables = _ := congrArg Ledger.tables finish
    obtain ⟨n, found⟩ := CommitTables.getCommit_appendCommit_self s.store.tables
      (checkpointCommit deps config ambient s.store.heads request)
    have found' : t.store.tables.getCommit
        (checkpointCommit deps config ambient s.store.heads request).commitId = some n := tables ▸ found
    obtain ⟨stored, same⟩ := after.keyed.getCommit_eq_some_iff.mp found'
    have equal := free.eq_of_commitId_eq (List.mem_cons_of_mem _ stored) List.mem_cons_self (after.sealed stored)
      fromDelta_sealed same
    refine ⟨n, named response rfl ▸ found', ?_⟩
    calc n.parentCommitIds
        = parentsFor s.store.heads request.lineage request.parentCommitIds := by rw [equal]; rfl
      _ = [target] := by
        rw [bare, parentsFor, if_neg (not_not.mpr rfl), on, plainHead]
        rfl

/-- After a successful rollback or fork to `target` and calls on other lineages, the next bare checkpoint on the
lineage makes a commit whose only parent is `target`, and a replay of it covers the commit, `target` and its
ancestors exactly; the replay returns if no commit was lost before. -/
theorem work_resumes {before later : List Event} (history : History deps config before s)
    (put : PutsHead deps config s s₁ lineage target) (plain : lineage.Plain)
    (elsewhere : Run (Elsewhere deps config lineage) s₁ later s₂) {ambient : Ambient} {request : CheckpointRequest}
    {response : CheckpointResponse} (on : request.lineage = lineage) (bare : request.parentCommitIds = [])
    (run : checkpointInner deps config ambient request s₂ = (.ok response, t))
    (free : CollisionFree deps
      (checkpointCommit deps config ambient s₂.store.heads request :: t.store.tables.stored)) :
    ∃ n, t.store.tables.getCommit response.commitId = some n ∧ n.parentCommitIds = [target] ∧
      (∀ replayRequest result, replayRequest.commitId = response.commitId →
        replayInner deps replayRequest t = (.ok result, t) →
          ∀ commitId, commitId ∈ result.provenanceCommitIds ↔
            commitId = response.commitId ∨ Reach t.store.tables.parentsOf target commitId) ∧
      ((∀ event ∈ before ++ later, event.Stores) →
        ∀ replayRequest : ReplayRequest, replayRequest.commitId = response.commitId → replayRequest.Confirmed →
          ∃ result, replayInner deps replayRequest t = (.ok result, t)) := by
  have start : Reachable deps config s := ⟨before, history⟩
  have keyed := start.sound.keyed
  have steps : Run (Step deps config) s₁ later s₂ := elsewhere.mono fun _ _ _ call => call.step
  obtain ⟨events, history₁⟩ := put.reachable start
  have reachable : Reachable deps config s₂ := ⟨_, history₁.append steps⟩
  have head : headOf s₂.store.heads lineage = some target :=
    (headOf_of_elsewhere elsewhere plain).trans (put.headOf_eq keyed)
  obtain ⟨n, found, parents⟩ := checkpoint_on_head reachable head on bare run free
  have keyed' := (reachable.step (step_of_checkpoint run)).keyed
  have above : t.store.tables.parentsOf response.commitId = [target] := by
    rw [CommitTables.parentsOf, found, Option.map_some, parents, Option.getD_some]
  refine ⟨n, found, parents, fun replayRequest result of returned commitId => ?_, fun stores replayRequest of confirmed => ?_⟩
  · rw [(replay_provenance keyed' (replayInner_eq_ok_iff.1 returned).1).2, of]
    constructor
    · intro path
      rcases path.eq_or_head with same | ⟨parent, edge, rest⟩
      · exact .inl same.symm
      · rw [above] at edge
        exact .inr (List.mem_singleton.mp edge ▸ rest)
    · rintro (rfl | path)
      · exact .refl _
      · exact .head (above ▸ List.mem_singleton_self _) path
  · obtain ⟨earlier, between⟩ := List.forall_mem_append.mp stores
    have intact₁ : s₁.ledger.Intact := by
      rw [(put.ledger_eq keyed).1]
      exact (history.intact earlier).setHead _ _
    have intact₂ := intact_of_run steps (put.reachable start).sound intact₁ between
    have intact : t.ledger.Intact := by
      rcases checkpointInner_cases run with ⟨_, ⟨_, failed⟩, _⟩ | ⟨_, recorded, _⟩
      · cases failed
      · obtain ⟨accepts, finish⟩ := recorded.persisted_of_true
        rw [finish]
        exact (intact₂.append reachable.sound.keyed accepts).setHead _ _
    obtain ⟨stored, named⟩ := keyed'.getCommit_eq_some_iff.mp found
    exact intact.replays keyed' stored (of.trans named.symm) confirmed

section Sample

/-- Two checkpoints on one run. -/
private def advanced : AppState :=
  runCalls .sample Sample.config [Sample.checkpoint "r" 1, Sample.checkpoint "r" 2]

private def first : String := Sample.headOf (runCalls .sample Sample.config [Sample.checkpoint "r" 1]) "r"

private def backToFirst : RollbackRequest := ⟨Sample.headOf advanced "r", first, false⟩

private def rolledBack : AppState := (rollbackInner .sample (.calm ⟨3, 0⟩ 3) backToFirst advanced).2

/-- A checkpoint on another run. -/
private def aside : Call := Sample.checkpoint "q" 4

private def movedOn : AppState := (exec .sample Sample.config aside rolledBack).2

private def resuming : CheckpointRequest := Sample.checkpointRequest "r" [] []

private def resumed : AppState := (checkpointInner .sample Sample.config (.calm ⟨5, 0⟩ 5) resuming movedOn).2

private theorem aside_elsewhere :
    Elsewhere .sample Sample.config (Sample.lineage "r") rolledBack
      ⟨aside, (exec .sample Sample.config aside rolledBack).1⟩ movedOn where
  step := rfl
  apart := by
    rintro other rfl
    refine ⟨⟨?_, ?_, ?_, ?_⟩, fun same => absurd (congrArg Lineage.runId same) (by decide)⟩ <;> decide

/-- The commit after the rollback is on top of the first checkpoint and its replay leaves the second one out. -/
theorem work_resumes_sample :
    ∃ (n : Commit) (result : ReplayResult), n.parentCommitIds = [first] ∧
      replayInner .sample ⟨n.commitId, ReplayMode.stateOnly.toI32, false⟩ resumed = (.ok result, resumed) ∧
      ∀ commitId, commitId ∈ result.provenanceCommitIds ↔
        commitId = n.commitId ∨ Reach resumed.store.tables.parentsOf first commitId := by
  obtain ⟨events, made, history⟩ := history_runCalls .sample Sample.config
    [Sample.checkpoint "r" 1, Sample.checkpoint "r" 2]
  have stores : ∀ event ∈ events, event.Stores :=
    history_stores made (by simp [Sample.checkpoint, Ambient.calm])
  have found : (advanced.store.tables.getCommit (Sample.headOf advanced "r")).map (·.lineage) =
      some (Sample.lineage "r") := by decide
  obtain ⟨head, named, lineage⟩ := Option.map_eq_some_iff.mp found
  obtain ⟨_, moved⟩ := Fallible.exists_ok (x := rollbackInner .sample (.calm ⟨3, 0⟩ 3) backToFirst)
    (s := advanced) (by decide)
  have put : PutsHead .sample Sample.config advanced rolledBack head.lineage first := .rollback named moved
  rw [lineage] at put
  obtain ⟨response, run⟩ : ∃ response,
    checkpointInner .sample Sample.config (.calm ⟨5, 0⟩ 5) resuming movedOn = (.ok response, resumed) :=
      Fallible.exists_ok (by decide)
  have distinct : ((checkpointCommit .sample Sample.config (.calm ⟨5, 0⟩ 5) movedOn.store.heads resuming ::
      movedOn.store.tables.stored).map fun commit =>
        External.sample.shortHash (External.sample.encodeToVec commit.unnamed)).Nodup := by decide
  have step : Step .sample Sample.config movedOn _ resumed := step_of_checkpoint run
  have free : CollisionFree .sample (checkpointCommit .sample Sample.config (.calm ⟨5, 0⟩ 5)
      movedOn.store.heads resuming :: resumed.store.tables.stored) := by
    refine (collisionFree_of_nodup distinct).mono fun commit member => ?_
    rcases List.mem_cons.mp member with same | stored
    · exact List.mem_cons.mpr (.inl same)
    · rcases step.mem_stored stored with old | new
      · exact List.mem_cons_of_mem _ old
      · exact List.mem_cons.mpr (.inl (List.mem_singleton.mp new))
  have plain : (Sample.lineage "r").Plain := by
    constructor <;> decide
  have on : resuming.lineage = Sample.lineage "r" := rfl
  have bare : resuming.parentCommitIds = [] := rfl
  obtain ⟨n, stored, parents, covers, returns⟩ :=
    work_resumes history put plain (.single aside_elsewhere) on bare run free
  have own : n.commitId = response.commitId := by
    have reachable : Reachable .sample Sample.config resumed := by
      have middle := (put.reachable ⟨events, history⟩).step aside_elsewhere.step
      exact middle.step step
    exact (reachable.keyed.getCommit_eq_some_iff.mp stored).2
  obtain ⟨result, returned⟩ := returns
    (by
      intro event member
      rcases List.mem_append.mp member with old | new
      · exact stores event old
      · rw [List.mem_singleton.mp new]
        decide)
    ⟨n.commitId, ReplayMode.stateOnly.toI32, false⟩ own (ReplayRequest.confirmed_stateOnly _ rfl)
  exact ⟨n, result, parents, returned, own ▸ covers _ _ own returned⟩

end Sample

end AttowNexus
