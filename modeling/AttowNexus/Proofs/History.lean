import AttowNexus.Proofs.Outcomes

/-! # Invariants of histories

Every call acts on the ledger by single writes, so what the writes preserve holds in every reachable
state, whatever fails on the way, and what is stored once stays stored.
-/

namespace AttowNexus

open SuccGraph AppState

section Calls

variable {deps : External} {config : Config} {ambient : Ambient} {s t : AppState}
  {outcome : Except Error Response}

theorem step_publishDelta {request : PublishDeltaRequest}
    (step : Step deps config s ⟨⟨.publishDelta request, ambient⟩, outcome⟩ t) :
    ∃ r, publishDeltaInner deps config ambient request s = (r, t) ∧ outcome = r.map .publishDelta :=
  Fallible.map_eq_iff.1 step

theorem step_checkpoint {request : CheckpointRequest}
    (step : Step deps config s ⟨⟨.checkpoint request, ambient⟩, outcome⟩ t) :
    ∃ r, checkpointInner deps config ambient request s = (r, t) ∧ outcome = r.map .checkpoint :=
  Fallible.map_eq_iff.1 step

theorem step_rollback {request : RollbackRequest}
    (step : Step deps config s ⟨⟨.rollback request, ambient⟩, outcome⟩ t) :
    ∃ r, rollbackInner deps ambient request s = (r, t) ∧ outcome = r.map .rollback :=
  Fallible.map_eq_iff.1 step

theorem step_fork {request : ForkRequest}
    (step : Step deps config s ⟨⟨.fork request, ambient⟩, outcome⟩ t) :
    ∃ r, forkInner deps ambient request s = (r, t) ∧ outcome = r.map .fork :=
  Fallible.map_eq_iff.1 step

theorem step_of_checkpoint {request : CheckpointRequest} {r : Except Error CheckpointResponse}
    (run : checkpointInner deps config ambient request s = (r, t)) :
    Step deps config s ⟨⟨.checkpoint request, ambient⟩, r.map .checkpoint⟩ t :=
  Fallible.map_eq_iff.2 ⟨r, run, rfl⟩

theorem step_of_rollback {request : RollbackRequest} {r : Except Error RollbackResponse}
    (run : rollbackInner deps ambient request s = (r, t)) :
    Step deps config s ⟨⟨.rollback request, ambient⟩, r.map .rollback⟩ t :=
  Fallible.map_eq_iff.2 ⟨r, run, rfl⟩

theorem step_registerAgent {request : RegisterAgentRequest}
    (step : Step deps config s ⟨⟨.registerAgent request, ambient⟩, outcome⟩ t) : t.ledger = s.ledger := by
  obtain ⟨_, run, _⟩ := Fallible.map_eq_iff.1 step
  obtain ⟨_, rfl⟩ := Prod.mk.inj run
  rfl

end Calls

section Names

variable {deps : External} {config : Config} {ambient : Ambient} {heads : List HeadRow}

theorem length_publishCommit_commitId {request : PublishDeltaRequest} {delta : StateDelta} :
    (publishCommit deps config ambient heads request delta).commitId.length = 34 := length_fromDelta_commitId

theorem publishCommit_lineage {request : PublishDeltaRequest} {delta : StateDelta} :
    (publishCommit deps config ambient heads request delta).lineage = delta.lineage := rfl

theorem length_checkpointCommit_commitId {request : CheckpointRequest} :
    (checkpointCommit deps config ambient heads request).commitId.length = 34 := length_fromDelta_commitId

end Names

namespace Ledger

variable {start finish : Ledger} {ambient : Ambient} {commit : Commit}

theorem dag_append_known : commit.commitId ∈ (start.index commit).dag.parents :=
  DagIndex.mem_record_iff.2 (.inl rfl)

theorem Recorded.writes {succeeds : Bool} (recorded : Recorded ambient commit start succeeds finish)
    (named : commit.commitId.length = 34) : Writes start finish := by
  cases recorded with
  | refused => exact .refl
  | unstored accepts => exact .single (.index accepts named)
  | headless accepts => exact .tail (.single (.index accepts named)) (.append dag_append_known named)
  | persisted accepts =>
    exact .tail (.tail (.single (.index accepts named)) (.append dag_append_known named))
      (.setHead _ (CommitTables.getCommit_appendCommit_self _ _))

/-- A call that succeeds persists its commit. -/
theorem Recorded.persisted_of_true (recorded : Recorded ambient commit start true finish) :
    start.dag.Accepts commit ∧ finish = start.persist commit := by
  cases recorded with
  | persisted accepts => exact ⟨accepts, rfl⟩

/-- A stored commit is stored under its own id. -/
private theorem stored_under_own_id (keyed : start.tables.Keyed) {commitId : String}
    (found : start.tables.getCommit commitId = some commit) :
    ∃ stored, start.tables.getCommit commit.commitId = some stored := by
  obtain ⟨member, rfl⟩ := keyed.getCommit_eq_some_iff.mp found
  exact ⟨commit, found⟩

theorem RolledBack.writes {request : RollbackRequest} {r : Except Error RollbackResponse}
    (rolledBack : RolledBack ambient request start r finish) (keyed : start.tables.Keyed) :
    Writes start finish := by
  cases rolledBack with
  | rejected => exact .refl
  | headless => exact .refl
  | unlogged admits => exact .single (.setHead _ (stored_under_own_id keyed admits.target))
  | moved admits => exact .single (.setHead _ (stored_under_own_id keyed admits.target))

theorem Forked.writes {request : ForkRequest} {r : Except Error ForkResult}
    (forked : Forked ambient request start r finish) (keyed : start.tables.Keyed) : Writes start finish := by
  cases forked with
  | rejected => exact .refl
  | headless => exact .refl
  | unlogged admits => exact .single (.setHead _ (stored_under_own_id keyed admits.source))
  | moved admits => exact .single (.setHead _ (stored_under_own_id keyed admits.source))

/-- What holds of the ledger in every reachable state. -/
structure Sound (ledger : Ledger) : Prop where
  graph : ledger.dag.parents.WellFormed
  keyed : ledger.tables.Keyed
  counted : ledger.tables.Counted
  headKeys : (ledger.heads.map (·.headKey)).Nodup
  named : ∀ commit ∈ ledger.tables.stored, commit.commitId.length = 34
  indexed : ∀ commit ∈ ledger.tables.stored, commit.commitId ∈ ledger.dag.parents

theorem sound_empty : Sound empty where
  graph := ParentMap.wellFormed_empty
  keyed := CommitTables.keyed_empty
  counted := CommitTables.counted_empty
  headKeys := List.nodup_nil
  named := fun _ member => absurd member List.not_mem_nil
  indexed := fun _ member => absurd member List.not_mem_nil

theorem mem_stored_append {other : Commit} (member : other ∈ (start.tables.appendCommit commit).stored) :
    other ∈ start.tables.stored ∨ other = commit := by
  obtain ⟨row, inside, rfl⟩ := List.mem_map.mp member
  rcases Table.mem_insertOrIgnore inside with old | rfl
  · exact .inl (List.mem_map_of_mem old)
  · exact .inr rfl

/-- Each single write keeps the ledger sound. -/
theorem Write.sound (write : Write start finish) (sound : start.Sound) : finish.Sound := by
  cases write with
  | index accepts named =>
    exact ⟨accepts.wellFormed sound.graph, sound.keyed, sound.counted, sound.headKeys, sound.named,
      fun commit member => DagIndex.mem_record_iff.2 (.inr (sound.indexed commit member))⟩
  | append known named =>
    refine ⟨sound.graph, sound.keyed.appendCommit _, sound.counted.appendCommit _, sound.headKeys,
      fun other member => ?_, fun other member => ?_⟩
    · rcases mem_stored_append member with old | rfl
      · exact sound.named other old
      · exact named
    · rcases mem_stored_append member with old | rfl
      · exact sound.indexed other old
      · exact known
  | setHead lineage stored =>
    exact ⟨sound.graph, sound.keyed, sound.counted, moveHead_nodup sound.headKeys, sound.named, sound.indexed⟩

theorem Writes.sound (writes : Writes start finish) (sound : start.Sound) : finish.Sound := by
  induction writes with
  | refl => exact sound
  | tail _ write ih => exact write.sound ih

/-- A write adds to the tables, or leaves them alone. -/
theorem Write.grows (write : Write start finish) : start.tables.Extends finish.tables := by
  cases write with
  | index accepts named => exact .refl _
  | append known named => exact CommitTables.extends_appendCommit _ _
  | setHead lineage stored => exact .refl _

theorem Writes.grows (writes : Writes start finish) : start.tables.Extends finish.tables := by
  induction writes with
  | refl => exact .refl _
  | tail _ write ih => exact ih.trans write.grows

/-- Every head names a stored commit. -/
def HeadsStored (ledger : Ledger) : Prop :=
  ∀ row ∈ ledger.heads, ∃ commit, ledger.tables.getCommit row.commitId = some commit

theorem Write.headsStored (write : Write start finish) (headsStored : start.HeadsStored) :
    finish.HeadsStored := by
  intro row member
  have same := write
  cases write with
  | index accepts named => exact headsStored row member
  | append known named =>
    obtain ⟨commit, found⟩ := headsStored row member
    exact ⟨commit, same.grows.keeps found⟩
  | setHead lineage stored =>
    rcases mem_moveHead member with old | moved
    · exact headsStored row old
    · exact moved ▸ stored

theorem Writes.headsStored (writes : Writes start finish) (headsStored : start.HeadsStored) :
    finish.HeadsStored := by
  induction writes with
  | refl => exact headsStored
  | tail _ write ih => exact write.headsStored ih

/-- A stored commit stays stored. -/
theorem Writes.keeps_commit (writes : Writes start finish) {commitId : String}
    (found : start.tables.getCommit commitId = some commit) : finish.tables.getCommit commitId = some commit :=
  writes.grows.keeps found

section Heads

variable {other : Lineage}

theorem headOf_setHead_of_apart {lineage : Lineage} {commitId : String} (apart : other.headKey ≠ lineage.headKey) :
    headOf (start.setHead lineage commitId).heads other = headOf start.heads other := by
  rw [setHead, headOf_moveHead, if_neg apart]

/-- Recording is seen by the heads with the key of the commit only. -/
theorem Recorded.headOf_of_apart {succeeds : Bool} (recorded : Recorded ambient commit start succeeds finish)
    (apart : other.headKey ≠ commit.lineage.headKey) : headOf finish.heads other = headOf start.heads other := by
  cases recorded with
  | refused => rfl
  | unstored => rfl
  | headless => rfl
  | persisted => exact headOf_setHead_of_apart apart

/-- A rollback is seen by the heads with the key of the named head commit only. -/
theorem RolledBack.headOf_of_apart {request : RollbackRequest} {r : Except Error RollbackResponse}
    (rolledBack : RolledBack ambient request start r finish)
    (apart : ∀ head, start.tables.getCommit request.headCommitId = some head → other.headKey ≠ head.lineage.headKey) :
    headOf finish.heads other = headOf start.heads other := by
  cases rolledBack with
  | rejected => rfl
  | headless => rfl
  | unlogged admits => exact headOf_setHead_of_apart (apart _ admits.head)
  | moved admits => exact headOf_setHead_of_apart (apart _ admits.head)

theorem Forked.headOf_of_apart {request : ForkRequest} {r : Except Error ForkResult}
    (forked : Forked ambient request start r finish)
    (apart : ∀ source, start.tables.getCommit request.sourceCommitId = some source →
      other.headKey ≠ (forkLineage ambient request source).headKey) :
    headOf finish.heads other = headOf start.heads other := by
  cases forked with
  | rejected => rfl
  | headless => rfl
  | unlogged admits => exact headOf_setHead_of_apart (apart _ admits.source)
  | moved admits => exact headOf_setHead_of_apart (apart _ admits.source)

end Heads

end Ledger

section Reachable

variable {deps : External} {config : Config} {s t : AppState}

/-- Every call, successful or not, is a sequence of single writes. -/
theorem Step.writes {event : Event} (step : Step deps config s event t) (keyed : s.ledger.tables.Keyed) :
    Ledger.Writes s.ledger t.ledger := by
  obtain ⟨⟨request, ambient⟩, outcome⟩ := event
  cases request with
  | registerAgent request => exact step_registerAgent step ▸ .refl
  | publishDelta request =>
    obtain ⟨_, run, _⟩ := step_publishDelta step
    rcases publishDeltaInner_cases run with ⟨_, _, same⟩ | ⟨_, _, _, _, same⟩ | ⟨_, _, _, recorded, _⟩
    · exact same ▸ .refl
    · exact same ▸ .refl
    · exact recorded.writes length_publishCommit_commitId
  | checkpoint request =>
    obtain ⟨_, run, _⟩ := step_checkpoint step
    rcases checkpointInner_cases run with ⟨_, _, same⟩ | ⟨_, recorded, _⟩
    · exact same ▸ .refl
    · exact recorded.writes length_checkpointCommit_commitId
  | rollback request =>
    obtain ⟨_, run, _⟩ := step_rollback step
    exact (rollbackInner_rolledBack run).writes keyed
  | fork request =>
    obtain ⟨_, run, _⟩ := step_fork step
    exact (forkInner_forked run).writes keyed

/-- The ledger is sound in every reachable state. -/
theorem Reachable.sound (reachable : Reachable deps config s) : s.ledger.Sound := by
  obtain ⟨events, history⟩ := reachable
  exact history.invariant (I := fun state => state.ledger.Sound) Ledger.sound_empty
    fun _ _ _ sound step => (step.writes sound.keyed).sound sound

theorem Reachable.keyed (reachable : Reachable deps config s) : s.store.tables.Keyed := reachable.sound.keyed

theorem Reachable.headsStored (reachable : Reachable deps config s) : s.ledger.HeadsStored := by
  obtain ⟨events, history⟩ := reachable
  refine (history.invariant (I := fun state => state.ledger.Sound ∧ state.ledger.HeadsStored)
    ⟨Ledger.sound_empty, fun row member => absurd member List.not_mem_nil⟩ ?_).2
  rintro s event t ⟨sound, headsStored⟩ step
  have writes := step.writes sound.keyed
  exact ⟨writes.sound sound, writes.headsStored headsStored⟩

theorem Reachable.step (reachable : Reachable deps config s) {event : Event} (step : Step deps config s event t) :
    Reachable deps config t := by
  obtain ⟨events, history⟩ := reachable
  exact ⟨_, .snoc history step⟩

theorem Reachable.publishDelta (reachable : Reachable deps config s) {ambient : Ambient}
    {request : PublishDeltaRequest} {r : Except Error PublishDeltaResponse}
    (run : publishDeltaInner deps config ambient request s = (r, t)) : Reachable deps config t := by
  have step : Step deps config s ⟨⟨.publishDelta request, ambient⟩, r.map .publishDelta⟩ t :=
    Fallible.map_eq_iff.2 ⟨r, run, rfl⟩
  exact reachable.step step

theorem Reachable.fork (reachable : Reachable deps config s) {ambient : Ambient} {request : ForkRequest}
    {r : Except Error ForkResult} (run : forkInner deps ambient request s = (r, t)) : Reachable deps config t := by
  have step : Step deps config s ⟨⟨.fork request, ambient⟩, r.map .fork⟩ t := Fallible.map_eq_iff.2 ⟨r, run, rfl⟩
  exact reachable.step step

/-- From a sound ledger every run is a sequence of single writes. -/
theorem writes_of_run {events : List Event} (run : Run (Step deps config) s events t)
    (sound : s.ledger.Sound) : Ledger.Writes s.ledger t.ledger := by
  induction run with
  | nil => exact .refl
  | snoc _ step ih => exact ih.trans (step.writes (ih.sound sound).keyed)

end Reachable

end AttowNexus
