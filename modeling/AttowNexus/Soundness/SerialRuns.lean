import AttowNexus.Model.Interleaved

/-! # Calls that nothing interrupts

The operations action by action and the operations in one piece are two descriptions of the same code. A call that
nothing interrupts does to the shared parts what the operation in one piece does and answers the same, so every history
of the daemon is one of its runs side by side.
-/

namespace Fallible

variable {σ τ ε α β : Type}

/-- On a component, a sequence is a sequence. -/
theorem zoom_bind {read : σ → τ} {write : τ → σ → σ} (read_write : ∀ m s, read (write m s) = m)
    (write_write : ∀ m m' s, write m (write m' s) = write m s) (x : Fallible τ ε α) (f : α → Fallible τ ε β) :
    zoom read write (x >>= f) = zoom read write x >>= fun a => zoom read write (f a) := by
  funext s
  have inner : zoom read write x s = ((x (read s)).1, write (x (read s)).2 s) := rfl
  rcases outcome : x (read s) with ⟨e | a, t⟩
  · rw [outcome] at inner
    rw [bind_of_error inner, zoom, bind_of_error outcome]
  · rw [outcome] at inner
    rw [bind_of_ok inner, zoom, bind_of_ok outcome, zoom, read_write, write_write]

end Fallible

namespace AttowNexus

open Fallible

namespace Daemon

variable {deps : External} {config : Config} {ambient : Ambient} {commit : Commit} {α β : Type}

/-- Uninterrupted, the activity is the operation on the shared parts. -/
abbrev Serves (x : Activity α) (y : Fallible AppState Error α) : Prop := Strand.Mirrors Daemon.app (fun _ => True) x y

theorem onStore_bind (x : Fallible SqliteStore Error α) (f : α → Fallible SqliteStore Error β) :
    AppState.onStore (x >>= f) = AppState.onStore x >>= fun a => AppState.onStore (f a) := by
  refine zoom_bind ?_ ?_ x f
  · exact fun _ _ => rfl
  · exact fun _ _ _ => rfl

theorem serves_onApp (x : Fallible AppState Error α) : Serves (onApp x) x := fun _ _ => ⟨rfl, trivial⟩

theorem serves_onStore (x : Fallible SqliteStore Error α) : Serves (onStore x) (AppState.onStore x) := serves_onApp _

theorem serves_count (bump : ServiceMetrics → ServiceMetrics) : Serves (count bump) (pure ()) := fun _ _ => ⟨rfl, trivial⟩

theorem serves_required (value : Option α) (message : String) :
    Serves (required value message) (AttowNexus.required value message) := Strand.Mirrors.settle _

section Operations

theorem appendToDag_eq (app : AppState) : AppState.appendToDag commit app =
    match app.dag.append commit with
    | .error refusal => (.error (.message refusal), app)
    | .ok dag => (.ok (), { app with dag := dag }) := by
  rw [AppState.appendToDag, bind_of_ok (get_eq_iff.2 ⟨rfl, rfl⟩)]
  cases app.dag.append commit with
  | error refusal => rfl
  | ok dag => rfl

/-- Between its locks nothing else can happen, so the index goes from the old to the new in one step. -/
theorem run_appendToDag (daemon : Daemon) : AppState.appendToDag commit daemon.app =
    (((appendToDag commit).run daemon).1, ((appendToDag commit).run daemon).2.app) := by
  have own : commit.parentCommitIds.any (· = commit.commitId) = true ↔ commit.commitId ∈ commit.parentCommitIds := by
    simp only [List.any_eq_true, decide_eq_true_eq, exists_eq_right]
  rw [appendToDag_eq, DagIndex.append, appendToDag, bailIf, bailIf]
  by_cases unnamed : commit.commitId = ""
  · rw [if_pos unnamed, if_pos unnamed]
    rfl
  rw [if_neg unnamed, if_neg unnamed]
  by_cases parent : commit.commitId ∈ commit.parentCommitIds
  · rw [if_pos (own.mpr parent), if_pos parent]
    rfl
  rw [if_neg (own.not.mpr parent), if_neg parent]
  have start : Strand.run (do
      .settle (.ok ())
      .settle (.ok ())
      checkParents commit
      writeParents commit
      writeChildren commit) daemon =
    (checkParents commit >>= fun _ => writeParents commit >>= fun _ => writeChildren commit).run daemon := rfl
  have checks : (checkParents commit).run daemon =
      ((DagIndex.checkParents daemon.app.dag.parents commit.commitId commit.parentCommitIds).mapError Error.message,
        daemon) := rfl
  rw [start, Strand.run_bind]
  cases fits : DagIndex.checkParents daemon.app.dag.parents commit.commitId commit.parentCommitIds with
  | error refusal =>
    rw [fits] at checks
    rw [bind_of_error checks]
  | ok =>
    rw [fits] at checks
    rw [bind_of_ok checks]
    rfl

theorem serves_appendToDag : Serves (appendToDag commit) (AppState.appendToDag commit) := fun daemon _ =>
  ⟨run_appendToDag daemon, trivial⟩

theorem serves_persistCommit : Serves (persistCommit ambient commit) (AppState.persistCommit ambient commit) :=
  serves_appendToDag.bind fun _ => (serves_onStore _).bind fun _ => (serves_onStore _).trailed fun _ => serves_count _

theorem serves_broadcast {delta : StateDelta} {commitId : String} :
    Serves (broadcast delta commitId) (AppState.broadcast delta commitId) := by
  have sorts : Serves (if delta.durable = true then
      count fun metrics => { metrics with durableDeltasTotal := metrics.durableDeltasTotal + 1 }
    else count fun metrics => { metrics with ephemeralDeltasTotal := metrics.ephemeralDeltasTotal + 1 }) (pure ()) := by
    split
    · exact serves_count _
    · exact serves_count _
  exact (serves_onApp _).trailed fun _ => (serves_count _).unseen sorts

theorem serves_reportLoop (found : Option LoopWarning) :
    Serves (reportLoop deps ambient found) (AppState.reportLoop deps ambient found) := by
  cases found with
  | none => exact .pure ()
  | some warning => exact (serves_onStore _).bind fun _ => (serves_count _).unseen serves_broadcast

theorem serves_inspectLoop :
    Serves (inspectLoop deps config ambient commit) (AppState.inspectLoop deps config ambient commit) := by
  rw [inspectLoop, AppState.inspectLoop]
  split
  · exact .pure ()
  · exact (serves_onApp _).bind fun found => serves_reportLoop found

theorem serves_record {plan : Plan} :
    Serves (record deps config ambient plan.delta plan.commit) (AppState.record deps config ambient plan) :=
  serves_persistCommit.bind fun _ => serves_broadcast.bind fun _ => serves_inspectLoop

theorem serves_insertArtifact (row : ArtifactRow) : Serves (insertArtifact ambient row)
    (AppState.onStore (ambient.attempt .insertArtifact) >>= fun _ => AppState.onStore (modify fun store =>
      { store with artifacts := Table.insertOrReplace (·.artifactId) row store.artifacts })) := by
  rw [← onStore_bind]
  exact serves_onStore _

theorem serves_putArtifact {bytes : Bytes} {mediaType : String} :
    Serves (putArtifact deps config ambient bytes mediaType)
      (AppState.onStore (SqliteStore.putArtifact deps config ambient bytes mediaType)) := by
  rw [SqliteStore.putArtifact]
  simp only [onStore_bind]
  refine (serves_onStore _).bind fun _ => (serves_onStore _).bind fun compressed => (serves_onStore _).bind fun _ => ?_
  rw [← bind_assoc]
  exact (serves_insertArtifact _).bind fun _ => .pure _

theorem serves_preparePayload {payload : Option Payload} :
    Serves (preparePayload deps config ambient payload) (AppState.preparePayload deps config ambient payload) := by
  rw [preparePayload, AppState.preparePayload]
  rcases AppState.redactedPayload deps config payload with ⟨redacted, redactionReport⟩
  dsimp only
  split
  · exact serves_putArtifact.bind fun _ => (serves_count _).unseen (.pure _)
  · exact .pure _

theorem serves_publishDeltaInner {request : PublishDeltaRequest} :
    Serves (publishDeltaInner deps config ambient request)
      (AppState.publishDeltaInner deps config ambient request) := by
  rw [AppState.publishDeltaInner, AppState.planPublish, bind_assoc]
  refine (serves_required _ _).bind fun delta => ?_
  rw [bind_assoc]
  refine (serves_onApp _).bind fun _ => ?_
  rw [bind_assoc]
  refine serves_preparePayload.bind fun prepared => ?_
  dsimp only
  split
  · exact serves_broadcast.bind fun _ => .pure _
  · rw [bind_assoc]
    exact (serves_onApp _).bind fun parents => serves_record.bind fun _ => .pure _

theorem serves_checkpointInner {request : CheckpointRequest} :
    Serves (checkpointInner deps config ambient request) (AppState.checkpointInner deps config ambient request) := by
  rw [AppState.checkpointInner, AppState.planCheckpoint, bind_assoc]
  refine (serves_onApp _).bind fun _ => ?_
  rw [bind_assoc]
  refine serves_preparePayload.bind fun prepared => ?_
  rw [bind_assoc]
  exact (serves_onApp _).bind fun parents => serves_record.bind fun _ => .pure _

/-- Without writes to the index -/
abbrev ServesBeside (dag : DagIndex) (x : Activity α) (y : Fallible AppState Error α) : Prop :=
  Strand.Mirrors Daemon.app (fun daemon => daemon.app.dag = dag) x y

variable {dag : DagIndex}

theorem servesBeside_onStore (x : Fallible SqliteStore Error α) :
    ServesBeside dag (onStore x) (AppState.onStore x) := fun _ same => ⟨rfl, same⟩

theorem servesBeside_appendEvent (eventType : String) (payloadJson : Bytes) :
    ServesBeside dag (appendEvent ambient eventType payloadJson)
      (AppState.onStore (SqliteStore.appendEvent ambient eventType payloadJson)) := by
  rw [SqliteStore.appendEvent, ← bind_assoc, onStore_bind]
  refine (servesBeside_onStore _).bind fun _ => ?_
  split
  · exact servesBeside_onStore _
  · exact .pure ()

theorem servesBeside_required (value : Option α) (message : String) :
    ServesBeside dag (required value message) (AppState.onStore (AttowNexus.required value message)) :=
  Strand.Mirrors.settle _

theorem servesBeside_collectWarnings (target : String) (walk : List String) :
    ServesBeside dag (collectWarnings ambient target walk)
      (AppState.onStore (AttowNexus.collectWarnings ambient target walk)) := by
  induction walk with
  | nil => exact .pure _
  | cons commitId rest ih =>
    rw [collectWarnings, AttowNexus.collectWarnings]
    split
    · exact .pure _
    · simp only [onStore_bind]
      exact (servesBeside_onStore _).bind fun found => ih.bind fun later => .pure _

/-- The check of a rollback, as the store operation makes it -/
def ancestorCheck (dag : DagIndex) (request : RollbackRequest) : Fallible SqliteStore Error Unit :=
  if request.force = false ∧ dag.isAncestor request.targetCommitId request.headCommitId = false then
    fail (.message "target commit is not an ancestor of the current head; use force to move the head anyway")
  else pure ()

theorem rollback_eq (request : RollbackRequest) : AttowNexus.rollback deps ambient dag request = (do
    ancestorCheck dag request
    let found ← SqliteStore.getCommit ambient .getHeadCommit request.headCommitId
    let head ← AttowNexus.required found "head commit not found"
    let found ← SqliteStore.getCommit ambient .getTargetCommit request.targetCommitId
    let target ← AttowNexus.required found "target commit not found"
    let warnings ← AttowNexus.collectWarnings ambient request.targetCommitId (dag.ancestry request.headCommitId)
    SqliteStore.setHead ambient head.lineage target.commitId
    SqliteStore.appendEvent ambient "rollback" (deps.toVec (rollbackEvent head target warnings))
    pure ⟨true, request.headCommitId, request.targetCommitId, warnings⟩) := by
  rw [AttowNexus.rollback, planRollback, ancestorCheck]
  split
  · rfl
  · simp only [bind_assoc]
    rfl

theorem servesBeside_checkAncestor {request : RollbackRequest} :
    ServesBeside dag (checkAncestor request) (AppState.onStore (ancestorCheck dag request)) := by
  rw [checkAncestor, ancestorCheck]
  cases forced : request.force with
  | true =>
    rw [if_pos rfl, if_neg (fun refused => Bool.noConfusion refused.1)]
    exact .pure ()
  | false =>
    rw [if_neg Bool.false_ne_true]
    rintro daemon rfl
    have asked : ∀ message : Error, (onApp do
        let state ← Fallible.get
        ensure (state.dag.isAncestor request.targetCommitId request.headCommitId = true) message).run daemon =
      (((if daemon.app.dag.isAncestor request.targetCommitId request.headCommitId = true then pure ()
          else fail message : Fallible AppState Error Unit) daemon.app).1,
        { daemon with app := ((if daemon.app.dag.isAncestor request.targetCommitId request.headCommitId = true then pure ()
          else fail message : Fallible AppState Error Unit) daemon.app).2 }) := fun _ => rfl
    rw [asked]
    cases related : daemon.app.dag.isAncestor request.targetCommitId request.headCommitId with
    | true =>
      rw [if_neg (fun refused => Bool.noConfusion refused.2), if_pos rfl]
      exact ⟨rfl, rfl⟩
    | false =>
      rw [if_pos ⟨rfl, rfl⟩, if_neg Bool.false_ne_true]
      exact ⟨rfl, rfl⟩

theorem servesBeside_readAncestry (commitId : String) :
    ServesBeside dag (readAncestry commitId) (pure (dag.ancestry commitId)) := by
  rintro daemon rfl
  exact ⟨rfl, rfl⟩

theorem serves_rollbackInner {request : RollbackRequest} :
    Serves (rollbackInner deps ambient request) (AppState.rollbackInner deps ambient request) := by
  refine Strand.Mirrors.reads AppState.dag
    (y := fun dag => AppState.onStore (AttowNexus.rollback deps ambient dag request)) fun dag => ?_
  rw [rollback_eq]
  simp only [onStore_bind]
  refine servesBeside_checkAncestor.bind fun _ => (servesBeside_onStore _).bind fun found =>
    (servesBeside_required _ _).bind fun head => (servesBeside_onStore _).bind fun found =>
    (servesBeside_required _ _).bind fun target => ?_
  exact Strand.Mirrors.bind
    (g := fun walk => AppState.onStore (AttowNexus.collectWarnings ambient request.targetCommitId walk) >>= _)
    (servesBeside_readAncestry _) fun walk => (servesBeside_collectWarnings _ _).bind fun warnings =>
      (servesBeside_onStore _).bind fun _ => (servesBeside_appendEvent _ _).bind fun _ => .pure _

theorem serves_forkInner {request : ForkRequest} :
    Serves (forkInner deps ambient request) (AppState.forkInner deps ambient request) := by
  refine Strand.Mirrors.reads AppState.dag (y := fun _ => AppState.forkInner deps ambient request) fun dag => ?_
  rw [AppState.forkInner, fork]
  simp only [onStore_bind]
  exact (servesBeside_onStore _).bind fun found => (servesBeside_required _ _).bind fun source =>
    (servesBeside_onStore _).bind fun _ => (servesBeside_appendEvent _ _).bind fun _ => .pure _

theorem serves_registerAgentInner {request : RegisterAgentRequest} :
    Serves (registerAgentInner config request) (AppState.registerAgentInner config request) := fun _ _ => ⟨rfl, trivial⟩

/-- A call that nothing interrupts is the operation in one piece. -/
theorem serves_serve (call : Call) : Serves (serve deps config call) (exec deps config call) := by
  obtain ⟨request, ambient⟩ := call
  cases request with
  | registerAgent request => exact serves_registerAgentInner.bind fun _ => .pure _
  | publishDelta request => exact serves_publishDeltaInner.bind fun _ => .pure _
  | checkpoint request => exact serves_checkpointInner.bind fun _ => .pure _
  | rollback request => exact serves_rollbackInner.bind fun _ => .pure _
  | fork request => exact serves_forkInner.bind fun _ => .pure _

end Operations

/-- Every history is a run of calls side by side, with the same outcomes and the same end. -/
theorem sideBySide_of_history {events : List Event} {s : AppState} (history : History deps config events s) :
    ∃ moves calls, SideBySide deps config moves calls ∧ calls.state.app = s ∧
      calls.strands = events.map fun event => (event.call, Strand.done event.outcome) := by
  induction history with
  | nil => exact ⟨[], .idle initial, .nil, rfl, rfl⟩
  | @snoc events s t event _ step ih =>
    obtain ⟨moves, calls, run, rfl, strands⟩ := ih
    obtain ⟨more, rest⟩ := Pool.run_of_uninterrupted (serve deps config) calls event.call
    obtain ⟨same, _⟩ := serves_serve event.call calls.state trivial
    have outcome : exec deps config event.call calls.state.app = (event.outcome, t) := step
    rw [outcome] at same
    obtain ⟨answer, state⟩ := Prod.mk.inj same
    refine ⟨moves ++ more, _, run.append rest, state.symm, ?_⟩
    rw [strands, ← answer, List.map_append, List.map_singleton]

theorem sideBySide_of_history_twice : ∃ moves calls, SideBySide .sample Sample.config moves calls ∧
    calls.state.app.store.tables.commits.length = 2 := by
  obtain ⟨events, _, history⟩ :=
    history_runCalls .sample Sample.config [Sample.checkpoint "r" 1, Sample.checkpoint "r" 2]
  obtain ⟨moves, calls, run, same, _⟩ := sideBySide_of_history history
  refine ⟨moves, calls, run, ?_⟩
  rw [same]
  decide

end Daemon

end AttowNexus
