import AttowNexus.Library.Interleaving
import AttowNexus.Model.System

/-! # Requests side by side

The operations of `grpc/service.rs` action by action. Every lock that the daemon takes, every statement it sends to
the database and every counter it bumps is one action, and other requests may come in between: `DagIndex::append`
checks the parents under one lock and writes the two maps under two others, and `rollback` reads, walks and moves the
head in separate store calls. The counters of `observability/metrics.rs` that the service bumps are part of the state.
-/

namespace AttowNexus

open Fallible

/-- The counters that the service bumps -/
structure ServiceMetrics where
  deltasTotal : ℕ
  durableDeltasTotal : ℕ
  ephemeralDeltasTotal : ℕ
  commitsTotal : ℕ
  loopWarningsTotal : ℕ
  artifactsTotal : ℕ
deriving DecidableEq, Repr, Inhabited

/-- The daemon while requests are on their way -/
structure Daemon where
  app : AppState
  metrics : ServiceMetrics
  /-- The commits whose parents went into the index so far; nothing reads them. -/
  indexed : List Commit

abbrev Activity : Type → Type := Strand Daemon Error

namespace Daemon

/-- A daemon on an empty database -/
def initial : Daemon := ⟨.initial, ⟨0, 0, 0, 0, 0, 0⟩, []⟩

/-- One action on the shared parts -/
def onApp {α : Type} (x : Fallible AppState Error α) : Activity α :=
  .atomic (zoom (·.app) (fun app daemon => { daemon with app := app }) x)

/-- One store call -/
def onStore {α : Type} (x : Fallible SqliteStore Error α) : Activity α := onApp (AppState.onStore x)

/-- `metrics.*.inc()` -/
def count (bump : ServiceMetrics → ServiceMetrics) : Activity Unit :=
  .atomic (modify fun daemon => { daemon with metrics := bump daemon.metrics })

/-- An early return with a message -/
def bailIf (p : Prop) [Decidable p] (message : String) : Activity Unit :=
  .settle (if p then .error (.message message) else .ok ())

/-- The value of an `Option`, or an early return with a message -/
def required {α : Type} (value : Option α) (message : String) : Activity α :=
  .settle (value.elim (.error (.message message)) .ok)

/-- The loop over the parents in `DagIndex::append`, under its read lock -/
def checkParents (commit : Commit) : Activity Unit := onApp do
  let state ← get
  lift ((DagIndex.checkParents state.dag.parents commit.commitId commit.parentCommitIds).mapError Error.message)

/-- `parents.write().insert(..)` -/
def writeParents (commit : Commit) : Activity Unit := .atomic <| modify fun daemon =>
  { daemon with
    app := { daemon.app with dag := { daemon.app.dag with
      parents := daemon.app.dag.parents.insert commit.commitId commit.parentCommitIds } }
    indexed := daemon.indexed ++ [commit] }

/-- The loop that pushes the commit to its parents, under the write lock of `children` -/
def writeChildren (commit : Commit) : Activity Unit := onApp <| modify fun state =>
  { state with dag := { state.dag with
    children := commit.parentCommitIds.foldl (DagIndex.addChild commit.commitId) state.dag.children } }

/-- `DagIndex::append` -/
def appendToDag (commit : Commit) : Activity Unit := do
  bailIf (commit.commitId = "") "commit_id is required"
  bailIf (commit.commitId ∈ commit.parentCommitIds) "commit cannot parent itself"
  checkParents commit
  writeParents commit
  writeChildren commit

variable (deps : External) (config : Config) (ambient : Ambient)

/-- The statement of `put_artifact` -/
def insertArtifact (row : ArtifactRow) : Activity Unit := onStore do
  ambient.attempt .insertArtifact
  modify fun store => { store with artifacts := Table.insertOrReplace (·.artifactId) row store.artifacts }

def putArtifact (bytes : Bytes) (mediaType : String) : Activity ArtifactRef := do
  onStore (ambient.attempt .createArtifactDir)
  let contentHash := deps.blake3Hex bytes
  let artifactId := "artifact_" ++ contentHash
  let (stored, compressed) ← onStore (SqliteStore.maybeCompress deps config ambient bytes)
  let path := config.artifactDir ++ "/" ++ artifactId
  onStore (SqliteStore.writeFile ambient path stored)
  insertArtifact ambient ⟨artifactId, contentHash, path, bytes.length, mediaType, compressed⟩
  pure ⟨artifactId, contentHash, bytes.length, mediaType, compressed, none⟩

def preparePayload (payload : Option Payload) : Activity (Payload × RedactionReport × List ArtifactRef) :=
  let (payload, redactionReport) := AppState.redactedPayload deps config payload
  if config.maxInlinePayloadBytes < payload.data.length then do
    let artifact ← putArtifact deps config ambient payload.data "application/octet-stream"
    count fun metrics => { metrics with artifactsTotal := metrics.artifactsTotal + 1 }
    pure (AppState.movedPayload payload artifact, redactionReport, [artifact])
  else pure (payload, redactionReport, [])

def resolveParents (delta : StateDelta) (explicitParents : List String) : Activity (List String) :=
  onApp (AppState.resolveParents ambient delta explicitParents)

def persistCommit (commit : Commit) : Activity Unit := do
  appendToDag commit
  onStore (SqliteStore.appendCommit ambient commit)
  onStore (SqliteStore.setHead ambient commit.lineage commit.commitId)
  count fun metrics => { metrics with commitsTotal := metrics.commitsTotal + 1 }

/-- `bus.broadcast` and its counters -/
def broadcast (delta : StateDelta) (commitId : String) : Activity Unit := do
  onApp (AppState.broadcast delta commitId)
  count fun metrics => { metrics with deltasTotal := metrics.deltasTotal + 1 }
  if delta.durable = true then
    count fun metrics => { metrics with durableDeltasTotal := metrics.durableDeltasTotal + 1 }
  else count fun metrics => { metrics with ephemeralDeltasTotal := metrics.ephemeralDeltasTotal + 1 }

/-- `loop_detector.inspect` -/
def inspect (commit : Commit) : Activity (Option LoopWarning) := onApp do
  let state ← get
  let (warning, detector) := state.detector.inspect deps ambient commit
  modify fun state => { state with detector := detector }
  pure warning

/-- The rest of `inspect_loop` once the detector has answered -/
def reportLoop : Option LoopWarning → Activity Unit
  | none => pure ()
  | some warning => do
      onStore (SqliteStore.appendLoopWarning ambient warning)
      count fun metrics => { metrics with loopWarningsTotal := metrics.loopWarningsTotal + 1 }
      broadcast (AppState.loopWarningDelta deps ambient warning) ""

def inspectLoop (commit : Commit) : Activity Unit :=
  if config.loopDetectionEnabled = false then pure ()
  else do
    let warning ← inspect deps ambient commit
    reportLoop deps ambient warning

/-- The end of a publish and of a checkpoint -/
def record (delta : StateDelta) (commit : Commit) : Activity Unit := do
  persistCommit ambient commit
  broadcast delta commit.commitId
  inspectLoop deps config ambient commit

def publishDeltaInner (request : PublishDeltaRequest) : Activity PublishDeltaResponse := do
  let delta ← required request.delta "PublishDeltaRequest.delta is required"
  let delta := AppState.normalizeDelta deps ambient delta
  onApp (AppState.ensureChannelPermission config delta.agentId (channelWrite delta.channel))
  let (payload, redactionReport, artifactRefs) ← preparePayload deps config ambient delta.payload
  let delta := { delta with payload := some payload }
  if delta.durable = false ∧ config.persistEphemeral = false then do
    broadcast delta ""
    pure ⟨delta.deltaId, "", true, false, "", some redactionReport⟩
  else do
    let parents ← resolveParents ambient delta request.parentCommitIds
    let commit := fromDelta deps delta parents payload redactionReport
      (AppState.publishExtras request.objective artifactRefs)
    record deps config ambient delta commit
    pure ⟨delta.deltaId, commit.commitId, true, true, "", some redactionReport⟩

def checkpointInner (request : CheckpointRequest) : Activity CheckpointResponse := do
  onApp (AppState.ensureChannelPermission config request.agentId (channelCheckpoint request.channel))
  let delta := AppState.checkpointDelta deps ambient request
  let (payload, redactionReport, artifactRefs) ← preparePayload deps config ambient delta.payload
  let delta := { delta with payload := some payload }
  let parents ← resolveParents ambient delta request.parentCommitIds
  let commit := fromDelta deps delta parents payload redactionReport (AppState.checkpointExtras request artifactRefs)
  record deps config ambient delta commit
  pure ⟨commit.commitId, delta.deltaId, true, true, "", some redactionReport⟩

/-- `dag.is_ancestor`, unless the rollback is forced -/
def checkAncestor (request : RollbackRequest) : Activity Unit :=
  if request.force = true then pure ()
  else onApp do
    let state ← get
    ensure (state.dag.isAncestor request.targetCommitId request.headCommitId = true)
      (.message "target commit is not an ancestor of the current head; use force to move the head anyway")

/-- `dag.ancestry` -/
def readAncestry (commitId : String) : Activity (List String) := onApp do
  let state ← get
  pure (state.dag.ancestry commitId)

/-- The loop over the ancestry, up to the target, with one read for each commit -/
def collectWarnings (target : String) : List String → Activity (List String)
  | [] => pure []
  | commitId :: rest =>
      if commitId = target then pure []
      else do
        let found ← onStore (SqliteStore.getCommit ambient (.getWalkCommit commitId) commitId)
        let later ← collectWarnings target rest
        pure (commitWarnings found ++ later)

/-- `append_event`, whose two statements take the lock one after the other -/
def appendEvent (eventType : String) (payloadJson : Bytes) : Activity Unit := do
  onStore do
    ambient.attempt .insertAuditEvent
    modify fun store => { store with auditEvents := store.auditEvents ++ [⟨eventType, payloadJson⟩] }
  if eventType = "rollback" then onStore do
    ambient.attempt .insertRollbackEvent
    modify fun store => { store with rollbackEvents := store.rollbackEvents ++ [payloadJson] }
  else pure ()

def rollbackInner (request : RollbackRequest) : Activity RollbackResponse := do
  checkAncestor request
  let found ← onStore (SqliteStore.getCommit ambient .getHeadCommit request.headCommitId)
  let head ← required found "head commit not found"
  let found ← onStore (SqliteStore.getCommit ambient .getTargetCommit request.targetCommitId)
  let target ← required found "target commit not found"
  let walk ← readAncestry request.headCommitId
  let warnings ← collectWarnings ambient request.targetCommitId walk
  onStore (SqliteStore.setHead ambient head.lineage target.commitId)
  appendEvent ambient "rollback" (deps.toVec (rollbackEvent head target warnings))
  pure ⟨true, request.headCommitId, request.targetCommitId, warnings⟩

def forkInner (request : ForkRequest) : Activity ForkResult := do
  let found ← onStore (SqliteStore.getCommit ambient .getSourceCommit request.sourceCommitId)
  let source ← required found "source commit not found"
  let runId := forkRunId ambient request
  onStore (SqliteStore.setHead ambient { source.lineage with runId := runId } source.commitId)
  appendEvent ambient "fork" (deps.toVec (forkEvent source runId))
  pure ⟨request.sourceCommitId, runId, request.sourceCommitId⟩

def registerAgentInner (request : RegisterAgentRequest) : Activity RegisterAgentResponse := do
  let granted := grantRequested config request.requestedScopes
  onApp (modify fun state => { state with grants := state.grants.insert request.agentId granted })
  onApp (modify fun state => { state with bus := state.bus ++ [.registerAgent request] })
  pure ⟨true, request.agentId, granted, "nexus.v1"⟩

/-- One call, action by action -/
def serve (call : Call) : Activity Response :=
  match call.request with
  | .registerAgent request => do
      let response ← registerAgentInner config request
      pure (.registerAgent response)
  | .publishDelta request => do
      let response ← publishDeltaInner deps config call.ambient request
      pure (.publishDelta response)
  | .checkpoint request => do
      let response ← checkpointInner deps config call.ambient request
      pure (.checkpoint response)
  | .rollback request => do
      let response ← rollbackInner deps call.ambient request
      pure (.rollback response)
  | .fork request => do
      let response ← forkInner deps call.ambient request
      pure (.fork response)

/-- Any number of calls side by side -/
abbrev Calls : Type := Pool Call Daemon Error Response

/-- A run of calls side by side on a daemon that started on an empty database -/
abbrev SideBySide (moves : List (Pool.Move Call)) (calls : Calls) : Prop :=
  Run (Pool.Step (serve deps config)) (Pool.idle initial) moves calls

end Daemon

end AttowNexus
