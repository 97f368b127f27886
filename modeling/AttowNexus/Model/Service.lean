import AttowNexus.Model.Rollback
import AttowNexus.Model.LoopDetector
import AttowNexus.Model.Permissions
import AttowNexus.Model.Redaction
import AttowNexus.Model.Replay

/-! # The service

`AppState` of `grpc/service.rs` and its operations. A publish or a checkpoint is planned first, up to the
commit it wants to write, and then recorded; the two halves are separate because other requests can
come in between. The bus is the list of the calls made to it.
-/

namespace AttowNexus

open Fallible

inductive BusCall where
  | registerAgent (request : RegisterAgentRequest)
  | heartbeat (agentId : String)
  | broadcast (delta : StateDelta) (commitId : String)

/-- The message of `Bus::broadcast`, for every subscriber whose filter fits. -/
def BusCall.message : BusCall → Option BroadcastDelta
  | .broadcast delta commitId => some ⟨some delta, commitId, true⟩
  | .registerAgent _ => none
  | .heartbeat _ => none

structure AppState where
  dag : DagIndex
  store : SqliteStore
  detector : LoopDetector
  grants : HashMap String (List PermissionScope)
  bus : List BusCall

/-- A commit that is ready to be recorded. -/
structure Plan where
  delta : StateDelta
  redactionReport : RedactionReport
  commit : Commit

inductive PublishPlan where
  | broadcastOnly (delta : StateDelta) (redactionReport : RedactionReport)
  | durable (plan : Plan)

namespace AppState

/-- `AppState::new` on an open store and its index. -/
def new (store : SqliteStore) (dag : DagIndex) : AppState := ⟨dag, store, .new, ∅, []⟩

/-- A daemon on an empty database. -/
def initial : AppState := new .empty .empty

/-- The start of `run`: load the commits and rebuild the index. -/
def restart (store : SqliteStore) : Except String AppState := do
  let dag ← DagIndex.fromCommits store.tables.listAllCommits
  pure (new store dag)

/-- A store call of the service. -/
def onStore {α : Type} : Fallible SqliteStore Error α → Fallible AppState Error α :=
  zoom (·.store) fun store state => { state with store := store }

/-- `bus.broadcast` -/
def broadcast (delta : StateDelta) (commitId : String) : Fallible AppState Error Unit :=
  modify fun state => { state with bus := state.bus ++ [.broadcast delta commitId] }

/-- `bus.heartbeat` -/
def heartbeat (agentId : String) : Fallible AppState Error Unit :=
  modify fun state => { state with bus := state.bus ++ [.heartbeat agentId] }

variable (deps : External) (config : Config) (ambient : Ambient)

def emptyJsonPayload : Payload := jsonPayload deps (utf8Bytes "\x7b\x7d")

def normalizeDelta (delta : StateDelta) : StateDelta :=
  { delta with
    deltaId := if delta.deltaId = "" then newId "delta" ambient.deltaUuid else delta.deltaId
    wallTime := some (delta.wallTime.getD ambient.now)
    payload := some (delta.payload.getD (emptyJsonPayload deps))
    metadata := some (delta.metadata.getD ⟨[]⟩) }

def ensureChannelPermission (agentId scope : String) : Fallible AppState Error Unit :=
  if config.requireAuth = false then pure ()
  else do
    let state ← get
    let granted := (state.grants.lookup agentId).getD []
    ensure (isAllowed config granted scope = true) (.message ("permission denied for " ++ scope))

/-- `prepare_payload` up to the redaction. -/
def redactedPayload (payload : Option Payload) : Payload × RedactionReport :=
  let payload := payload.getD (emptyJsonPayload deps)
  let contentHash := if payload.contentHash = "" then deps.blake3Hex payload.data else payload.contentHash
  let payload := { payload with contentHash := contentHash, sizeBytes := payload.data.length }
  if config.redactionEnabled then redactPayload deps payload else (payload, ⟨[], false⟩)

/-- The payload whose data went into an artifact. -/
def movedPayload (payload : Payload) (artifact : ArtifactRef) : Payload :=
  { payload with
    artifactRef := artifact.artifactId
    data := []
    sizeBytes := artifact.sizeBytes
    compressed := artifact.compressed }

def preparePayload (payload : Option Payload) :
    Fallible AppState Error (Payload × RedactionReport × List ArtifactRef) :=
  let (payload, redactionReport) := redactedPayload deps config payload
  if config.maxInlinePayloadBytes < payload.data.length then do
    let artifact ← onStore
      (SqliteStore.putArtifact deps config ambient payload.data "application/octet-stream")
    pure (movedPayload payload artifact, redactionReport, [artifact])
  else pure (payload, redactionReport, [])

def resolveParents (delta : StateDelta) (explicitParents : List String) :
    Fallible AppState Error (List String) :=
  if explicitParents ≠ [] then pure explicitParents
  else do
    let head ← onStore (SqliteStore.getHead ambient delta.lineage)
    pure head.toList

/-- `dag.append` on the shared index. -/
def appendToDag (commit : Commit) : Fallible AppState Error Unit := do
  let state ← get
  let dag ← lift ((state.dag.append commit).mapError Error.message)
  modify fun state => { state with dag := dag }

def persistCommit (commit : Commit) : Fallible AppState Error Unit := do
  appendToDag commit
  onStore (SqliteStore.appendCommit ambient commit)
  onStore (SqliteStore.setHead ambient commit.lineage commit.commitId)

/-- The delta that announces a loop warning. -/
def loopWarningDelta (warning : LoopWarning) : StateDelta :=
  let value : Json := .ofMembers [
    ("warning_id", .string warning.warningId), ("run_id", .string warning.runId),
    ("agent_id", .string warning.agentId), ("channel", .string warning.channel),
    ("severity", .number (.posInt warning.severity.toI32)),
    ("fingerprint", .string warning.fingerprint),
    ("repetition_count", .number (.posInt warning.repetitionCount)),
    ("suggested_stable_commit_id", .string warning.suggestedStableCommitId),
    ("message", .string warning.message)]
  { deltaId := newId "delta" ambient.warningUuid
    channel := "system:loop_warnings"
    agentId := "nexusd"
    runId := warning.runId
    threadId := ""
    logicalClock := 0
    wallTime := some ambient.warnedAt
    payload := some (jsonPayload deps (deps.toVec value))
    durable := false
    tags := ["loop_warning"]
    summary := "Loop warning emitted"
    metadata := none }

/-- The rest of `inspect_loop` once the detector has answered. -/
def reportLoop : Option LoopWarning → Fallible AppState Error Unit
  | none => pure ()
  | some warning => do
      onStore (SqliteStore.appendLoopWarning ambient warning)
      broadcast (loopWarningDelta deps ambient warning) ""

def inspectLoop (commit : Commit) : Fallible AppState Error Unit :=
  if config.loopDetectionEnabled = false then pure ()
  else do
    let state ← get
    let (warning, detector) := state.detector.inspect deps ambient commit
    modify fun state => { state with detector := detector }
    reportLoop deps ambient warning

/-- Persist a planned commit, broadcast its delta and look for a loop. -/
def record (plan : Plan) : Fallible AppState Error Unit := do
  persistCommit ambient plan.commit
  broadcast plan.delta plan.commit.commitId
  inspectLoop deps config ambient plan.commit

/-- The extras of a published commit. -/
def publishExtras (objective : String) (artifactRefs : List ArtifactRef) : CommitExtras :=
  ⟨objective, [], [], artifactRefs, [], "nexusd", "0.1.0"⟩

/-- `publish_delta_inner` up to the commit, or up to the broadcast of an ephemeral delta. -/
def planPublish (request : PublishDeltaRequest) : Fallible AppState Error PublishPlan := do
  let delta ← required request.delta "PublishDeltaRequest.delta is required"
  let delta := normalizeDelta deps ambient delta
  ensureChannelPermission config delta.agentId (channelWrite delta.channel)
  let (payload, redactionReport, artifactRefs) ← preparePayload deps config ambient delta.payload
  let delta := { delta with payload := some payload }
  if delta.durable = false ∧ config.persistEphemeral = false then pure (.broadcastOnly delta redactionReport)
  else do
    let parents ← resolveParents ambient delta request.parentCommitIds
    pure (.durable ⟨delta, redactionReport,
      fromDelta deps delta parents payload redactionReport (publishExtras request.objective artifactRefs)⟩)

def publishDeltaInner (request : PublishDeltaRequest) : Fallible AppState Error PublishDeltaResponse := do
  let plan ← planPublish deps config ambient request
  match plan with
  | .broadcastOnly delta redactionReport => do
      broadcast delta ""
      pure ⟨delta.deltaId, "", true, false, "", some redactionReport⟩
  | .durable plan => do
      record deps config ambient plan
      pure ⟨plan.delta.deltaId, plan.commit.commitId, true, true, "", some plan.redactionReport⟩

/-- The delta of a checkpoint, at clock 0. -/
def checkpointDelta (request : CheckpointRequest) : StateDelta :=
  normalizeDelta deps ambient
    { deltaId := newId "delta" ambient.deltaUuid
      channel := request.channel
      agentId := request.agentId
      runId := request.runId
      threadId := request.threadId
      logicalClock := 0
      wallTime := some ambient.now
      payload := some (request.payload.getD (emptyJsonPayload deps))
      durable := true
      tags := request.tags
      summary := request.summary
      metadata := request.metadata }

/-- The extras of a checkpoint. -/
def checkpointExtras (request : CheckpointRequest) (artifactRefs : List ArtifactRef) : CommitExtras :=
  ⟨request.objective, request.toolCalls, request.toolResults, artifactRefs ++ request.artifactRefs,
    request.externalSideEffects, "nexusd", "0.1.0"⟩

/-- `checkpoint_inner` up to the commit. -/
def planCheckpoint (request : CheckpointRequest) : Fallible AppState Error Plan := do
  ensureChannelPermission config request.agentId (channelCheckpoint request.channel)
  let delta := checkpointDelta deps ambient request
  let (payload, redactionReport, artifactRefs) ← preparePayload deps config ambient delta.payload
  let delta := { delta with payload := some payload }
  let parents ← resolveParents ambient delta request.parentCommitIds
  pure ⟨delta, redactionReport,
    fromDelta deps delta parents payload redactionReport (checkpointExtras request artifactRefs)⟩

def checkpointInner (request : CheckpointRequest) : Fallible AppState Error CheckpointResponse := do
  let plan ← planCheckpoint deps config ambient request
  record deps config ambient plan
  pure ⟨plan.commit.commitId, plan.delta.deltaId, true, true, "", some plan.redactionReport⟩

def replayInner (request : ReplayRequest) : Fallible AppState Error ReplayResult := do
  let state ← get
  lift (replay deps state.store.tables request)

def forkInner (request : ForkRequest) : Fallible AppState Error ForkResult :=
  onStore (fork deps ambient request)

def rollbackInner (request : RollbackRequest) : Fallible AppState Error RollbackResponse := do
  let state ← get
  onStore (rollback deps ambient state.dag request)

def registerAgentInner (request : RegisterAgentRequest) : Fallible AppState Error RegisterAgentResponse := do
  let granted := grantRequested config request.requestedScopes
  modify fun state =>
    { state with
      grants := state.grants.insert request.agentId granted
      bus := state.bus ++ [.registerAgent request] }
  pure ⟨true, request.agentId, granted, "nexus.v1"⟩

end AppState

end AttowNexus
