import AttowNexus.Model.Auth
import AttowNexus.Model.HttpBodies
import AttowNexus.Model.Race

/-! # The HTTP API

The guarded handlers of `http/api.rs` that register agents and read or change the ledger. A body is decoded before its
handler runs, so a request can be refused for its body before its token is looked at. What a handler answers is a JSON
value; what it refuses has a status and a message.
-/

namespace AttowNexus

open Fallible

inductive HttpStatus where
  | badRequest
  | unauthorized
  | forbidden
  | notFound
  | internalServerError
deriving DecidableEq, Repr, Inhabited

/-- The answer to a request that is refused -/
inductive HttpError where
  | refused (status : HttpStatus) (message : String)
  /-- The body does not decode, which the framework answers. -/
  | undecodable
deriving DecidableEq, Repr

/-- `diff_inner`'s request -/
structure DiffCommitsRequest where
  fromCommitId : String
  toCommitId : String
  fromNearestCommonAncestor : Bool
deriving DecidableEq, Repr

/-- A request to a guarded route, routed to its handler, with its path parameter, its query or its body. The guarded
`agents`, `channels` and `metrics_summary`, which only list what the bus and the counters hold, are left out, and so are
`health` and `events_stream`, which have no guard. -/
inductive HttpRequest where
  | registerAgent (body : Json)
  | channelSnapshot (channel : String)
  | channelDeltas (channel : String)
  | publishDelta (body : Json)
  | universalEvent (value : Json)
  | checkpoint (body : Json)
  | runs
  | runCommits (runId : String)
  | commit (commitId : String)
  | diff (query : DiffCommitsRequest)
  | replay (body : Json)
  | fork (body : Json)
  | rollback (body : Json)
  | loopWarnings

structure HttpCall where
  headers : HeaderMap
  request : HttpRequest
  ambient : HttpAmbient

section Messages

/-- `internal_error` of a message -/
def statusOf (message : String) : HttpStatus :=
  if "not found".toList <:+: message.toList then .notFound
  else if "permission denied".toList <:+: message.toList then .forbidden
  else .internalServerError

/-- `err.to_string()` -/
def Error.text (describe : StoreCall → String) : Error → String
  | .message text => text
  | .store call => describe call

/-- `internal_error` -/
def internalError (ambient : HttpAmbient) (error : Error) : HttpError :=
  let message := error.text ambient.describe
  .refused (statusOf message) message

/-- The answer of `guard` -/
def HttpRefusal.toError : HttpRefusal → HttpError
  | .unauthorized => .refused .unauthorized "request is not authorized for this local Attow Nexus daemon"
  | .forbidden => .refused .forbidden "request is not authorized for this local Attow Nexus daemon"

def guard (config : AuthConfig) (headers : HeaderMap) : Except HttpError Unit :=
  (validateHttp headers config).mapError HttpRefusal.toError

/-- The refusal of a universal event -/
def eventRefusal : Refusal → HttpError
  | (.badRequest, message) => .refused .badRequest message

end Messages

section Answers

def Json.ofInt (value : ℤ) : Json := .number (if 0 ≤ value then .posInt value.toNat else .negInt value)

def Json.strings (texts : List String) : Json := .array (texts.map .string)

def Json.ofNat (value : ℕ) : Json := .number (.posInt value)

/-- A value that may be absent -/
def Json.orNull {α : Type} (json : α → Json) (value : Option α) : Json := (value.map json).getD .null

variable (deps : External)

def redactedFlag (report : Option RedactionReport) : Bool := (report.map (·.redacted)).getD false

def RegisterAgentResponse.toJson (response : RegisterAgentResponse) : Json := .ofMembers [
  ("accepted", .bool response.accepted), ("agentId", .string response.agentId),
  ("protocolVersion", .string response.protocolVersion),
  ("grantedScopes", .strings (response.grantedScopes.map (·.value)))]

def PublishDeltaResponse.toJson (response : PublishDeltaResponse) : Json := .ofMembers [
  ("deltaId", .string response.deltaId), ("commitId", .string response.commitId),
  ("accepted", .bool response.accepted), ("persisted", .bool response.persisted),
  ("warning", .string response.warning), ("redacted", .bool (redactedFlag response.redactionReport))]

def CheckpointResponse.toJson (response : CheckpointResponse) : Json := .ofMembers [
  ("commitId", .string response.commitId), ("deltaId", .string response.deltaId),
  ("accepted", .bool response.accepted), ("persisted", .bool response.persisted),
  ("warning", .string response.warning), ("redacted", .bool (redactedFlag response.redactionReport))]

def RunSummary.toJson (run : RunSummary) : Json := .ofMembers [
  ("runId", .string run.runId), ("commitCount", .ofNat run.commitCount),
  ("lastCommitAt", .orNull (fun time => .ofInt time.seconds) run.lastCommitAt)]

def ReplayResult.toJson (result : ReplayResult) : Json := .ofMembers [
  ("commitId", .string result.commitId), ("reconstructedState", payloadToJson deps result.reconstructedState),
  ("sideEffectWarnings", .strings result.sideEffectWarnings),
  ("provenanceCommitIds", .strings result.provenanceCommitIds),
  ("missingArtifactWarnings", .strings result.missingArtifactWarnings)]

def ForkResult.toJson (result : ForkResult) : Json := .ofMembers [
  ("sourceCommitId", .string result.sourceCommitId), ("runId", .string result.runId),
  ("headCommitId", .string result.headCommitId)]

def RollbackResponse.toJson (result : RollbackResponse) : Json := .ofMembers [
  ("moved", .bool result.moved), ("previousHeadCommitId", .string result.previousHeadCommitId),
  ("newHeadCommitId", .string result.newHeadCommitId), ("warnings", .strings result.warnings)]

def ChannelSnapshotResponse.toJson (snapshot : ChannelSnapshotResponse) : Json := .ofMembers [
  ("channel", .string snapshot.channel), ("latestPayload", payloadToJson deps snapshot.latestPayload),
  ("durableCount", .ofNat snapshot.durableCount), ("ephemeralCount", .ofNat snapshot.ephemeralCount)]

def DeltaInfo.toJson (delta : DeltaInfo) : Json := .ofMembers [
  ("delta_id", .string delta.deltaId), ("commit_id", .string delta.commitId), ("channel", .string delta.channel),
  ("agent_id", .string delta.agentId), ("run_id", .string delta.runId), ("durable", .bool delta.durable),
  ("summary", .string delta.summary), ("wall_time_seconds", .ofInt delta.wallTimeSeconds)]

def LoopWarning.toJson (warning : LoopWarning) : Json := .ofMembers [
  ("warningId", .string warning.warningId), ("runId", .string warning.runId), ("agentId", .string warning.agentId),
  ("channel", .string warning.channel), ("severity", .ofNat warning.severity.toI32),
  ("fingerprint", .string warning.fingerprint), ("repetitionCount", .ofNat warning.repetitionCount),
  ("suggestedStableCommitId", .string warning.suggestedStableCommitId), ("message", .string warning.message)]

/-- A side of a diff entry: the JSON that its text holds, or the text -/
def entrySide (text : String) : Json := ((deps.fromSlice (utf8Bytes text)).map (·.1)).getD (.string text)

def CommitDiff.toJson (diff : CommitDiff) : Json := .ofMembers [
  ("fromCommitId", .string diff.fromCommitId), ("toCommitId", .string diff.toCommitId),
  ("humanSummary", .string diff.humanSummary),
  ("entries", .array (diff.entries.map fun entry => .ofMembers [
    ("path", .string entry.path), ("changeType", .string entry.changeType),
    ("before", entrySide deps entry.beforeJson), ("after", entrySide deps entry.afterJson)]))]

/-- The members of `commit_summary` -/
def summaryMembers (commit : Commit) : List (String × Json) := [
  ("commitId", .string commit.commitId), ("deltaId", .string commit.deltaId), ("runId", .string commit.runId),
  ("threadId", .string commit.threadId), ("agentId", .string commit.agentId), ("channel", .string commit.channel),
  ("logicalClock", .ofNat commit.logicalClock.toNat),
  ("wallTime", .orNull (fun time => .ofInt time.seconds) commit.wallTime),
  ("summary", .string commit.summary), ("tags", .strings commit.tags),
  ("parentCommitIds", .strings commit.parentCommitIds),
  ("sideEffectCount", .ofNat commit.externalSideEffects.length)]

def commitSummary (commit : Commit) : Json := .ofMembers (summaryMembers commit)

/-- The members that `commit_detail` inserts after those of the summary -/
def detailMembers (commit : Commit) : List (String × Json) := [
  ("objective", .string commit.objective), ("stateDelta", payloadToJson deps commit.stateDelta),
  ("toolCalls", .array (commit.toolCalls.map fun tool => .ofMembers [
    ("toolCallId", .string tool.toolCallId), ("name", .string tool.name)])),
  ("toolResults", .array (commit.toolResults.map fun result => .ofMembers [
    ("toolCallId", .string result.toolCallId), ("hasError", .bool result.error.isSome)])),
  ("artifacts", .array (commit.artifactRefs.map fun artifact => .ofMembers [
    ("artifactId", .string artifact.artifactId), ("contentHash", .string artifact.contentHash),
    ("sizeBytes", .ofNat artifact.sizeBytes), ("mediaType", .string artifact.mediaType),
    ("compressed", .bool artifact.compressed)])),
  ("externalSideEffects", .array (commit.externalSideEffects.map fun sideEffect => .ofMembers [
    ("sideEffectId", .string sideEffect.sideEffectId), ("kind", .string sideEffect.kind),
    ("description", .string sideEffect.description), ("target", .string sideEffect.target),
    ("reversible", .bool sideEffect.reversible),
    ("compensatingActionAvailable", .bool sideEffect.compensatingActionAvailable)]))]

def commitDetail (commit : Commit) : Json := .ofMembers (summaryMembers commit ++ detailMembers deps commit)

end Answers

/-- `list_loop_warnings`; warnings of the same second stay in insertion order. -/
def SqliteStore.listLoopWarnings (store : SqliteStore) : List LoopWarning :=
  (store.loopWarnings.insertionSort fun a b => b.lastSeenSeconds ≤ a.lastSeenSeconds).map (·.proto)

namespace Api

section Handlers

variable (deps : External) (config : AuthConfig)

/-- `get_commit_inner` -/
def getCommitInner (commitId : String) (s : AppState) : Except Error Commit :=
  (s.store.tables.getCommit commitId).elim (.error (.message "commit not found")) .ok

/-- `diff_inner` -/
def diffInner (request : DiffCommitsRequest) (s : AppState) : Except Error CommitDiff := do
  let fromId := if request.fromNearestCommonAncestor = true then
      (s.dag.nearestCommonAncestor request.fromCommitId request.toCommitId).getD request.fromCommitId
    else request.fromCommitId
  let before ← (s.store.tables.getCommit fromId).elim (.error (.message "from commit not found")) .ok
  let after ← (s.store.tables.getCommit request.toCommitId).elim (.error (.message "to commit not found")) .ok
  pure (diffCommits deps before after)

/-- `bus.recent_deltas`, of the broadcasts made so far -/
def recentDeltas (calls : List BusCall) (channel : String) : List DeltaInfo :=
  (calls.foldl (fun recent call =>
    match call with
    | .broadcast delta commitId => Bus.pushRecent delta commitId recent
    | .registerAgent _ => recent
    | .heartbeat _ => recent) []).filter fun delta => delta.channel = channel

/-- A body, or the answer of the framework -/
def decoded {α : Type} (body : Option α) : Fallible AppState HttpError α := lift (body.elim (.error .undecodable) .ok)

/-- `guard(&state, &headers)?` -/
def guarded (headers : HeaderMap) : Fallible AppState HttpError Unit := lift (guard config headers)

/-- `.map_err(internal_error)?` -/
def answering {α : Type} (ambient : HttpAmbient) (x : Fallible AppState Error α) : Fallible AppState HttpError α :=
  fun s => ((x s).1.mapError (internalError ambient), (x s).2)

variable (ambient : HttpAmbient) (headers : HeaderMap)

/-- A handler with a body, around one call of the service -/
def posted {α β : Type} (body : Option α) (operation : α → Fallible AppState Error β) (json : β → Json) :
    Fallible AppState HttpError Json := do
  let body ← decoded body
  guarded config headers
  let response ← answering ambient (operation body)
  pure (json response)

/-- A read of the state -/
def query {α : Type} (read : AppState → Except Error α) : Fallible AppState Error α := do
  let s ← get
  lift (read s)

/-- A handler that reads -/
def got {β : Type} (read : AppState → Except Error β) (json : β → Json) : Fallible AppState HttpError Json := do
  guarded config headers
  let value ← answering ambient (query read)
  pure (json value)

def registerAgent (body : Json) : Fallible AppState HttpError Json :=
  posted config ambient headers (RegisterAgentBody.fromJson body)
    (fun body => AppState.registerAgentInner config.toConfig (body.request ambient)) RegisterAgentResponse.toJson

def channelSnapshot (channel : String) : Fallible AppState HttpError Json :=
  got config ambient headers (fun s => .ok (s.snapshot channel)) (ChannelSnapshotResponse.toJson deps)

def channelDeltas (channel : String) : Fallible AppState HttpError Json :=
  got config ambient headers (fun s => .ok (recentDeltas s.bus channel)) fun deltas => .array (deltas.map DeltaInfo.toJson)

def publishDelta (body : Json) : Fallible AppState HttpError Json :=
  posted config ambient headers (PublishDeltaBody.fromJson body)
    (fun body => AppState.publishDeltaInner deps config.toConfig ambient.ambient (body.request deps ambient))
    PublishDeltaResponse.toJson

def checkpoint (body : Json) : Fallible AppState HttpError Json :=
  posted config ambient headers (CheckpointBody.fromJson body)
    (fun body => AppState.checkpointInner deps config.toConfig ambient.ambient (body.request deps ambient))
    CheckpointResponse.toJson

/-- The event is checked after the token. -/
def universalEvent (value : Json) : Fallible AppState HttpError Json := do
  guarded config headers
  let body ← lift ((UniversalEventBody.tryFromValue value).mapError eventRefusal)
  let response ← answering ambient
    (AppState.checkpointInner deps config.toConfig ambient.ambient (body.request deps value))
  pure response.toJson

def runs : Fallible AppState HttpError Json :=
  got config ambient headers (fun s => .ok s.store.tables.listRuns) fun runs => .array (runs.map RunSummary.toJson)

def runCommits (runId : String) : Fallible AppState HttpError Json :=
  got config ambient headers (fun s => .ok (s.store.tables.listCommits (some runId) none none))
    fun commits => .array (commits.map commitSummary)

def commit (commitId : String) : Fallible AppState HttpError Json :=
  got config ambient headers (getCommitInner commitId) (commitDetail deps)

def diffQuery (query : DiffCommitsRequest) : Fallible AppState HttpError Json :=
  got config ambient headers (diffInner deps query) (CommitDiff.toJson deps)

def replay (body : Json) : Fallible AppState HttpError Json :=
  posted config ambient headers (ReplayBody.fromJson body) (fun body => AppState.replayInner deps body.request)
    (ReplayResult.toJson deps)

def fork (body : Json) : Fallible AppState HttpError Json :=
  posted config ambient headers (ForkBody.fromJson body)
    (fun body => AppState.forkInner deps ambient.ambient body.request) ForkResult.toJson

def rollback (body : Json) : Fallible AppState HttpError Json :=
  posted config ambient headers (RollbackBody.fromJson body)
    (fun body => AppState.rollbackInner deps ambient.ambient body.request) RollbackResponse.toJson

def loopWarnings : Fallible AppState HttpError Json :=
  got config ambient headers (fun s => .ok s.store.listLoopWarnings)
    fun warnings => .array (warnings.map LoopWarning.toJson)

/-- A request, by its handler -/
def handle (call : HttpCall) : Fallible AppState HttpError Json :=
  match call.request with
  | .registerAgent body => registerAgent config call.ambient call.headers body
  | .channelSnapshot channel => channelSnapshot deps config call.ambient call.headers channel
  | .channelDeltas channel => channelDeltas config call.ambient call.headers channel
  | .publishDelta body => publishDelta deps config call.ambient call.headers body
  | .universalEvent value => universalEvent deps config call.ambient call.headers value
  | .checkpoint body => checkpoint deps config call.ambient call.headers body
  | .runs => runs config call.ambient call.headers
  | .runCommits runId => runCommits config call.ambient call.headers runId
  | .commit commitId => commit deps config call.ambient call.headers commitId
  | .diff query => diffQuery deps config call.ambient call.headers query
  | .replay body => replay deps config call.ambient call.headers body
  | .fork body => fork deps config call.ambient call.headers body
  | .rollback body => rollback deps config call.ambient call.headers body
  | .loopWarnings => loopWarnings config call.ambient call.headers

end Handlers

end Api

end AttowNexus
