import AttowNexus.Model.Ambient
import AttowNexus.Model.Diff
import AttowNexus.Model.UniversalEvent

/-! # The bodies of HTTP requests

The structs of `http/api.rs` that serde fills from a JSON body, and the protocol requests that the handlers make of
them. Serde looks a field up by its name, or by its place when the body is an array, and ignores what it does not know.
-/

namespace AttowNexus

/-- The fields of a body -/
structure BodyFields where
  find : String → Option Json
  /-- Whether they are found by name -/
  named : Bool

namespace BodyFields

/-- A struct with the given fields, out of a value -/
def of (names : List String) : Json → Option BodyFields
  | .object members => some ⟨fun name => JsonMap.get name members, true⟩
  | .array items =>
      if items.length ≤ names.length then some ⟨fun name => items[names.idxOf name]?, false⟩ else none
  | _ => none

variable {α : Type} (fields : BodyFields) (decode : Json → Option α)

def required (name : String) : Option α := (fields.find name).bind decode

/-- A field of a type `Option<T>` -/
def optional (name : String) : Option (Option α) :=
  match fields.find name with
  | none => if fields.named then some none else none
  | some .null => some none
  | some value => (decode value).map some

/-- A field with `#[serde(default)]` -/
def defaulted (default : α) (name : String) : Option α :=
  match fields.find name with
  | none => some default
  | some value => decode value

end BodyFields

namespace Json

def asBool : Json → Option Bool
  | .bool flag => some flag
  | _ => none

/-- A `u64` -/
def asU64 : Json → Option UInt64
  | .number (.posInt value) => if value < 2 ^ 64 then some (UInt64.ofNat value) else none
  | _ => none

/-- A `Vec<T>` -/
def asVec {α : Type} (decode : Json → Option α) : Json → Option (List α)
  | .array items => items.mapM decode
  | _ => none

/-- The entries of a `HashMap<String, String>` -/
def asStringMap : Json → Option (List (String × String))
  | .object members => members.mapM fun (key, value) => value.asStr.map fun text => (key, text)
  | _ => none

end Json

/-- What the environment decides for a request besides its share of the operation -/
structure HttpAmbient where
  ambient : Ambient
  /-- The order in which a `HashMap` lists its entries -/
  iterate : List (String × String) → List (String × String)
  effectUuid : ℕ → Uuid
  effectNow : ℕ → Timestamp
  /-- The text of the error of a store call -/
  describe : StoreCall → String

structure RegisterAgentBody where
  agentId : String
  runId : String
  threadId : Option String
  framework : Option String
  language : Option String
  capabilities : List String
  metadata : List (String × String)
deriving DecidableEq, Repr

structure PublishDeltaBody where
  channel : String
  agentId : String
  runId : String
  threadId : Option String
  delta : Json
  durable : Bool
  tags : List String
  summary : Option String
  objective : Option String
  logicalClock : Option UInt64
  parentCommitIds : List String
  metadata : List (String × String)

structure SideEffectBody where
  sideEffectId : Option String
  kind : String
  description : Option String
  target : Option String
  payloadSummary : Option String
  reversible : Option Bool
  compensatingActionAvailable : Option Bool
deriving DecidableEq, Repr

structure CheckpointBody where
  agentId : String
  runId : String
  threadId : Option String
  channel : String
  state : Json
  summary : Option String
  objective : Option String
  tags : List String
  parentCommitIds : List String
  metadata : List (String × String)
  externalSideEffects : Option (List SideEffectBody)

structure ReplayBody where
  commitId : String
  mode : Option String
  confirmReexecuteTools : Option Bool
deriving DecidableEq, Repr

structure ForkBody where
  sourceCommitId : String
  newRunId : Option String
deriving DecidableEq, Repr

structure RollbackBody where
  headCommitId : String
  targetCommitId : String
  force : Option Bool
deriving DecidableEq, Repr

section Decoding

open Json BodyFields

def RegisterAgentBody.fromJson (body : Json) : Option RegisterAgentBody := do
  let fields ← BodyFields.of ["agent_id", "run_id", "thread_id", "framework", "language", "capabilities", "metadata"] body
  pure {
    agentId := ← fields.required asStr "agent_id"
    runId := ← fields.required asStr "run_id"
    threadId := ← fields.optional asStr "thread_id"
    framework := ← fields.optional asStr "framework"
    language := ← fields.optional asStr "language"
    capabilities := ← fields.defaulted (asVec asStr) [] "capabilities"
    metadata := ← fields.defaulted asStringMap [] "metadata" }

def PublishDeltaBody.fromJson (body : Json) : Option PublishDeltaBody := do
  let fields ← BodyFields.of ["channel", "agent_id", "run_id", "thread_id", "delta", "durable", "tags", "summary",
    "objective", "logical_clock", "parent_commit_ids", "metadata"] body
  pure {
    channel := ← fields.required asStr "channel"
    agentId := ← fields.required asStr "agent_id"
    runId := ← fields.required asStr "run_id"
    threadId := ← fields.optional asStr "thread_id"
    delta := ← fields.required some "delta"
    durable := ← fields.defaulted asBool false "durable"
    tags := ← fields.defaulted (asVec asStr) [] "tags"
    summary := ← fields.optional asStr "summary"
    objective := ← fields.optional asStr "objective"
    logicalClock := ← fields.optional asU64 "logical_clock"
    parentCommitIds := ← fields.defaulted (asVec asStr) [] "parent_commit_ids"
    metadata := ← fields.defaulted asStringMap [] "metadata" }

def SideEffectBody.fromJson (body : Json) : Option SideEffectBody := do
  let fields ← BodyFields.of ["side_effect_id", "kind", "description", "target", "payload_summary", "reversible",
    "compensating_action_available"] body
  pure {
    sideEffectId := ← fields.optional asStr "side_effect_id"
    kind := ← fields.required asStr "kind"
    description := ← fields.optional asStr "description"
    target := ← fields.optional asStr "target"
    payloadSummary := ← fields.optional asStr "payload_summary"
    reversible := ← fields.optional asBool "reversible"
    compensatingActionAvailable := ← fields.optional asBool "compensating_action_available" }

def CheckpointBody.fromJson (body : Json) : Option CheckpointBody := do
  let fields ← BodyFields.of ["agent_id", "run_id", "thread_id", "channel", "state", "summary", "objective", "tags",
    "parent_commit_ids", "metadata", "external_side_effects"] body
  pure {
    agentId := ← fields.required asStr "agent_id"
    runId := ← fields.required asStr "run_id"
    threadId := ← fields.optional asStr "thread_id"
    channel := ← fields.required asStr "channel"
    state := ← fields.required some "state"
    summary := ← fields.optional asStr "summary"
    objective := ← fields.optional asStr "objective"
    tags := ← fields.defaulted (asVec asStr) [] "tags"
    parentCommitIds := ← fields.defaulted (asVec asStr) [] "parent_commit_ids"
    metadata := ← fields.defaulted asStringMap [] "metadata"
    externalSideEffects := ← fields.optional (asVec SideEffectBody.fromJson) "external_side_effects" }

def ReplayBody.fromJson (body : Json) : Option ReplayBody := do
  let fields ← BodyFields.of ["commit_id", "mode", "confirm_reexecute_tools"] body
  pure {
    commitId := ← fields.required asStr "commit_id"
    mode := ← fields.optional asStr "mode"
    confirmReexecuteTools := ← fields.optional asBool "confirm_reexecute_tools" }

def ForkBody.fromJson (body : Json) : Option ForkBody := do
  let fields ← BodyFields.of ["source_commit_id", "new_run_id"] body
  pure {
    sourceCommitId := ← fields.required asStr "source_commit_id"
    newRunId := ← fields.optional asStr "new_run_id" }

def RollbackBody.fromJson (body : Json) : Option RollbackBody := do
  let fields ← BodyFields.of ["head_commit_id", "target_commit_id", "force"] body
  pure {
    headCommitId := ← fields.required asStr "head_commit_id"
    targetCommitId := ← fields.required asStr "target_commit_id"
    force := ← fields.optional asBool "force" }

end Decoding

section Requests

variable (deps : External) (ambient : HttpAmbient)

def metadataFromMap (map : List (String × String)) : Metadata :=
  ⟨(ambient.iterate map).map fun (key, value) => ⟨key, value⟩⟩

def metadataFromValue (value : Json) : Metadata :=
  ⟨((value.asObject).getD []).map fun (key, value) => ⟨key, value.asStr.getD (deps.jsonText value)⟩⟩

/-- `payload_from_json`; a value can always be printed. -/
def payloadFromJson (value : Json) : Payload := jsonPayload deps (deps.toVec value)

def RegisterAgentBody.request (body : RegisterAgentBody) : RegisterAgentRequest where
  agentId := body.agentId
  runId := body.runId
  threadId := body.threadId.getD ""
  metadata := some ⟨body.framework.getD "custom", body.language.getD "", some (metadataFromMap ambient body.metadata)⟩
  capabilities := some ⟨body.capabilities⟩
  requestedScopes := []

def PublishDeltaBody.request (body : PublishDeltaBody) : PublishDeltaRequest where
  delta := some {
    deltaId := newId "delta" ambient.ambient.deltaUuid
    channel := body.channel
    agentId := body.agentId
    runId := body.runId
    threadId := body.threadId.getD ""
    logicalClock := body.logicalClock.getD 0
    wallTime := some ambient.ambient.now
    payload := some (payloadFromJson deps body.delta)
    durable := body.durable
    tags := body.tags
    summary := body.summary.getD ""
    metadata := some (metadataFromMap ambient body.metadata) }
  parentCommitIds := body.parentCommitIds
  objective := body.objective.getD ""

/-- `SideEffectBody::into_proto`, for the effect at a place of the list -/
def SideEffectBody.intoProto (place : ℕ) (body : SideEffectBody) : ExternalSideEffect where
  sideEffectId := body.sideEffectId.getD (newId "effect" (ambient.effectUuid place))
  kind := body.kind
  description := body.description.getD ""
  target := body.target.getD ""
  payloadSummary := body.payloadSummary.getD ""
  occurredAt := some (ambient.effectNow place)
  reversible := body.reversible.getD false
  compensatingActionAvailable := body.compensatingActionAvailable.getD false
  metadata := none

def CheckpointBody.request (body : CheckpointBody) : CheckpointRequest where
  agentId := body.agentId
  runId := body.runId
  threadId := body.threadId.getD ""
  channel := body.channel
  objective := body.objective.getD ""
  payload := some (payloadFromJson deps body.state)
  parentCommitIds := body.parentCommitIds
  tags := body.tags
  summary := body.summary.getD ""
  metadata := some (metadataFromMap ambient body.metadata)
  toolCalls := []
  toolResults := []
  artifactRefs := []
  externalSideEffects := (body.externalSideEffects.getD []).mapIdx (SideEffectBody.intoProto ambient)

/-- The checkpoint that `universal_event` makes of an event and what was read of it -/
def UniversalEventBody.request (value : Json) (body : UniversalEventBody) : CheckpointRequest where
  agentId := body.agentId
  runId := body.runId
  threadId := body.threadId
  channel := body.channel
  objective := ""
  payload := some (payloadFromJson deps value)
  parentCommitIds := body.parentCommitIds
  tags := body.tags
  summary := body.framework ++ " " ++ body.eventType
  metadata := some (metadataFromValue deps body.metadata)
  toolCalls := []
  toolResults := []
  artifactRefs := []
  externalSideEffects := []

def ReplayBody.request (body : ReplayBody) : ReplayRequest where
  commitId := body.commitId
  mode := (match body.mode with
    | some "dry_run_tools" => ReplayMode.dryRunTools
    | some "reexecute_tools" => .reexecuteTools
    | _ => .stateOnly).toI32
  confirmReexecuteTools := body.confirmReexecuteTools.getD false

def ForkBody.request (body : ForkBody) : ForkRequest := ⟨body.sourceCommitId, body.newRunId.getD "", none⟩

def RollbackBody.request (body : RollbackBody) : RollbackRequest :=
  ⟨body.headCommitId, body.targetCommitId, body.force.getD false⟩

end Requests

end AttowNexus
