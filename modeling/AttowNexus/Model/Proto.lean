import Mathlib.Data.List.Basic
import Mathlib.Data.Int.Notation
import Mathlib.Data.Nat.Notation

/-! # Messages of the `nexus.v1` protocol

The prost structs of `proto/nexus/v1` that the ledger reads or writes, with all their fields. An
enumeration field travels as its raw `i32`; a submessage is optional. Byte strings are lists of
bytes, and times are the signed integers of the wire.
-/

namespace AttowNexus

abbrev Bytes := List UInt8

structure Timestamp where
  seconds : ℤ
  nanos : ℤ
deriving DecidableEq, Repr, Inhabited

structure KeyValue where
  key : String
  value : String
deriving DecidableEq, Repr, Inhabited

structure Metadata where
  entries : List KeyValue
deriving DecidableEq, Repr, Inhabited

structure ErrorInfo where
  code : String
  message : String
  retryable : Bool
  metadata : Option Metadata
deriving DecidableEq, Repr, Inhabited

/-- `google.protobuf.Value`; a struct maps keys in key order, and a double is its bit pattern. -/
inductive ProstValue where
  | unset
  | nullValue (code : ℤ)
  | numberValue (bits : UInt64)
  | stringValue (text : String)
  | boolValue (flag : Bool)
  | structValue (fields : List (String × ProstValue))
  | listValue (values : List ProstValue)
deriving Repr, Inhabited

/-- `google.protobuf.Struct`. -/
structure ProstStruct where
  fields : List (String × ProstValue)
deriving Repr, Inhabited

inductive PayloadEncoding where
  | unspecified
  | protobufStruct
  | json
  | msgpack
  | cbor
  | text
  | bytes
deriving DecidableEq, Repr, Inhabited

/-- The wire number of an encoding. -/
def PayloadEncoding.toI32 : PayloadEncoding → ℤ
  | .unspecified => 0
  | .protobufStruct => 1
  | .json => 2
  | .msgpack => 3
  | .cbor => 4
  | .text => 5
  | .bytes => 6

/-- `PayloadEncoding::try_from`; other numbers are unknown. -/
def PayloadEncoding.tryFrom (code : ℤ) : Option PayloadEncoding :=
  [.unspecified, .protobufStruct, .json, .msgpack, .cbor, .text, .bytes].find? fun encoding =>
    PayloadEncoding.toI32 encoding = code

@[simp] theorem PayloadEncoding.tryFrom_toI32 (encoding : PayloadEncoding) :
    PayloadEncoding.tryFrom encoding.toI32 = some encoding := by
  cases encoding <;> rfl

structure Payload where
  encoding : ℤ
  data : Bytes
  structData : Option ProstStruct
  sizeBytes : ℕ
  contentHash : String
  compressed : Bool
  artifactRef : String
deriving Repr, Inhabited

structure RedactionFinding where
  fieldPath : String
  redactionType : String
  replacementMarker : String
deriving DecidableEq, Repr, Inhabited

structure RedactionReport where
  findings : List RedactionFinding
  redacted : Bool
deriving DecidableEq, Repr, Inhabited

structure PermissionScope where
  value : String
deriving DecidableEq, Repr, Inhabited

structure ToolCall where
  toolCallId : String
  name : String
  input : Option Payload
  startedAt : Option Timestamp
  metadata : Option Metadata
deriving Repr, Inhabited

structure ToolResult where
  toolCallId : String
  output : Option Payload
  error : Option ErrorInfo
  finishedAt : Option Timestamp
  metadata : Option Metadata
deriving Repr, Inhabited

structure ArtifactRef where
  artifactId : String
  contentHash : String
  sizeBytes : ℕ
  mediaType : String
  compressed : Bool
  metadata : Option Metadata
deriving DecidableEq, Repr, Inhabited

structure ExternalSideEffect where
  sideEffectId : String
  kind : String
  description : String
  target : String
  payloadSummary : String
  occurredAt : Option Timestamp
  reversible : Bool
  compensatingActionAvailable : Bool
  metadata : Option Metadata
deriving DecidableEq, Repr, Inhabited

structure Commit where
  commitId : String
  deltaId : String
  runId : String
  threadId : String
  agentId : String
  channel : String
  parentCommitIds : List String
  logicalClock : UInt64
  wallTime : Option Timestamp
  objective : String
  stateDelta : Option Payload
  messagesDelta : Option Payload
  toolCalls : List ToolCall
  toolResults : List ToolResult
  artifactRefs : List ArtifactRef
  externalSideEffects : List ExternalSideEffect
  summary : String
  tags : List String
  metadata : Option Metadata
  schemaVersion : ℕ
  sdkName : String
  sdkVersion : String
  contentHash : String
  previousHashes : List String
  redactionReport : Option RedactionReport
deriving Repr, Inhabited

/-- `wall_time.map(|t| t.seconds).unwrap_or_default()`. -/
def Commit.wallSeconds (commit : Commit) : ℤ := (commit.wallTime.map (·.seconds)).getD 0

structure StateDelta where
  deltaId : String
  channel : String
  agentId : String
  runId : String
  threadId : String
  logicalClock : UInt64
  wallTime : Option Timestamp
  payload : Option Payload
  durable : Bool
  tags : List String
  summary : String
  metadata : Option Metadata
deriving Repr, Inhabited

/-- What a subscriber of a channel receives. -/
structure BroadcastDelta where
  delta : Option StateDelta
  commitId : String
  redacted : Bool
deriving Repr, Inhabited

inductive LoopSeverity where
  | unspecified
  | low
  | medium
  | high
deriving DecidableEq, Repr, Inhabited

/-- The wire number of a severity. -/
def LoopSeverity.toI32 : LoopSeverity → ℕ
  | .unspecified => 0
  | .low => 1
  | .medium => 2
  | .high => 3

structure LoopWarning where
  warningId : String
  runId : String
  agentId : String
  channel : String
  severity : LoopSeverity
  fingerprint : String
  repetitionCount : ℕ
  firstSeen : Option Timestamp
  lastSeen : Option Timestamp
  suggestedStableCommitId : String
  message : String
deriving DecidableEq, Repr, Inhabited

structure PublishDeltaRequest where
  delta : Option StateDelta
  parentCommitIds : List String
  objective : String
deriving Repr, Inhabited

structure PublishDeltaResponse where
  deltaId : String
  commitId : String
  accepted : Bool
  persisted : Bool
  warning : String
  redactionReport : Option RedactionReport
deriving DecidableEq, Repr, Inhabited

structure CheckpointRequest where
  agentId : String
  runId : String
  threadId : String
  channel : String
  objective : String
  payload : Option Payload
  parentCommitIds : List String
  tags : List String
  summary : String
  metadata : Option Metadata
  toolCalls : List ToolCall
  toolResults : List ToolResult
  artifactRefs : List ArtifactRef
  externalSideEffects : List ExternalSideEffect
deriving Repr, Inhabited

structure CheckpointResponse where
  commitId : String
  deltaId : String
  accepted : Bool
  persisted : Bool
  warning : String
  redactionReport : Option RedactionReport
deriving DecidableEq, Repr, Inhabited

inductive ReplayMode where
  | unspecified
  | stateOnly
  | dryRunTools
  | reexecuteTools
deriving DecidableEq, Repr, Inhabited

def ReplayMode.toI32 : ReplayMode → ℤ
  | .unspecified => 0
  | .stateOnly => 1
  | .dryRunTools => 2
  | .reexecuteTools => 3

/-- `ReplayMode::try_from`. -/
def ReplayMode.tryFrom (code : ℤ) : Option ReplayMode :=
  [.unspecified, .stateOnly, .dryRunTools, .reexecuteTools].find? fun mode =>
    ReplayMode.toI32 mode = code

structure ReplayRequest where
  commitId : String
  mode : ℤ
  confirmReexecuteTools : Bool
deriving DecidableEq, Repr, Inhabited

structure ReplayResult where
  commitId : String
  reconstructedState : Option Payload
  messages : List Payload
  toolOutputs : List ToolResult
  artifacts : List ArtifactRef
  sideEffectWarnings : List String
  provenanceCommitIds : List String
  missingArtifactWarnings : List String
deriving Repr, Inhabited

structure ForkRequest where
  sourceCommitId : String
  newRunId : String
  metadata : Option Metadata
deriving DecidableEq, Repr, Inhabited

structure ForkResult where
  sourceCommitId : String
  runId : String
  headCommitId : String
deriving DecidableEq, Repr, Inhabited

structure RollbackRequest where
  headCommitId : String
  targetCommitId : String
  force : Bool
deriving DecidableEq, Repr, Inhabited

structure RollbackResponse where
  moved : Bool
  previousHeadCommitId : String
  newHeadCommitId : String
  warnings : List String
deriving DecidableEq, Repr, Inhabited

structure RunSummary where
  runId : String
  commitCount : ℕ
  lastCommitAt : Option Timestamp
deriving DecidableEq, Repr, Inhabited

structure AgentMetadata where
  framework : String
  language : String
  metadata : Option Metadata
deriving DecidableEq, Repr, Inhabited

structure AgentCapabilities where
  capabilities : List String
deriving DecidableEq, Repr, Inhabited

structure RegisterAgentRequest where
  agentId : String
  runId : String
  threadId : String
  metadata : Option AgentMetadata
  capabilities : Option AgentCapabilities
  requestedScopes : List PermissionScope
deriving DecidableEq, Repr, Inhabited

structure RegisterAgentResponse where
  accepted : Bool
  agentId : String
  grantedScopes : List PermissionScope
  protocolVersion : String
deriving DecidableEq, Repr, Inhabited

end AttowNexus
