import AttowNexus.Model.External

/-! # Building commits

`commit::from_delta` fills the record, hashes its encoding into `content_hash`, and names the commit by
the first 32 digits of the hash of the encoding with that field set. A lineage is the quadruple of
strings under which a head is kept.
-/

namespace AttowNexus

/-- The run, thread, agent and channel a commit belongs to. -/
structure Lineage where
  runId : String
  threadId : String
  agentId : String
  channel : String
deriving DecidableEq, Repr, Inhabited

/-- `head_key`: the four parts with unit separators in between. -/
def Lineage.headKey (lineage : Lineage) : String :=
  lineage.runId ++ "\u001f" ++ lineage.threadId ++ "\u001f" ++ lineage.agentId ++ "\u001f" ++ lineage.channel

def Commit.lineage (commit : Commit) : Lineage :=
  ⟨commit.runId, commit.threadId, commit.agentId, commit.channel⟩

def StateDelta.lineage (delta : StateDelta) : Lineage :=
  ⟨delta.runId, delta.threadId, delta.agentId, delta.channel⟩

structure CommitExtras where
  objective : String
  toolCalls : List ToolCall
  toolResults : List ToolResult
  artifactRefs : List ArtifactRef
  externalSideEffects : List ExternalSideEffect
  sdkName : String
  sdkVersion : String
deriving Repr, Inhabited

variable (deps : External)

/-- The commit before it has a hash and a name. -/
def draftCommit (delta : StateDelta) (parentCommitIds : List String) (payload : Payload)
    (redactionReport : RedactionReport) (extras : CommitExtras) : Commit where
  commitId := ""
  deltaId := delta.deltaId
  runId := delta.runId
  threadId := delta.threadId
  agentId := delta.agentId
  channel := delta.channel
  parentCommitIds := parentCommitIds
  logicalClock := delta.logicalClock
  wallTime := delta.wallTime
  objective := extras.objective
  stateDelta := some payload
  messagesDelta := none
  toolCalls := extras.toolCalls
  toolResults := extras.toolResults
  artifactRefs := extras.artifactRefs
  externalSideEffects := extras.externalSideEffects
  summary := delta.summary
  tags := delta.tags
  metadata := delta.metadata
  schemaVersion := 1
  sdkName := extras.sdkName
  sdkVersion := extras.sdkVersion
  contentHash := ""
  previousHashes := []
  redactionReport := some redactionReport

/-- Hash the draft, then name it. -/
def sealCommit (draft : Commit) : Commit :=
  let hashed := { draft with contentHash := deps.blake3Hex (deps.encodeToVec draft) }
  { hashed with commitId := "c_" ++ deps.shortHash (deps.encodeToVec hashed) }

/-- `commit::from_delta` -/
def fromDelta (delta : StateDelta) (parentCommitIds : List String) (payload : Payload)
    (redactionReport : RedactionReport) (extras : CommitExtras) : Commit :=
  sealCommit deps (draftCommit delta parentCommitIds payload redactionReport extras)

section Fields

variable {deps} {delta : StateDelta} {parents : List String} {payload : Payload} {report : RedactionReport}
  {extras : CommitExtras}

@[simp] theorem fromDelta_parentCommitIds :
    (fromDelta deps delta parents payload report extras).parentCommitIds = parents := rfl

@[simp] theorem fromDelta_lineage : (fromDelta deps delta parents payload report extras).lineage = delta.lineage :=
  rfl

@[simp] theorem fromDelta_runId : (fromDelta deps delta parents payload report extras).runId = delta.runId := rfl

@[simp] theorem fromDelta_stateDelta :
    (fromDelta deps delta parents payload report extras).stateDelta = some payload := rfl

@[simp] theorem fromDelta_externalSideEffects :
    (fromDelta deps delta parents payload report extras).externalSideEffects = extras.externalSideEffects := rfl

/-- Every commit id is `c_` and 32 digits. -/
theorem length_fromDelta_commitId :
    (fromDelta deps delta parents payload report extras).commitId.length = 34 := by
  rw [fromDelta, sealCommit, String.length_append, deps.length_shortHash]
  rfl

end Fields

end AttowNexus
