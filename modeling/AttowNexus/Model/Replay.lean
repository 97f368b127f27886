import AttowNexus.Model.SqliteStore

/-! # Replay

`ledger/replay.rs` with `payload_to_json` of `ledger/diff.rs`. The ancestry of a commit is read from the
store parents first, sorted by clock and time, and merged state by state. The recursion over parents
has a unit of fuel for each stored commit and one more, which only a cyclic history can use up.
-/

namespace AttowNexus

variable (deps : External)

/-- The stand-in for JSON data that does not parse. -/
def hashSummary (payload : Payload) : Json :=
  .ofMembers [("content_hash", .string payload.contentHash), ("size_bytes", .number (.posInt payload.sizeBytes))]

/-- `payload_to_json` -/
def payloadToJson : Option Payload → Json
  | none => .null
  | some payload =>
      match (PayloadEncoding.tryFrom payload.encoding).getD .unspecified with
      | .json => ((deps.fromSlice payload.data).map (·.1)).getD (hashSummary payload)
      | .text => .string (fromUtf8Lossy payload.data)
      | _ => .ofMembers [("content_hash", .string payload.contentHash),
          ("size_bytes", .number (.posInt payload.sizeBytes)), ("artifact_ref", .string payload.artifactRef)]

/-- `collect`: the commits below a commit and then the commit itself, each once. -/
def collect (tables : CommitTables) : ℕ → String → List Commit → Except Error (List Commit)
  | 0, _, _ => .error (.message "stack overflow")
  | fuel + 1, commitId, out =>
      match tables.getCommit commitId with
      | none => .error (.message ("commit " ++ commitId ++ " not found"))
      | some commit => do
          let below ← commit.parentCommitIds.foldlM (fun out parent => collect tables fuel parent out) out
          if below.any (·.commitId = commit.commitId) then pure below else pure (below ++ [commit])

/-- `ancestry_commits` -/
def ancestryCommits (tables : CommitTables) (commitId : String) : Except Error (List Commit) :=
  collect tables (tables.commits.length + 1) commitId []

/-- The sort key: the `u64` clock and the seconds. -/
def Commit.replayKey (commit : Commit) : ℕ ×ₗ ℤ := toLex (commit.logicalClock.toNat, commit.wallSeconds)

/-- `commits.sort_by_key(..)`, a stable sort. -/
def sortForReplay (commits : List Commit) : List Commit :=
  commits.insertionSort fun a b => a.replayKey ≤ b.replayKey

/-- The state after merging the commits one after the other. -/
def mergeStates (commits : List Commit) : Json :=
  commits.foldl (fun state commit => mergeValue state (payloadToJson deps commit.stateDelta)) (.object [])

/-- The payload around a JSON text. -/
def jsonPayload (bytes : Bytes) : Payload where
  encoding := PayloadEncoding.json.toI32
  data := bytes
  structData := none
  sizeBytes := bytes.length
  contentHash := deps.blake3Hex bytes
  compressed := false
  artifactRef := ""

def sideEffectWarning (sideEffect : ExternalSideEffect) : String :=
  "External side effect '" ++ sideEffect.sideEffectId ++ "' of kind '" ++ sideEffect.kind ++
    "' is irreversible unless an adapter supplies a compensating action."

/-- `replay` -/
def replay (tables : CommitTables) (request : ReplayRequest) : Except Error ReplayResult := do
  let mode := (ReplayMode.tryFrom request.mode).getD .stateOnly
  if mode = .reexecuteTools ∧ request.confirmReexecuteTools = false then
    .error (.message "reexecute_tools requires explicit confirmation")
  else do
    let ancestry ← ancestryCommits tables request.commitId
    let commits := sortForReplay ancestry
    let bytes := deps.toVec (mergeStates deps commits)
    pure {
      commitId := request.commitId
      reconstructedState := some (jsonPayload deps bytes)
      messages := []
      toolOutputs := commits.flatMap (·.toolResults)
      artifacts := commits.flatMap (·.artifactRefs)
      sideEffectWarnings := commits.flatMap fun commit => commit.externalSideEffects.map sideEffectWarning
      provenanceCommitIds := commits.map (·.commitId)
      missingArtifactWarnings := [] }

end AttowNexus
