import AttowNexus.Model.Ambient
import AttowNexus.Model.DagIndex
import AttowNexus.Library.Table
import Mathlib.Data.List.Sort
import Mathlib.Data.Prod.Lex

/-! # The SQLite store

`ledger/sqlite_store.rs`: the tables as lists of rows in insertion order, and the store calls on them.
The tables that the transaction of `append_commit` writes are kept together. A `proto` column holds
the message it encodes, an `INTEGER` column holds an `i64`.
-/

namespace AttowNexus

structure CommitRow where
  commitId : String
  deltaId : String
  runId : String
  threadId : String
  agentId : String
  channel : String
  logicalClock : ℤ
  wallTimeSeconds : ℤ
  contentHash : String
  proto : Commit
deriving Repr, Inhabited

structure RunRow where
  runId : String
  lastCommitAt : ℤ
  commitCount : ℕ
deriving DecidableEq, Repr, Inhabited

structure ChannelRow where
  channel : String
  durableCount : ℕ
  ephemeralCount : ℕ
deriving DecidableEq, Repr, Inhabited

structure DeltaRow where
  deltaId : String
  commitId : String
  runId : String
  agentId : String
  channel : String
  durable : Bool
  wallTimeSeconds : ℤ
deriving DecidableEq, Repr, Inhabited

structure ToolCallRow where
  toolCallId : String
  commitId : String
  name : String
deriving DecidableEq, Repr, Inhabited

structure ToolResultRow where
  toolCallId : String
  commitId : String
  hasError : Bool
deriving DecidableEq, Repr, Inhabited

structure SideEffectRow where
  sideEffectId : String
  commitId : String
  kind : String
  reversible : Bool
  compensatingActionAvailable : Bool
deriving DecidableEq, Repr, Inhabited

structure HeadRow where
  headKey : String
  lineage : Lineage
  commitId : String
deriving DecidableEq, Repr, Inhabited

structure ArtifactRow where
  artifactId : String
  contentHash : String
  path : String
  sizeBytes : ℕ
  mediaType : String
  compressed : Bool
deriving DecidableEq, Repr, Inhabited

structure LoopWarningRow where
  warningId : String
  lastSeenSeconds : ℤ
  proto : LoopWarning
deriving DecidableEq, Repr, Inhabited

structure AuditEventRow where
  eventType : String
  payloadJson : Bytes
deriving DecidableEq, Repr, Inhabited

/-- The `u64` clock as an `i64`. -/
def Commit.storedClock (commit : Commit) : ℤ := commit.logicalClock.toBitVec.toInt

def CommitRow.ofCommit (commit : Commit) : CommitRow where
  commitId := commit.commitId
  deltaId := commit.deltaId
  runId := commit.runId
  threadId := commit.threadId
  agentId := commit.agentId
  channel := commit.channel
  logicalClock := commit.storedClock
  wallTimeSeconds := commit.wallSeconds
  contentHash := commit.contentHash
  proto := commit

/-- `ORDER BY logical_clock ASC, wall_time_seconds ASC, commit_id ASC` -/
def CommitRow.orderKey (row : CommitRow) : ℤ ×ₗ ℤ ×ₗ String :=
  toLex (row.logicalClock, toLex (row.wallTimeSeconds, row.commitId))

/-- The tables of the `append_commit` transaction. -/
structure CommitTables where
  commits : List CommitRow
  commitParents : List (String × String)
  runs : List RunRow
  channels : List ChannelRow
  deltas : List DeltaRow
  toolCalls : List ToolCallRow
  toolResults : List ToolResultRow
  sideEffects : List SideEffectRow
deriving Repr

namespace CommitTables

def empty : CommitTables := ⟨[], [], [], [], [], [], [], []⟩

/-- The upsert of `runs`. -/
def countRun (commit : Commit) : List RunRow → List RunRow :=
  Table.upsert (·.runId) ⟨commit.runId, commit.wallSeconds, 1⟩ fun row =>
    { row with lastCommitAt := commit.wallSeconds, commitCount := row.commitCount + 1 }

/-- The insertion into `channels` and the update after it. -/
def countChannel (commit : Commit) (channels : List ChannelRow) : List ChannelRow :=
  Table.update (·.channel) commit.channel (fun row => { row with durableCount := row.durableCount + 1 })
    (Table.insertOrIgnore (·.channel) ⟨commit.channel, 0, 0⟩ channels)

/-- The transaction of `append_commit`. -/
def appendCommit (commit : Commit) (tables : CommitTables) : CommitTables where
  commits := Table.insertOrIgnore (·.commitId) (.ofCommit commit) tables.commits
  commitParents := commit.parentCommitIds.foldl (fun rows parent =>
    Table.insertOrIgnore id (commit.commitId, parent) rows) tables.commitParents
  runs := countRun commit tables.runs
  channels := countChannel commit tables.channels
  deltas := Table.insertOrIgnore (·.deltaId)
    ⟨commit.deltaId, commit.commitId, commit.runId, commit.agentId, commit.channel, true, commit.wallSeconds⟩
    tables.deltas
  toolCalls := commit.toolCalls.foldl (fun rows toolCall =>
    Table.insertOrReplace (·.toolCallId) ⟨toolCall.toolCallId, commit.commitId, toolCall.name⟩ rows)
    tables.toolCalls
  toolResults := tables.toolResults ++ commit.toolResults.map fun toolResult =>
    ⟨toolResult.toolCallId, commit.commitId, toolResult.error.isSome⟩
  sideEffects := commit.externalSideEffects.foldl (fun rows sideEffect =>
    Table.insertOrReplace (·.sideEffectId)
      ⟨sideEffect.sideEffectId, commit.commitId, sideEffect.kind, sideEffect.reversible,
        sideEffect.compensatingActionAvailable⟩ rows) tables.sideEffects

/-- `get_commit` -/
def getCommit (tables : CommitTables) (commitId : String) : Option Commit :=
  (Table.lookup (·.commitId) commitId tables.commits).map (·.proto)

/-- `wanted.map(|value| value == actual).unwrap_or(true)` -/
def selects (wanted : Option String) (actual : String) : Bool := (wanted.map (· == actual)).getD true

/-- `list_commits` -/
def listCommits (tables : CommitTables) (runId threadId channel : Option String) : List Commit :=
  let commits := (tables.commits.insertionSort fun a b => a.orderKey ≤ b.orderKey).map (·.proto)
  commits.filter (fun commit => selects runId commit.runId)
    |>.filter (fun commit => selects threadId commit.threadId)
    |>.filter (fun commit => selects channel commit.channel)

/-- `list_all_commits` -/
def listAllCommits (tables : CommitTables) : List Commit := tables.listCommits none none none

/-- `list_runs`; runs of the same second stay in insertion order. -/
def listRuns (tables : CommitTables) : List RunSummary :=
  (tables.runs.insertionSort fun a b => b.lastCommitAt ≤ a.lastCommitAt).map fun row =>
    ⟨row.runId, row.commitCount, some ⟨row.lastCommitAt, 0⟩⟩

end CommitTables

structure SqliteStore where
  tables : CommitTables
  heads : List HeadRow
  artifacts : List ArtifactRow
  /-- The files under `artifact_dir`, by path -/
  files : HashMap String Bytes
  loopWarnings : List LoopWarningRow
  auditEvents : List AuditEventRow
  rollbackEvents : List Bytes

/-- The head row of a lineage. -/
def headOf (heads : List HeadRow) (lineage : Lineage) : Option String :=
  (Table.lookup (·.headKey) lineage.headKey heads).map (·.commitId)

/-- The upsert of `set_head`. -/
def moveHead (lineage : Lineage) (commitId : String) : List HeadRow → List HeadRow :=
  Table.upsert (·.headKey) ⟨lineage.headKey, lineage, commitId⟩ fun row => { row with commitId := commitId }

namespace SqliteStore

open Fallible

def empty : SqliteStore := ⟨.empty, [], [], ∅, [], [], []⟩

variable (deps : External) (config : Config) (ambient : Ambient)

/-- `append_commit` -/
def appendCommit (commit : Commit) : Fallible SqliteStore Error Unit := do
  ambient.attempt .appendCommit
  modify fun store => { store with tables := store.tables.appendCommit commit }

/-- `get_commit`, called at the given place. -/
def getCommit (call : StoreCall) (commitId : String) : Fallible SqliteStore Error (Option Commit) := do
  ambient.attempt call
  let store ← get
  pure (store.tables.getCommit commitId)

/-- `get_head` -/
def getHead (lineage : Lineage) : Fallible SqliteStore Error (Option String) := do
  ambient.attempt .getHead
  let store ← get
  pure (headOf store.heads lineage)

/-- `set_head` -/
def setHead (lineage : Lineage) (commitId : String) : Fallible SqliteStore Error Unit := do
  ambient.attempt .setHead
  modify fun store => { store with heads := moveHead lineage commitId store.heads }

/-- `append_event`: two statements for a rollback, one for anything else. -/
def appendEvent (eventType : String) (payloadJson : Bytes) : Fallible SqliteStore Error Unit := do
  ambient.attempt .insertAuditEvent
  modify fun store => { store with auditEvents := store.auditEvents ++ [⟨eventType, payloadJson⟩] }
  if eventType = "rollback" then do
    ambient.attempt .insertRollbackEvent
    modify fun store => { store with rollbackEvents := store.rollbackEvents ++ [payloadJson] }
  else pure ()

/-- `maybe_compress` -/
def maybeCompress (bytes : Bytes) : Fallible SqliteStore Error (Bytes × Bool) :=
  if bytes.length < config.compressionThresholdBytes then pure (bytes, false)
  else do
    ambient.attempt .compress
    pure (deps.encodeAll bytes, true)

/-- `std::fs::write`: the file is truncated when it is opened, and a failed write leaves a part of it. -/
def writeFile (path : String) (bytes : Bytes) : Fallible SqliteStore Error Unit := do
  ambient.attempt .openArtifactFile
  let written := if ambient.fails .writeArtifactFile then bytes.take ambient.writtenBytes else bytes
  modify fun store => { store with files := store.files.insert path written }
  ambient.attempt .writeArtifactFile

/-- `put_artifact` -/
def putArtifact (bytes : Bytes) (mediaType : String) : Fallible SqliteStore Error ArtifactRef := do
  ambient.attempt .createArtifactDir
  let contentHash := deps.blake3Hex bytes
  let artifactId := "artifact_" ++ contentHash
  let (stored, compressed) ← maybeCompress deps config ambient bytes
  let path := config.artifactDir ++ "/" ++ artifactId
  writeFile ambient path stored
  ambient.attempt .insertArtifact
  let row : ArtifactRow := ⟨artifactId, contentHash, path, bytes.length, mediaType, compressed⟩
  modify fun store =>
    { store with artifacts := Table.insertOrReplace (·.artifactId) row store.artifacts }
  pure ⟨artifactId, contentHash, bytes.length, mediaType, compressed, none⟩

/-- How `get_artifact` fails on a database and a disk that answer. -/
inductive ReadError where
  | missingFile (path : String)
  | undecodable
deriving DecidableEq, Repr

/-- `maybe_decompress` -/
def maybeDecompress (bytes : Bytes) (compressed : Bool) : Except ReadError Bytes :=
  if compressed = true then
    match deps.decodeAll bytes with
    | some decoded => .ok decoded
    | none => .error .undecodable
  else .ok bytes

/-- `get_artifact` -/
def getArtifact (store : SqliteStore) (artifactId : String) : Except ReadError (Option Bytes) :=
  match Table.lookup (·.artifactId) artifactId store.artifacts with
  | none => .ok none
  | some row =>
      match store.files.lookup row.path with
      | none => .error (.missingFile row.path)
      | some bytes => (maybeDecompress deps bytes row.compressed).map some

/-- `append_loop_warning` -/
def appendLoopWarning (warning : LoopWarning) : Fallible SqliteStore Error Unit := do
  ambient.attempt .appendLoopWarning
  let row : LoopWarningRow := ⟨warning.warningId, (warning.lastSeen.map (·.seconds)).getD 0, warning⟩
  modify fun store =>
    { store with loopWarnings := Table.insertOrReplace (·.warningId) row store.loopWarnings }

end SqliteStore

end AttowNexus
