import AttowNexus.Model.External
import AttowNexus.Library.Fallible

/-! # What a call depends on besides its state

The settings of the daemon, the clock readings and random ids a call happens to get, and which of its
store calls fail. A failing call is one error value; a failed write has no effect of its own.
-/

namespace AttowNexus

/-- The fields of `Config` that the ledger operations read. -/
structure Config where
  requireAuth : Bool
  persistEphemeral : Bool
  redactionEnabled : Bool
  loopDetectionEnabled : Bool
  maxInlinePayloadBytes : ℕ
  compressionThresholdBytes : ℕ
  artifactDir : String
deriving DecidableEq, Repr, Inhabited

/-- The places at which an operation waits for the store or the file system. -/
inductive StoreCall where
  | createArtifactDir
  | compress
  | openArtifactFile
  | writeArtifactFile
  | insertArtifact
  | getHead
  | appendCommit
  | setHead
  | appendLoopWarning
  | getHeadCommit
  | getTargetCommit
  | getWalkCommit (commitId : String)
  | getSourceCommit
  | insertAuditEvent
  | insertRollbackEvent
deriving DecidableEq, Repr

/-- `anyhow::Error`: a message of the daemon itself, or the error of a store call. -/
inductive Error where
  | message (text : String)
  | store (call : StoreCall)
deriving DecidableEq, Repr

/-- One call's share of the environment. -/
structure Ambient where
  /-- `now()` for the delta of the request -/
  now : Timestamp
  /-- `now()` in the loop detector -/
  detectedAt : Timestamp
  /-- `now()` for the loop warning that is broadcast -/
  warnedAt : Timestamp
  deltaUuid : Uuid
  loopUuid : Uuid
  warningUuid : Uuid
  runUuid : Uuid
  /-- How much of an artifact is on disk when its write fails -/
  writtenBytes : ℕ
  fails : StoreCall → Bool

/-- A call of the store at the given place. -/
def Ambient.attempt {σ : Type} (ambient : Ambient) (call : StoreCall) : Fallible σ Error Unit :=
  Fallible.ensure (ambient.fails call = false) (.store call)

@[simp] theorem Ambient.attempt_eq_iff {σ : Type} {ambient : Ambient} {call : StoreCall} {s t : σ}
    {r : Except Error Unit} :
    ambient.attempt call s = (r, t) ↔
      r = (if ambient.fails call = false then .ok () else .error (.store call)) ∧ t = s := by
  rw [Ambient.attempt, Fallible.ensure_eq_iff]

/-- An environment in which nothing fails. -/
def Ambient.calm (now : Timestamp) (uuid : Uuid) : Ambient where
  now := now
  detectedAt := now
  warnedAt := now
  deltaUuid := uuid
  loopUuid := uuid
  warningUuid := uuid
  runUuid := uuid
  writtenBytes := 0
  fails _ := false

end AttowNexus
