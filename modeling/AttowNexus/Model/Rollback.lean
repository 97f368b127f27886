import AttowNexus.Model.SqliteStore

/-! # Rollback and fork

`ledger/rollback.rs` and `ledger/fork.rs`. Both move one head and then write an audit event; the lineage
whose head moves is read off a stored commit.
-/

namespace AttowNexus

open Fallible SqliteStore

variable (deps : External) (ambient : Ambient)

/-- The value of an `Option`, or an early return with a message. -/
def required {σ α : Type} (value : Option α) (message : String) : Fallible σ Error α :=
  lift (value.elim (.error (.message message)) .ok)

@[simp] theorem required_eq_iff {σ α : Type} {value : Option α} {message : String} {s t : σ}
    {r : Except Error α} :
    required value message s = (r, t) ↔ r = value.elim (.error (.message message)) .ok ∧ t = s := by
  rw [required, lift_eq_iff]

theorem required_none {σ α : Type} (message : String) (s : σ) :
    required (none : Option α) message s = (.error (.message message), s) := rfl

theorem required_some {σ α : Type} (value : α) (message : String) (s : σ) :
    required (some value) message s = (.ok value, s) := rfl

def rollbackWarning (commit : Commit) (sideEffect : ExternalSideEffect) : String :=
  "Commit " ++ commit.commitId ++ " includes external side effect '" ++ sideEffect.sideEffectId ++
    "' of kind '" ++ sideEffect.kind ++ "'. Rollback moves captured logical state only."

/-- The warnings of one commit of the walk; a commit that is not stored gives none. -/
def commitWarnings (found : Option Commit) : List String :=
  (found.map fun commit => commit.externalSideEffects.map (rollbackWarning commit)).getD []

/-- The loop over the ancestry, up to the target. -/
def collectWarnings (target : String) : List String → Fallible SqliteStore Error (List String)
  | [] => pure []
  | commitId :: rest =>
      if commitId = target then pure []
      else do
        let found ← getCommit ambient (.getWalkCommit commitId) commitId
        let later ← collectWarnings target rest
        pure (commitWarnings found ++ later)

/-- The audit payload of a rollback. -/
def rollbackEvent (head target : Commit) (warnings : List String) : Json :=
  .ofMembers [("previous_head_commit_id", .string head.commitId),
    ("new_head_commit_id", .string target.commitId), ("warnings", .array (warnings.map .string))]

/-- `rollback` up to its writes: the head commit, the target commit and the warnings. -/
def planRollback (dag : DagIndex) (request : RollbackRequest) :
    Fallible SqliteStore Error (Commit × Commit × List String) :=
  if request.force = false ∧ dag.isAncestor request.targetCommitId request.headCommitId = false then
    fail (.message
      "target commit is not an ancestor of the current head; use force to move the head anyway")
  else do
    let found ← getCommit ambient .getHeadCommit request.headCommitId
    let head ← required found "head commit not found"
    let found ← getCommit ambient .getTargetCommit request.targetCommitId
    let target ← required found "target commit not found"
    let warnings ← collectWarnings ambient request.targetCommitId (dag.ancestry request.headCommitId)
    pure (head, target, warnings)

/-- `rollback` -/
def rollback (dag : DagIndex) (request : RollbackRequest) : Fallible SqliteStore Error RollbackResponse := do
  let (head, target, warnings) ← planRollback ambient dag request
  setHead ambient head.lineage target.commitId
  appendEvent ambient "rollback" (deps.toVec (rollbackEvent head target warnings))
  pure ⟨true, request.headCommitId, request.targetCommitId, warnings⟩

/-- The run of a fork: the requested one or a new one. -/
def forkRunId (request : ForkRequest) : String :=
  if request.newRunId = "" then newId "run" ambient.runUuid else request.newRunId

/-- The audit payload of a fork. -/
def forkEvent (source : Commit) (runId : String) : Json :=
  .ofMembers [("source_commit_id", .string source.commitId), ("run_id", .string runId)]

/-- `fork` -/
def fork (request : ForkRequest) : Fallible SqliteStore Error ForkResult := do
  let found ← getCommit ambient .getSourceCommit request.sourceCommitId
  let source ← required found "source commit not found"
  let runId := forkRunId ambient request
  setHead ambient { source.lineage with runId := runId } source.commitId
  appendEvent ambient "fork" (deps.toVec (forkEvent source runId))
  pure ⟨request.sourceCommitId, runId, request.sourceCommitId⟩

end AttowNexus
