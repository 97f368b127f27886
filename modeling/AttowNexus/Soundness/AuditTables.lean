import AttowNexus.Proofs.Accepted

/-! # The audit tables

Beside the commits, a transaction writes a row for the delta, the tool calls, the tool results and the side
effects of its commit. The results are only added. Deltas and calls and effects are kept under ids that
clients choose, so the row of one commit can keep out or push out that of another; rows are lost exactly when
different commits share such an id.
-/

namespace AttowNexus

variable {tables : CommitTables} {commit : Commit} {commits : List Commit}

/-- The rows of a commit are in the audit tables, under its id. -/
structure CommitTables.Audits (tables : CommitTables) (commit : Commit) : Prop where
  delta : ∃ row ∈ tables.deltas, row.deltaId = commit.deltaId ∧ row.commitId = commit.commitId
  toolCalls : ∀ toolCall ∈ commit.toolCalls,
    ∃ row ∈ tables.toolCalls, row.toolCallId = toolCall.toolCallId ∧ row.commitId = commit.commitId
  toolResults : ∀ toolResult ∈ commit.toolResults,
    ∃ row ∈ tables.toolResults, row.toolCallId = toolResult.toolCallId ∧ row.commitId = commit.commitId
  sideEffects : ∀ sideEffect ∈ commit.externalSideEffects,
    ∃ row ∈ tables.sideEffects, row.sideEffectId = sideEffect.sideEffectId ∧ row.commitId = commit.commitId

/-- Different commits do not share the id of a delta, a tool call or a side effect. -/
structure AuditIdsApart (commits : List Commit) : Prop where
  deltas : ∀ a ∈ commits, ∀ b ∈ commits, a.deltaId = b.deltaId → a.commitId = b.commitId
  toolCalls : ∀ a ∈ commits, ∀ x ∈ a.toolCalls, ∀ b ∈ commits, ∀ y ∈ b.toolCalls,
    x.toolCallId = y.toolCallId → a.commitId = b.commitId
  sideEffects : ∀ a ∈ commits, ∀ x ∈ a.externalSideEffects, ∀ b ∈ commits, ∀ y ∈ b.externalSideEffects,
    x.sideEffectId = y.sideEffectId → a.commitId = b.commitId

namespace Commit

def deltaRow (commit : Commit) : DeltaRow :=
  ⟨commit.deltaId, commit.commitId, commit.runId, commit.agentId, commit.channel, true, commit.wallSeconds⟩

def toolCallRows (commit : Commit) : List ToolCallRow :=
  commit.toolCalls.map fun toolCall => ⟨toolCall.toolCallId, commit.commitId, toolCall.name⟩

def toolResultRows (commit : Commit) : List ToolResultRow :=
  commit.toolResults.map fun toolResult => ⟨toolResult.toolCallId, commit.commitId, toolResult.error.isSome⟩

def sideEffectRows (commit : Commit) : List SideEffectRow :=
  commit.externalSideEffects.map fun sideEffect =>
    ⟨sideEffect.sideEffectId, commit.commitId, sideEffect.kind, sideEffect.reversible,
      sideEffect.compensatingActionAvailable⟩

end Commit

namespace CommitTables

/-- The audit tables after the transactions of the commits -/
structure AuditLog (commits : List Commit) (tables : CommitTables) : Prop where
  deltas : Table.Logged (·.deltaId) (commits.map (·.deltaRow)) tables.deltas
  toolCalls : Table.Logged (·.toolCallId) (commits.flatMap (·.toolCallRows)) tables.toolCalls
  toolResults : tables.toolResults = commits.flatMap (·.toolResultRows)
  sideEffects : Table.Logged (·.sideEffectId) (commits.flatMap (·.sideEffectRows)) tables.sideEffects

theorem auditLog_empty : AuditLog [] empty := ⟨.nil, .nil, rfl, .nil⟩

/-- One transaction -/
theorem AuditLog.appendCommit (log : AuditLog commits tables) (commit : Commit) :
    AuditLog (commits ++ [commit]) (tables.appendCommit commit) where
  deltas := by
    rw [List.map_append]
    exact log.deltas.insertOrIgnore _
  toolCalls := by
    have rows := log.toolCalls.foldl_insertOrReplace commit.toolCallRows
    rw [Commit.toolCallRows, List.foldl_map] at rows
    rw [List.flatMap_append, List.flatMap_singleton]
    exact rows
  toolResults := by
    rw [List.flatMap_append, List.flatMap_singleton, ← log.toolResults]
    rfl
  sideEffects := by
    have rows := log.sideEffects.foldl_insertOrReplace commit.sideEffectRows
    rw [Commit.sideEffectRows, List.foldl_map] at rows
    rw [List.flatMap_append, List.flatMap_singleton]
    exact rows

/-- With ids apart every commit has its rows. -/
theorem AuditLog.audits (log : AuditLog commits tables) (apart : AuditIdsApart commits) (member : commit ∈ commits) :
    tables.Audits commit where
  delta := by
    have complete := log.deltas.complete (·.commitId)
    simp only [List.forall_mem_map] at complete
    exact complete apart.deltas commit member
  toolCalls := by
    have complete := log.toolCalls.complete (·.commitId)
    simp only [List.forall_mem_flatMap, Commit.toolCallRows, List.forall_mem_map] at complete
    exact complete apart.toolCalls commit member
  toolResults toolResult returned := by
    rw [log.toolResults]
    exact ⟨_, List.mem_flatMap.mpr ⟨commit, member, List.mem_map_of_mem returned⟩, rfl, rfl⟩
  sideEffects := by
    have complete := log.sideEffects.complete (·.commitId)
    simp only [List.forall_mem_flatMap, Commit.sideEffectRows, List.forall_mem_map] at complete
    exact complete apart.sideEffects commit member

/-- Commits that all have their rows have their ids apart. -/
theorem AuditLog.apart {some : List Commit} (log : AuditLog commits tables)
    (audits : ∀ commit ∈ some, tables.Audits commit) : AuditIdsApart some where
  deltas := by
    have agree := Table.agree_of_complete log.deltas.unique (some.map (·.deltaRow)) (·.commitId)
    simp only [List.forall_mem_map] at agree
    exact agree fun commit member => (audits commit member).delta
  toolCalls := by
    have agree := Table.agree_of_complete log.toolCalls.unique (some.flatMap (·.toolCallRows)) (·.commitId)
    simp only [List.forall_mem_flatMap, Commit.toolCallRows, List.forall_mem_map] at agree
    exact agree fun commit member => (audits commit member).toolCalls
  sideEffects := by
    have agree := Table.agree_of_complete log.sideEffects.unique (some.flatMap (·.sideEffectRows)) (·.commitId)
    simp only [List.forall_mem_flatMap, Commit.sideEffectRows, List.forall_mem_map] at agree
    exact agree fun commit member => (audits commit member).sideEffects

end CommitTables

section Runs

variable {deps : External} {config : Config} {allowed : Request → Prop} {s : AppState}

/-- After successful calls the audit tables are those of the commits that they recorded. -/
theorem Accepted.auditLog (accepted : Accepted deps config allowed commits s) :
    CommitTables.AuditLog commits s.store.tables := by
  induction accepted with
  | start => exact CommitTables.auditLog_empty
  | @call commits s t event _ _ step succeeded ih =>
    rcases step.records succeeded with ⟨none, _, tables⟩ | ⟨commit, one, _, finish⟩
    · rw [none, List.append_nil, tables]
      exact ih
    · have tables : s.store.tables.appendCommit commit = t.store.tables :=
        (congrArg Ledger.tables finish : t.store.tables = _).symm
      rw [one]
      exact tables ▸ ih.appendCommit commit

/-- After successful calls, when the recorded commits have their ids apart, every stored commit has its rows; and when
every stored commit has its rows, the stored commits have their ids apart. -/
theorem audit_tables (accepted : Accepted deps config allowed commits s) :
    (AuditIdsApart commits → ∀ commit ∈ s.store.tables.stored, s.store.tables.Audits commit) ∧
    ((∀ commit ∈ s.store.tables.stored, s.store.tables.Audits commit) → AuditIdsApart s.store.tables.stored) := by
  constructor
  · intro apart commit stored
    exact accepted.auditLog.audits apart (accepted.built.kept.subset stored)
  · exact accepted.auditLog.apart

end Runs

section Sample

/-- A checkpoint with a tool call, its result and a side effect -/
private def toolCheckpoint (second : ℕ) (toolCallId sideEffectId : String) : Call :=
  ⟨.checkpoint
    { Sample.checkpointRequest "r" [] [{ Sample.sideEffect with sideEffectId := sideEffectId }] with
      toolCalls := [⟨toolCallId, "search", none, none, none⟩]
      toolResults := [⟨toolCallId, none, none, none, none⟩] },
    .calm ⟨second, 0⟩ second⟩

private def audited : List Call := [toolCheckpoint 1 "call-1" "effect-1", toolCheckpoint 2 "call-2" "effect-2"]

theorem audit_tables_audited :
    (∀ commit ∈ (runCalls .sample Sample.config audited).store.tables.stored,
      commit.toolCalls.length = 1 ∧ (runCalls .sample Sample.config audited).store.tables.Audits commit) ∧
    AuditIdsApart (runCalls .sample Sample.config audited).store.tables.stored := by
  have accepted : Accepted .sample Sample.config Request.Durable _ (runCalls .sample Sample.config audited) :=
    accepted_runCalls (by simp [audited, toolCheckpoint, Request.Durable]) (by decide)
  have audits := (audit_tables accepted).1 ⟨by decide, by decide, by decide⟩
  have called : ∀ commit ∈ (runCalls .sample Sample.config audited).store.tables.stored, commit.toolCalls.length = 1 := by
    decide
  exact ⟨fun commit stored => ⟨called commit stored, audits commit stored⟩, (audit_tables accepted).2 audits⟩

/-- Two publishes of a delta with the same id: the second commit has no row in `deltas`. -/
private def redelivered : List Call := [Sample.publish "r" 1 1 [], Sample.publish "r" 2 2 []]

theorem audit_row_lost :
    ¬ ∀ (deps : External) (config : Config) (commits : List Commit) (s : AppState),
      Accepted deps config Request.Durable commits s →
      ∀ commit ∈ s.store.tables.stored, s.store.tables.Audits commit := by
  intro claim
  have accepted : Accepted .sample Sample.config Request.Durable _ (runCalls .sample Sample.config redelivered) :=
    accepted_runCalls (by simp [redelivered, Sample.publish, Sample.publishRequest, Request.Durable]) (by decide)
  have kept := claim _ _ _ _ accepted
  have lost : ∃ commit ∈ (runCalls .sample Sample.config redelivered).store.tables.stored,
      ∀ row ∈ (runCalls .sample Sample.config redelivered).store.tables.deltas,
        ¬ (row.deltaId = commit.deltaId ∧ row.commitId = commit.commitId) := by decide
  obtain ⟨commit, stored, missing⟩ := lost
  obtain ⟨row, inside, same⟩ := (kept commit stored).delta
  exact missing row inside same

end Sample

end AttowNexus
