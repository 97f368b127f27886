import AttowNexus.Proofs.History

/-! # Heads never dangle

A head is moved to a commit that was just stored or just read, so in every reachable state, whatever failed
on the way, each head names a stored commit, and the index knows it. A checkpoint on its head is then never
refused for an unknown parent.
-/

namespace AttowNexus

open Fallible AppState

variable {deps : External} {config : Config} {ambient : Ambient} {s t : AppState}

/-- The message of `append` about a parent that is not in the index. -/
def unknownParent (parent : String) : String := "parent commit " ++ parent ++ " is unknown"

/-- The error is not about an unknown parent. -/
def NotUnknownParent (error : Error) : Prop := ∀ parent, error ≠ .message (unknownParent parent)

theorem notUnknownParent_store (call : StoreCall) : NotUnknownParent (.store call) := fun _ => nofun

/-- The first letters of a text are those of its first part. -/
theorem take_toList_append {text : String} (rest : String) (long : 2 ≤ text.toList.length) :
    (text ++ rest).toList.take 2 = text.toList.take 2 := by
  rw [String.toList_append, List.take_append_of_le_length long]

/-- The message is told apart from the others by its first letters. -/
theorem notUnknownParent_of_take {text : String} (other : text.toList.take 2 ≠ ['p', 'a']) :
    NotUnknownParent (.message text) := by
  intro parent same
  have letters : (unknownParent parent).toList.take 2 = "parent commit ".toList.take 2 := by
    have split : unknownParent parent = "parent commit " ++ (parent ++ " is unknown") := String.append_assoc
    exact (congrArg (fun text => text.toList.take 2) split).trans (take_toList_append _ (by decide))
  have first : "parent commit ".toList.take 2 = ['p', 'a'] := by decide
  exact other ((congrArg (fun text => text.toList.take 2) (Error.message.inj same)).trans (letters.trans first))

theorem notUnknownParent_permission (scope : String) :
    NotUnknownParent (.message ("permission denied for " ++ scope)) := by
  apply notUnknownParent_of_take
  rw [take_toList_append _ (by decide)]
  decide

theorem notUnknownParent_refusal {refusal : String}
    (known : refusal = "commit_id is required" ∨ refusal = "commit cannot parent itself" ∨
      refusal = "commit would introduce a DAG cycle") : NotUnknownParent (.message refusal) := by
  apply notUnknownParent_of_take
  rcases known with rfl | rfl | rfl <;> decide

section Raises

theorem attempt_raises {σ : Type} (call : StoreCall) :
    Raises NotUnknownParent (ambient.attempt call : Fallible σ Error Unit) :=
  .ensure _ (notUnknownParent_store call)

theorem putArtifact_raises (bytes : Bytes) (mediaType : String) :
    Raises NotUnknownParent (SqliteStore.putArtifact deps config ambient bytes mediaType) := by
  refine .bind (attempt_raises _) fun _ => .bind (.ite (.pure _) ?_) fun _ => .bind ?_ fun _ =>
    .bind (attempt_raises _) fun _ => .bind (.modify _) fun _ => .pure _
  · exact .bind (attempt_raises _) fun _ => .pure _
  · exact .bind (attempt_raises _) fun _ => .bind (.modify _) fun _ => attempt_raises _

theorem planCheckpoint_raises (request : CheckpointRequest) :
    Raises NotUnknownParent (planCheckpoint deps config ambient request) := by
  have permission : ∀ agentId scope, Raises NotUnknownParent (ensureChannelPermission config agentId scope) := by
    intro agentId scope
    exact .ite (.pure _) (.bind .get fun _ => .ensure _ (notUnknownParent_permission scope))
  have payload : ∀ payload, Raises NotUnknownParent (preparePayload deps config ambient payload) :=
    fun _ => .ite (.bind (.zoom (putArtifact_raises _ _)) fun _ => .pure _) (.pure _)
  have parents : ∀ delta given, Raises NotUnknownParent (resolveParents ambient delta given) := by
    intro delta given
    exact .ite (.pure _) (.bind (.zoom (.bind (attempt_raises _) fun _ => .bind .get fun _ => .pure _)) fun _ => .pure _)
  exact .bind (permission _ _) fun _ => .bind (payload _) fun _ => .bind (parents _ _) fun _ => .pure _

theorem inspectLoop_raises (commit : Commit) :
    Raises NotUnknownParent (inspectLoop deps config ambient commit) := by
  have report : ∀ found, Raises NotUnknownParent (reportLoop deps ambient found)
    | none => .pure ()
    | some warning => .bind (.zoom (.bind (attempt_raises _) fun _ => .modify _)) fun _ => .modify _
  exact .ite (.pure ()) (.bind .get fun _ => .bind (.modify _) fun _ => report _)

/-- With known parents the index does not complain about them. -/
theorem appendToDag_raises {commit : Commit} (known : ∀ parent ∈ commit.parentCommitIds, parent ∈ s.dag.parents)
    {error : Error} (run : appendToDag commit s = (.error error, t)) : NotUnknownParent error := by
  rw [appendToDag, bind_of_ok (show Fallible.get s = (.ok s, s) from rfl)] at run
  rcases bind_eq_error_iff.1 run with refused | ⟨_, _, _, impossible⟩
  · have outcome := (lift_eq_iff.1 refused).1
    cases same : s.dag.append commit with
    | error refusal =>
      rw [same] at outcome
      rw [Except.error.inj outcome]
      exact notUnknownParent_refusal (DagIndex.append_error_of_known known same)
    | ok dag =>
      rw [same] at outcome
      cases outcome
  · cases (modify_eq_iff.1 impossible).1

theorem record_raises {plan : Plan} (known : ∀ parent ∈ plan.commit.parentCommitIds, parent ∈ s.dag.parents)
    {error : Error} (run : record deps config ambient plan s = (.error error, t)) : NotUnknownParent error := by
  have stores : Raises NotUnknownParent (onStore (SqliteStore.appendCommit ambient plan.commit)) :=
    .zoom (.bind (attempt_raises _) fun _ => .modify _)
  have moves : Raises NotUnknownParent
      (onStore (SqliteStore.setHead ambient plan.commit.lineage plan.commit.commitId)) :=
    .zoom (.bind (attempt_raises _) fun _ => .modify _)
  rcases bind_eq_error_iff.1 run with persisting | ⟨_, m, _, rest⟩
  · rcases bind_eq_error_iff.1 persisting with indexing | ⟨_, m, _, rest⟩
    · exact appendToDag_raises known indexing
    · exact (Raises.bind stores fun _ => moves) m error t rest
  · exact (Raises.bind (.modify _) fun _ => inspectLoop_raises _) m error t rest

end Raises

/-- Each head names a stored commit that the index knows. -/
theorem Reachable.head_known (reachable : Reachable deps config s) {row : HeadRow} (member : row ∈ s.store.heads) :
    (∃ commit, s.store.tables.getCommit row.commitId = some commit) ∧ row.commitId ∈ s.dag.parents := by
  obtain ⟨commit, found⟩ := reachable.headsStored row member
  obtain ⟨stored, named⟩ := reachable.sound.keyed.getCommit_eq_some_iff.mp found
  exact ⟨⟨commit, found⟩, named ▸ reachable.sound.indexed commit stored⟩

/-- In every reachable state, also after failed store calls, each head names a stored commit that the index
knows, and a checkpoint without explicit parents does not fail for an unknown parent. -/
theorem heads_never_dangle (reachable : Reachable deps config s) :
    (∀ row ∈ s.store.heads,
      (∃ commit, s.store.tables.getCommit row.commitId = some commit) ∧ row.commitId ∈ s.dag.parents) ∧
    ∀ ambient request error t, request.parentCommitIds = [] →
      checkpointInner deps config ambient request s = (.error error, t) →
        ∀ parent, error ≠ .message (unknownParent parent) := by
  refine ⟨fun row member => reachable.head_known member, fun ambient request error t bare run => ?_⟩
  rcases bind_eq_error_iff.1 run with planning | ⟨plan, middle, planned, rest⟩
  · exact planCheckpoint_raises request s error t planning
  · obtain ⟨_, rfl⟩ := planCheckpoint_eq_ok_iff.1 ⟨middle, planned⟩
    have kept := SameLedger.of_run (planCheckpoint_keeps request) planned
    have known : ∀ parent ∈ (checkpointCommit deps config ambient s.store.heads request).parentCommitIds,
        parent ∈ middle.dag.parents := by
      intro parent edge
      have head : parent ∈ (headOf s.store.heads (checkpointDelta deps ambient request).lineage).toList := by
        have parents : (checkpointCommit deps config ambient s.store.heads request).parentCommitIds =
          parentsFor s.store.heads (checkpointDelta deps ambient request).lineage request.parentCommitIds := rfl
        rwa [parents, parentsFor, if_neg (not_not.mpr bare)] at edge
      obtain ⟨row, found, rfl⟩ := Option.map_eq_some_iff.mp (Option.mem_toList.mp head)
      have dag : middle.dag = s.dag := congrArg Ledger.dag kept
      exact dag ▸ (reachable.head_known (Table.mem_of_lookup found).1).2
    rcases bind_eq_error_iff.1 rest with recording | ⟨_, _, _, impossible⟩
    · exact record_raises known recording
    · cases (pure_eq_iff.1 impossible).1

section Failing

/-- A checkpoint in the given second during which one store call fails. -/
private def breaking (call : StoreCall) (second : ℕ) : Call :=
  ⟨.checkpoint (Sample.checkpointRequest "r" [] []),
    { Ambient.calm ⟨second, 0⟩ second with fails := fun other => other = call }⟩

/-- A checkpoint, one that is not stored and one whose head is not moved. -/
private def broken : AppState :=
  runCalls .sample Sample.config [Sample.checkpoint "r" 1, breaking .appendCommit 2, breaking .setHead 3]

theorem heads_never_dangle_broken :
    ∃ row ∈ broken.store.heads, row.commitId ∈ broken.dag.parents ∧
      broken.dag.parents.keys.card = 3 ∧ broken.store.tables.commits.length = 2 := by
  have headed : broken.store.heads ≠ [] := by decide
  obtain ⟨row, member⟩ := List.exists_mem_of_ne_nil _ headed
  have reachable : Reachable .sample Sample.config broken := reachable_runCalls _ _ _
  have known := (heads_never_dangle reachable).1 row member
  exact ⟨row, member, known.2, by decide, by decide⟩

end Failing

end AttowNexus
