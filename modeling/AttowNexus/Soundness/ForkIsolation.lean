import AttowNexus.Proofs.History

/-! # A fork and its source

A fork points a head of the new run at a commit of the source. A rollback moves the head of the run that
is stored in the head commit, so as long as the head of the fork is a commit of the source, it is the
source that moves. Once the named head was recorded on the fork, the source stays as it is.
-/

namespace AttowNexus

open AppState

/-- The head key of the lineage is that of no lineage of the run. -/
def KeysApart (runId : String) (lineage : Lineage) : Prop :=
  ∀ other : Lineage, other.runId = runId → other.headKey ≠ lineage.headKey

private theorem takeWhile_headKey {lineage : Lineage} (free : '\u001f' ∉ lineage.runId.toList) :
    lineage.headKey.toList.takeWhile (· ≠ '\u001f') = lineage.runId.toList := by
  have kept : ∀ c ∈ lineage.runId.toList, decide (c ≠ '\u001f') = true := by
    intro c member
    rw [decide_eq_true_iff]
    rintro rfl
    exact free member
  simp only [Lineage.headKey, String.toList_append, List.append_assoc]
  rw [List.takeWhile_append_of_pos kept]
  simp

/-- Different run ids without unit separators have different keys. -/
theorem keysApart_of_free {runId : String} {lineage : Lineage} (different : lineage.runId ≠ runId)
    (free : '\u001f' ∉ runId.toList) (free' : '\u001f' ∉ lineage.runId.toList) : KeysApart runId lineage := by
  rintro other rfl same
  apply different
  rw [← String.toList_inj, ← takeWhile_headKey free, ← takeWhile_headKey free', same]

variable {deps : External} {config : Config} {ambient : Ambient} {s s₁ t u : AppState}

/-- The commit, if it is stored, was recorded on the lineage. -/
def RecordedOn (s : AppState) (lineage : Lineage) (commitId : String) : Prop :=
  ∀ commit, s.store.tables.getCommit commitId = some commit → commit.lineage.headKey = lineage.headKey

/-- A rollback of the head of a lineage moves that head exactly when its commit was recorded there, or
when there is nothing to move. -/
theorem rollback_moves_iff (sound : s.ledger.Sound) {request : RollbackRequest} {response : RollbackResponse}
    {lineage : Lineage} (atHead : headOf s.store.heads lineage = some request.headCommitId)
    (run : rollbackInner deps ambient request s = (.ok response, t)) :
    headOf t.store.heads lineage = some request.targetCommitId ↔
      RecordedOn s lineage request.headCommitId ∨ request.targetCommitId = request.headCommitId := by
  obtain ⟨head, target, admits, _, finish⟩ := rollbackInner_ok run
  have heads : t.store.heads = moveHead head.lineage target.commitId s.store.heads := congrArg Ledger.heads finish
  have own : RecordedOn s lineage request.headCommitId ↔ head.lineage.headKey = lineage.headKey := by
    constructor
    · exact fun recorded => recorded head admits.head
    · intro same commit found
      rwa [← Option.some.inj (admits.head.symm.trans found)]
  rw [heads, headOf_moveHead, own, (sound.keyed.getCommit_eq_some_iff.mp admits.target).2, atHead]
  split
  · next same => exact iff_of_true rfl (.inl same.symm)
  · next apart =>
    rw [or_iff_right fun same => apart same.symm, Option.some.injEq]
    exact eq_comm

/-- A call on a fork that keeps to it: a checkpoint on its head, or a rollback without force of a head
whose commit was recorded there. -/
inductive OwnCall (deps : External) (config : Config) (source runId : String) : AppState → Event → AppState → Prop
  | checkpoint {s t : AppState} {request : CheckpointRequest} {ambient : Ambient} {outcome : Except Error Response}
      (inRun : request.runId = runId) (bare : request.parentCommitIds = [])
      (apart : KeysApart source ⟨request.runId, request.threadId, request.agentId, request.channel⟩)
      (step : Step deps config s ⟨⟨.checkpoint request, ambient⟩, outcome⟩ t) :
      OwnCall deps config source runId s ⟨⟨.checkpoint request, ambient⟩, outcome⟩ t
  | rollback {s t : AppState} {request : RollbackRequest} {ambient : Ambient} {outcome : Except Error Response}
      (lineage : Lineage) (inRun : lineage.runId = runId) (plain : request.force = false)
      (atHead : headOf s.store.heads lineage = some request.headCommitId) (apart : KeysApart source lineage)
      (own : RecordedOn s lineage request.headCommitId)
      (step : Step deps config s ⟨⟨.rollback request, ambient⟩, outcome⟩ t) :
      OwnCall deps config source runId s ⟨⟨.rollback request, ambient⟩, outcome⟩ t

namespace OwnCall

variable {source runId : String} {event : Event}

theorem step (call : OwnCall deps config source runId s event t) : Step deps config s event t := by
  cases call with
  | checkpoint _ _ _ step => exact step
  | rollback _ _ _ _ _ _ step => exact step

/-- No head of the source moves. -/
theorem headOf_source (call : OwnCall deps config source runId s event t) {other : Lineage}
    (inSource : other.runId = source) : headOf t.store.heads other = headOf s.store.heads other := by
  cases call with
  | checkpoint _ _ apart step =>
    obtain ⟨r, run, _⟩ := step_checkpoint step
    rcases checkpointInner_cases run with ⟨_, _, same⟩ | ⟨_, recorded, _⟩
    · exact congrArg (fun ledger => headOf ledger.heads other) same
    · exact recorded.headOf_of_apart (apart other inSource)
  | rollback lineage _ _ _ apart own step =>
    obtain ⟨r, run, _⟩ := step_rollback step
    refine (rollbackInner_rolledBack run).headOf_of_apart fun head found => ?_
    rw [own head found]
    exact apart other inSource

end OwnCall

section Runs

variable {source : Commit} {forkRequest : ForkRequest} {result : ForkResult} {events : List Event}

theorem headOf_source_of_run {source runId : String} (run : Run (OwnCall deps config source runId) s₁ events t)
    {other : Lineage} (inSource : other.runId = source) :
    headOf t.store.heads other = headOf s₁.store.heads other := by
  induction run with
  | nil => rfl
  | snoc _ call ih => exact (call.headOf_source inSource).trans ih

/-- A successful fork points the head of its lineage at the source commit. -/
theorem headOf_fork (named : s.store.tables.getCommit forkRequest.sourceCommitId = some source)
    (forked : forkInner deps ambient forkRequest s = (.ok result, s₁)) :
    headOf s₁.store.heads (Ledger.forkLineage ambient forkRequest source) = some source.commitId := by
  obtain ⟨stored, admits, finish⟩ := forkInner_ok forked
  obtain rfl : stored = source := Option.some.inj (admits.source.symm.trans named)
  have heads : s₁.store.heads = moveHead (Ledger.forkLineage ambient forkRequest stored) stored.commitId s.store.heads :=
    congrArg Ledger.heads finish
  rw [heads, headOf_moveHead, if_pos rfl]

/-- A fork starts at the source commit. While its calls keep to it, no head of the source run moves, and a
rollback of one of its heads moves that head exactly when its commit was recorded there. -/
theorem fork_isolated (reachable : Reachable deps config s)
    (named : s.store.tables.getCommit forkRequest.sourceCommitId = some source)
    (forked : forkInner deps ambient forkRequest s = (.ok result, s₁))
    (run : Run (OwnCall deps config source.runId (forkRunId ambient forkRequest)) s₁ events t) :
    headOf s₁.store.heads (Ledger.forkLineage ambient forkRequest source) = some source.commitId ∧
    (∀ other : Lineage, other.runId = source.runId →
      headOf t.store.heads other = headOf s₁.store.heads other) ∧
    ∀ (ambient' : Ambient) (request : RollbackRequest) (response : RollbackResponse) (lineage : Lineage)
      (u : AppState), lineage.runId = forkRunId ambient forkRequest → request.force = false →
      headOf t.store.heads lineage = some request.headCommitId →
      rollbackInner deps ambient' request t = (.ok response, u) →
      (headOf u.store.heads lineage = some request.targetCommitId ↔
        RecordedOn t lineage request.headCommitId ∨ request.targetCommitId = request.headCommitId) := by
  refine ⟨headOf_fork named forked, fun other inSource => headOf_source_of_run run inSource, ?_⟩
  intro ambient' request response lineage u _ _ atHead moved
  have steps : Run (Step deps config) s₁ events t := run.mono fun _ _ _ call => call.step
  have sound := (reachable.fork forked).sound
  exact rollback_moves_iff ((writes_of_run steps sound).sound sound) atHead moved

end Runs

section Sample

/-- Two checkpoints. -/
private def sourceCalls : List Call := [Sample.checkpoint "r" 1, Sample.checkpoint "r" 2]

private def sourceState : AppState := runCalls .sample Sample.config sourceCalls

private def sourceRoot : String := Sample.headOf (runCalls .sample Sample.config [Sample.checkpoint "r" 1]) "r"

private def sourceTip : String := Sample.headOf sourceState "r"

private def forkTip : ForkRequest := ⟨sourceTip, "f", none⟩

private def backToRoot : RollbackRequest := ⟨sourceTip, sourceRoot, false⟩

/-- The fork of the second checkpoint succeeds, and so does a rollback to the first one after it. -/
private theorem forked_sample : ∃ source result s₁ response t,
    sourceState.store.tables.getCommit sourceTip = some source ∧ source.lineage = Sample.lineage "r" ∧
      forkInner .sample (.calm ⟨3, 0⟩ 3) forkTip sourceState = (.ok result, s₁) ∧
      rollbackInner .sample (.calm ⟨4, 0⟩ 4) backToRoot s₁ = (.ok response, t) := by
  have found : (sourceState.store.tables.getCommit sourceTip).map (·.lineage) = some (Sample.lineage "r") := by
    decide
  obtain ⟨source, named, lineage⟩ := Option.map_eq_some_iff.mp found
  obtain ⟨result, forked⟩ := Fallible.exists_ok (x := forkInner .sample (.calm ⟨3, 0⟩ 3) forkTip)
    (s := sourceState) (by decide)
  obtain ⟨response, moved⟩ := Fallible.exists_ok (x := rollbackInner .sample (.calm ⟨4, 0⟩ 4) backToRoot)
    (s := (forkInner .sample (.calm ⟨3, 0⟩ 3) forkTip sourceState).2) (by decide)
  exact ⟨source, result, _, response, _, named, lineage, forked, moved⟩

private def forkedState : AppState := (forkInner .sample (.calm ⟨3, 0⟩ 3) forkTip sourceState).2

private def onFork : AppState := (exec .sample Sample.config (Sample.checkpoint "f" 4) forkedState).2

/-- A rollback of the checkpoint on the fork -/
private def backToFork : Call := ⟨.rollback ⟨Sample.headOf onFork "f", sourceTip, false⟩, .calm ⟨5, 0⟩ 5⟩

/-- A checkpoint on a fork and its rollback leave the head of the source. -/
theorem fork_isolated_sample : ∃ result response t,
    forkInner .sample (.calm ⟨3, 0⟩ 3) forkTip sourceState = (.ok result, forkedState) ∧
      exec .sample Sample.config backToFork onFork = (.ok response, t) ∧
      headOf t.store.heads (Sample.lineage "r") = headOf forkedState.store.heads (Sample.lineage "r") := by
  have reachable : Reachable .sample Sample.config sourceState := reachable_runCalls .sample Sample.config sourceCalls
  obtain ⟨source, result, s₁, _, _, named, lineage, forked, _⟩ := forked_sample
  obtain rfl : forkedState = s₁ := congrArg Prod.snd forked
  obtain ⟨response, back⟩ := Fallible.exists_ok (x := exec .sample Sample.config backToFork) (s := onFork) (by decide)
  have inRun : source.runId = "r" := congrArg Lineage.runId lineage
  have apart : KeysApart source.runId (Sample.lineage "f") := by
    refine keysApart_of_free ?_ ?_ ?_
    · rw [inRun]
      decide
    · rw [inRun]
      decide
    · decide
  have first : OwnCall .sample Sample.config source.runId "f" forkedState
      ⟨Sample.checkpoint "f" 4, (exec .sample Sample.config (Sample.checkpoint "f" 4) forkedState).1⟩ onFork :=
    .checkpoint rfl rfl apart rfl
  have own : RecordedOn onFork (Sample.lineage "f") (Sample.headOf onFork "f") := by
    have found : (onFork.store.tables.getCommit (Sample.headOf onFork "f")).map (·.lineage) =
        some (Sample.lineage "f") := by decide
    obtain ⟨head, read, onLineage⟩ := Option.map_eq_some_iff.mp found
    intro other there
    obtain rfl := Option.some.inj (read.symm.trans there)
    rw [onLineage]
  have second : OwnCall .sample Sample.config source.runId "f" onFork ⟨backToFork, .ok response⟩
      (exec .sample Sample.config backToFork onFork).2 := .rollback (Sample.lineage "f") rfl rfl (by decide) apart own back
  refine ⟨result, response, _, forked, back, ?_⟩
  exact (fork_isolated reachable named forked (.snoc (.single first) second)).2.1 (Sample.lineage "r") inRun.symm

/-- A rollback right after the fork moves the head of the source and leaves that of the fork. -/
theorem fork_isolated_fails_atSource :
    ¬ ∀ (deps : External) (config : Config) (ambient ambient' : Ambient) (s s₁ t : AppState)
      (forkRequest : ForkRequest) (result : ForkResult) (source : Commit) (request : RollbackRequest)
      (response : RollbackResponse), Reachable deps config s →
      s.store.tables.getCommit forkRequest.sourceCommitId = some source →
      (∀ commit ∈ s.store.tables.stored, commit.runId ≠ forkRunId ambient forkRequest) →
      (∀ lineage : Lineage, lineage.runId = forkRunId ambient forkRequest → headOf s.store.heads lineage = none) →
      forkInner deps ambient forkRequest s = (.ok result, s₁) →
      headOf s₁.store.heads (Ledger.forkLineage ambient forkRequest source) = some request.headCommitId →
      request.force = false → rollbackInner deps ambient' request s₁ = (.ok response, t) →
      (∀ other : Lineage, other.runId = source.runId →
        headOf t.store.heads other = headOf s₁.store.heads other) ∧
      headOf t.store.heads (Ledger.forkLineage ambient forkRequest source) = some request.targetCommitId := by
  intro claim
  have reachable : Reachable .sample Sample.config sourceState := reachable_runCalls .sample Sample.config sourceCalls
  obtain ⟨source, result, s₁, response, t, named, lineage, forked, moved⟩ := forked_sample
  have foreign : ∀ commit ∈ sourceState.store.tables.stored, commit.runId ≠ "f" := by decide
  have keys : sourceState.store.heads.map (·.headKey) = [(Sample.lineage "r").headKey] := by decide
  have unused : ∀ lineage : Lineage, lineage.runId = "f" → headOf sourceState.store.heads lineage = none := by
    intro lineage inFork
    have apart : KeysApart "f" (Sample.lineage "r") := keysApart_of_free (by decide) (by decide) (by decide)
    have absent : lineage.headKey ∉ sourceState.store.heads.map (·.headKey) := by
      rw [keys, List.mem_singleton]
      exact apart lineage inFork
    rw [headOf, Table.lookup_eq_none_iff.2 absent, Option.map_none]
  have atTip : headOf s₁.store.heads (Ledger.forkLineage (.calm ⟨3, 0⟩ 3) forkTip source) = some sourceTip := by
    rw [headOf_fork named forked, (reachable.sound.keyed.getCommit_eq_some_iff.mp named).2]
  have isolated := claim .sample Sample.config _ _ sourceState s₁ t forkTip result source backToRoot response reachable
    named foreign unused forked atTip rfl moved
  have still : s₁.store.tables.getCommit sourceTip = some source := by
    have steps : Step .sample Sample.config sourceState ⟨⟨.fork forkTip, .calm ⟨3, 0⟩ 3⟩, _⟩ s₁ :=
      Fallible.map_eq_iff.2 ⟨_, forked, rfl⟩
    exact (steps.writes reachable.sound.keyed).keeps_commit named
  rcases (rollback_moves_iff (reachable.fork forked).sound atTip moved).mp isolated.2 with own | same
  · have keys := own source still
    rw [Ledger.forkLineage, lineage] at keys
    exact absurd keys (by decide)
  · exact absurd same (by decide)

end Sample

end AttowNexus
