import AttowNexus.Soundness.ForkIsolation

/-! # Whose head moves

A fork writes the head of its own lineage, also when the run it names is not new and that head was another
commit. The heads are kept under a joined key, so a checkpoint moves the heads of all the quadruples with
its key: of its own one only, as long as no other quadruple joins to the same key.
-/

namespace AttowNexus

open AppState Fallible

variable {deps : External} {config : Config} {ambient : Ambient} {s t : AppState}

section Forks

variable {forkRequest : ForkRequest} {result : ForkResult} {source : Commit}

/-- A successful fork keeps every head exactly when its own lineage had none, or had the source commit. -/
theorem fork_keeps_heads_iff (named : s.store.tables.getCommit forkRequest.sourceCommitId = some source)
    (forked : forkInner deps ambient forkRequest s = (.ok result, t)) :
    (∀ (lineage : Lineage) (head : String), headOf s.store.heads lineage = some head →
      headOf t.store.heads lineage = some head) ↔
    headOf s.store.heads (Ledger.forkLineage ambient forkRequest source) = none ∨
      headOf s.store.heads (Ledger.forkLineage ambient forkRequest source) = some source.commitId := by
  obtain ⟨stored, admits, finish⟩ := forkInner_ok forked
  obtain rfl : stored = source := Option.some.inj (admits.source.symm.trans named)
  have heads : t.store.heads = moveHead (Ledger.forkLineage ambient forkRequest stored) stored.commitId s.store.heads :=
    congrArg Ledger.heads finish
  constructor
  · intro kept
    cases before : headOf s.store.heads (Ledger.forkLineage ambient forkRequest stored) with
    | none => exact .inl rfl
    | some head =>
      have after := kept _ _ before
      rw [headOf_fork named forked] at after
      exact .inr after.symm
  · intro fresh lineage head before
    rw [heads, headOf_moveHead]
    split
    · next same =>
      -- The key decides the head, so it is that of the lineage of the fork.
      rw [headOf, same, ← headOf] at before
      rcases fresh with none_ | own
      · cases none_.symm.trans before
      · exact own.symm.trans before
    · exact before

end Forks

section Keys

variable {lineage other : Lineage}

/-- No unit separator in the run, the thread and the agent. The channel comes last and may have some. -/
structure Lineage.Separable (lineage : Lineage) : Prop where
  runId : '\u001f' ∉ lineage.runId.toList
  threadId : '\u001f' ∉ lineage.threadId.toList
  agentId : '\u001f' ∉ lineage.agentId.toList

instance : Decidable lineage.Separable :=
  decidable_of_iff ('\u001f' ∉ lineage.runId.toList ∧ '\u001f' ∉ lineage.threadId.toList ∧
    '\u001f' ∉ lineage.agentId.toList) ⟨fun ⟨a, b, c⟩ => ⟨a, b, c⟩, fun ⟨a, b, c⟩ => ⟨a, b, c⟩⟩

theorem toList_headKey (lineage : Lineage) : lineage.headKey.toList = lineage.runId.toList ++ '\u001f' ::
    (lineage.threadId.toList ++ '\u001f' :: (lineage.agentId.toList ++ '\u001f' :: lineage.channel.toList)) := by
  simp only [Lineage.headKey, String.toList_append, List.append_assoc]
  rfl

/-- The joined key is that of one separable quadruple only. -/
theorem headKey_inj (separable : lineage.Separable) (separable' : other.Separable) :
    lineage.headKey = other.headKey ↔ lineage = other := by
  refine ⟨fun same => ?_, congrArg _⟩
  have cut := congrArg String.toList same
  rw [toList_headKey, toList_headKey] at cut
  obtain ⟨runs, cut⟩ := Listing.eq_of_append_separator_eq separable.runId separable'.runId cut
  obtain ⟨threads, cut⟩ := Listing.eq_of_append_separator_eq separable.threadId separable'.threadId cut
  obtain ⟨agents, channels⟩ := Listing.eq_of_append_separator_eq separable.agentId separable'.agentId cut
  rw [String.toList_inj] at runs threads agents channels
  cases lineage
  cases other
  exact Lineage.mk.injEq .. ▸ ⟨runs, threads, agents, channels⟩

end Keys

section Checkpoints

variable {request : CheckpointRequest} {lineage : Lineage}

variable (deps config) in
/-- A checkpoint up to the persisted commit. -/
def persistCheckpoint (request : CheckpointRequest) (ambient : Ambient) : Fallible AppState Error Plan := do
  let plan ← planCheckpoint deps config ambient request
  persistCommit ambient plan.commit
  pure plan

variable (deps config) in
/-- The states after checkpoints, whatever comes of them -/
def afterCheckpoints (start : AppState) (calls : List (CheckpointRequest × Ambient)) : AppState :=
  calls.foldl (fun state call => (checkpointInner deps config call.2 call.1 state).2) start

variable (deps config) in
/-- The quadruple of a checkpoint and the commit that it persists, if it gets that far -/
def checkpointed (call : CheckpointRequest × Ambient) (state : AppState) : Option (Lineage × String) :=
  (persistCheckpoint deps config call.1 call.2 state).1.toOption.map fun plan =>
    (call.1.lineage, plan.commit.commitId)

variable (deps config) in
/-- The commits of a sequence of checkpoints -/
def checkpointLog : AppState → List (CheckpointRequest × Ambient) → List (Lineage × String)
  | _, [] => []
  | state, call :: rest =>
      (checkpointed deps config call state).toList ++
        checkpointLog (checkpointInner deps config call.2 call.1 state).2 rest

/-- The last commit on exactly the quadruple -/
def lastOn (lineage : Lineage) (log : List (Lineage × String)) : Option String :=
  ((log.filter fun entry => entry.1 = lineage).getLast?).map (·.2)

theorem lastOn_append (first second : List (Lineage × String)) :
    lastOn lineage (first ++ second) = (lastOn lineage second).or (lastOn lineage first) := by
  rw [lastOn, List.filter_append, List.getLast?_append, lastOn, lastOn]
  cases (second.filter fun entry => entry.1 = lineage).getLast? <;> rfl

/-- Persisting that fails leaves the heads alone. -/
theorem persistCommit_error_heads {commit : Commit} {error : Error}
    (run : persistCommit ambient commit s = (.error error, t)) : t.store.heads = s.store.heads := by
  obtain ⟨added, middle, indexed⟩ : ∃ added middle, appendToDag commit s = (added, middle) := ⟨_, _, rfl⟩
  rcases appendToDag_cases indexed with ⟨_, rfl, rfl⟩ | ⟨_, ⟨_, rfl⟩, rfl⟩
  · rw [persistCommit, bind_of_ok indexed] at run
    rcases bind_eq_error_iff.1 run with unstored | ⟨_, _, storing, moving⟩
    · obtain ⟨_, call, rfl⟩ := onStore_eq_iff.1 unstored
      rcases SqliteStore.appendCommit_cases call with ⟨_, _, rfl⟩ | ⟨_, impossible, _⟩
      · rfl
      · cases impossible
    · obtain ⟨_, call, rfl⟩ := onStore_eq_iff.1 storing
      rcases SqliteStore.appendCommit_cases call with ⟨_, impossible, _⟩ | ⟨_, _, rfl⟩
      · cases impossible
      · obtain ⟨_, call, rfl⟩ := onStore_eq_iff.1 moving
        rcases SqliteStore.setHead_cases call with ⟨_, _, rfl⟩ | ⟨_, impossible, _⟩
        · rfl
        · cases impossible
  · rw [persistCommit, bind_of_error indexed] at run
    obtain ⟨_, rfl⟩ := Prod.mk.inj run
    rfl

/-- A checkpoint persists what it planned, or nothing. -/
theorem persistCheckpoint_cases (request : CheckpointRequest) (ambient : Ambient) (s : AppState) :
    (∃ error, (persistCheckpoint deps config request ambient s).1 = .error error ∧
      (checkpointInner deps config ambient request s).2.store.heads = s.store.heads) ∨
    ∃ plan, (persistCheckpoint deps config request ambient s).1 = .ok plan ∧ plan.commit.lineage = request.lineage ∧
      (checkpointInner deps config ambient request s).2.store.heads =
        moveHead request.lineage plan.commit.commitId s.store.heads := by
  obtain ⟨planned, middle, planning⟩ : ∃ planned middle,
    planCheckpoint deps config ambient request s = (planned, middle) := ⟨_, _, rfl⟩
  have kept := SameLedger.of_run (planCheckpoint_keeps request) planning
  have sameHeads : middle.store.heads = s.store.heads := congrArg Ledger.heads kept
  cases planned with
  | error error =>
    refine .inl ⟨error, ?_, ?_⟩
    · rw [persistCheckpoint, bind_of_error planning]
    · rw [checkpointInner, bind_of_error planning, sameHeads]
  | ok plan =>
    obtain ⟨_, rfl⟩ := planCheckpoint_eq_ok_iff.1 ⟨middle, planning⟩
    obtain ⟨r, after, persisting⟩ : ∃ r after,
      persistCommit ambient (checkpointPlan deps config ambient s.store.heads request).commit middle = (r, after) :=
      ⟨_, _, rfl⟩
    obtain ⟨outcome, t, recording⟩ : ∃ outcome t,
      record deps config ambient (checkpointPlan deps config ambient s.store.heads request) middle = (outcome, t) :=
      ⟨_, _, rfl⟩
    have final : (checkpointInner deps config ambient request s).2 = t := by
      rw [checkpointInner, bind_of_ok planning]
      cases outcome with
      | error error => rw [bind_of_error recording]
      | ok => rw [bind_of_ok recording]; rfl
    rw [final]
    cases r with
    | error error =>
      refine .inl ⟨error, ?_, ?_⟩
      · rw [persistCheckpoint, bind_of_ok planning, bind_of_error persisting]
      · rw [record, bind_of_error persisting] at recording
        obtain ⟨_, rfl⟩ := Prod.mk.inj recording
        exact (persistCommit_error_heads persisting).trans sameHeads
    | ok =>
      refine .inr ⟨checkpointPlan deps config ambient s.store.heads request, ?_, rfl, ?_⟩
      · rw [persistCheckpoint, bind_of_ok planning, bind_of_ok persisting]
        rfl
      · have moved : t.store.heads = moveHead request.lineage _ middle.store.heads :=
          congrArg Ledger.heads (record_ledger persisting recording)
        rw [moved, sameHeads]

/-- The commit that a successful checkpoint answers with is in the log. -/
theorem checkpointed_of_ok {response : CheckpointResponse}
    (run : checkpointInner deps config ambient request s = (.ok response, t)) :
    checkpointed deps config (request, ambient) s = some (request.lineage, response.commitId) := by
  obtain ⟨plan, middle, planning, rest⟩ := bind_eq_ok_iff.1 run
  obtain ⟨_, after, recording, answer⟩ := bind_eq_ok_iff.1 rest
  obtain ⟨_, persisted, persisting, _⟩ := bind_eq_ok_iff.1 recording
  obtain ⟨same, rfl⟩ := pure_eq_iff.1 answer
  have done : (persistCheckpoint deps config request ambient s).1 = .ok plan := by
    rw [persistCheckpoint, bind_of_ok planning, bind_of_ok persisting]
    rfl
  rw [checkpointed, done, Except.ok.inj same]
  rfl

/-- A checkpoint moves the heads of its own quadruple, when the key is that of no other. -/
theorem headOf_checkpoint (call : CheckpointRequest × Ambient)
    (alone : call.1.lineage.headKey = lineage.headKey → call.1.lineage = lineage) :
    headOf (checkpointInner deps config call.2 call.1 s).2.store.heads lineage =
      (lastOn lineage (checkpointed deps config call s).toList).or (headOf s.store.heads lineage) := by
  rcases persistCheckpoint_cases call.1 call.2 s with
    ⟨error, failed, heads⟩ | ⟨plan, done, _, heads⟩
  · rw [checkpointed, failed, heads]
    rfl
  · rw [checkpointed, done, heads, headOf_moveHead]
    by_cases same : call.1.lineage = lineage
    · rw [if_pos (congrArg _ same.symm)]
      simp [lastOn, same, Except.toOption]
    · rw [if_neg fun key => same (alone key.symm)]
      simp [lastOn, same, Except.toOption]

theorem headOf_afterCheckpoints {calls : List (CheckpointRequest × Ambient)} (state : AppState)
    (alone : ∀ call ∈ calls, call.1.lineage.headKey = lineage.headKey → call.1.lineage = lineage) :
    headOf (afterCheckpoints deps config state calls).store.heads lineage =
      (lastOn lineage (checkpointLog deps config state calls)).or (headOf state.store.heads lineage) := by
  induction calls generalizing state with
  | nil => rfl
  | cons call rest ih =>
    have later := ih (checkpointInner deps config call.2 call.1 state).2 fun other member =>
      alone other (List.mem_cons_of_mem _ member)
    rw [headOf_checkpoint call (alone call List.mem_cons_self), ← Option.or_assoc, ← lastOn_append] at later
    exact later

/-- After checkpoints on an empty table of heads, the head of a quadruple is the last commit on exactly that
quadruple, as long as no checkpoint was on another quadruple that joins to the same key. -/
theorem headOf_eq_lastOn {start : AppState} {calls : List (CheckpointRequest × Ambient)}
    (bare : start.store.heads = [])
    (alone : ∀ call ∈ calls, call.1.lineage.headKey = lineage.headKey → call.1.lineage = lineage) :
    headOf (afterCheckpoints deps config start calls).store.heads lineage =
      lastOn lineage (checkpointLog deps config start calls) := by
  rw [headOf_afterCheckpoints start alone, headOf, bare]
  exact Option.or_none

end Checkpoints

section Sample

/-- A run with a root and a commit on it -/
private def forkable : AppState := runCalls .sample Sample.config [Sample.checkpoint "r" 1, Sample.checkpoint "r" 2]

private def forkableRoot : String := Sample.headOf (runCalls .sample Sample.config [Sample.checkpoint "r" 1]) "r"

private def rootInto (runId : String) : ForkRequest := ⟨forkableRoot, runId, none⟩

theorem fork_keeps_heads_iff_fresh : ∃ result t,
    forkInner .sample (.calm ⟨3, 0⟩ 3) (rootInto "f") forkable = (.ok result, t) ∧
      ∀ (lineage : Lineage) (head : String), headOf forkable.store.heads lineage = some head →
        headOf t.store.heads lineage = some head := by
  have found : (forkable.store.tables.getCommit forkableRoot).map (·.lineage) = some (Sample.lineage "r") := by decide
  obtain ⟨source, named, lineage⟩ := Option.map_eq_some_iff.mp found
  obtain ⟨result, forked⟩ := Fallible.exists_ok (x := forkInner .sample (.calm ⟨3, 0⟩ 3) (rootInto "f"))
    (s := forkable) (by decide)
  refine ⟨result, _, forked, (fork_keeps_heads_iff named forked).2 (.inl ?_)⟩
  rw [Ledger.forkLineage, lineage]
  decide

/-- A fork of the root onto the run itself takes the head of the run back to the root. -/
theorem fork_moves_head :
    ¬ ∀ (deps : External) (config : Config) (ambient : Ambient) (s t : AppState) (forkRequest : ForkRequest)
      (result : ForkResult), Reachable deps config s → forkInner deps ambient forkRequest s = (.ok result, t) →
      ∀ (lineage : Lineage) (head : String), headOf s.store.heads lineage = some head →
        headOf t.store.heads lineage = some head := by
  intro claim
  obtain ⟨result, forked⟩ := Fallible.exists_ok (x := forkInner .sample (.calm ⟨3, 0⟩ 3) (rootInto "r"))
    (s := forkable) (by decide)
  have kept := claim .sample Sample.config _ forkable _ (rootInto "r") result (reachable_runCalls _ _ _) forked
    (Sample.lineage "r") (Sample.headOf forkable "r") (by decide)
  exact absurd kept (by decide)

/-- A checkpoint on the quadruple, in the given second -/
private def checkpointOn (lineage : Lineage) (second : ℕ) : CheckpointRequest × Ambient :=
  ({ Sample.checkpointRequest lineage.runId [] [] with
      threadId := lineage.threadId, agentId := lineage.agentId, channel := lineage.channel },
    .calm ⟨second, 0⟩ second)

/-- Two checkpoints of a run and one of another run between them -/
private def inTurns : List (CheckpointRequest × Ambient) :=
  [checkpointOn (Sample.lineage "r") 1, checkpointOn (Sample.lineage "q") 2, checkpointOn (Sample.lineage "r") 3]

theorem headOf_eq_lastOn_inTurns :
    headOf (afterCheckpoints .sample Sample.config .initial inTurns).store.heads (Sample.lineage "r") =
      lastOn (Sample.lineage "r") (checkpointLog .sample Sample.config .initial inTurns) :=
  headOf_eq_lastOn rfl (by decide)

/-- A checkpoint of the run `r` and a separator is seen in the run `r`. -/
theorem head_shared :
    ¬ ∀ (deps : External) (config : Config) (calls : List (CheckpointRequest × Ambient)) (lineage : Lineage),
      headOf (afterCheckpoints deps config .initial calls).store.heads lineage =
        lastOn lineage (checkpointLog deps config .initial calls) := by
  intro claim
  have seen := claim .sample Sample.config [checkpointOn ⟨"r\u001ft", "u", "agent", "channel"⟩ 1]
    ⟨"r", "t\u001fu", "agent", "channel"⟩
  exact absurd seen (by decide)

end Sample

end AttowNexus
