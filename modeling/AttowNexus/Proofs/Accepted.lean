import AttowNexus.Proofs.History

/-! # Histories of successful calls

Along successful calls the ledger is built from the list of the commits that they recorded. The index
records all of them, the tables keep the first of each id, and the counters count every one.
-/

namespace AttowNexus

open SuccGraph AppState

/-- A checkpoint, or a publish of a durable delta. -/
def Request.Durable : Request → Prop
  | .checkpoint _ => True
  | .publishDelta request => ∃ delta, request.delta = some delta ∧ delta.durable = true
  | _ => False

section Histories

variable (deps : External) (config : Config)

/-- The commit that a successful call records, if it records one. -/
def recordedBy (call : Call) (s : AppState) : List Commit :=
  match call.request with
  | .publishDelta request =>
      match request.delta with
      | some delta =>
          if delta.durable = false ∧ config.persistEphemeral = false then []
          else [publishCommit deps config call.ambient s.store.heads request delta]
      | none => []
  | .checkpoint request => [checkpointCommit deps config call.ambient s.store.heads request]
  | _ => []

/-- A history of successful calls of the allowed kinds, with the commits they recorded. -/
inductive Accepted (allowed : Request → Prop) : List Commit → AppState → Prop
  | start : Accepted allowed [] .initial
  | call {commits : List Commit} {s t : AppState} {event : Event} (before : Accepted allowed commits s)
      (kind : allowed event.call.request) (step : Step deps config s event t) (succeeded : event.Succeeded) :
      Accepted allowed (commits ++ recordedBy deps config event.call s) t

end Histories

namespace Ledger

variable {commits : List Commit} {start : Ledger} {commit : Commit}

/-- The ledger after recording the commits. -/
structure Built (commits : List Commit) (ledger : Ledger) : Prop where
  index : ledger.dag = .ofCommits commits
  keyed : ledger.tables.Keyed
  kept : ledger.tables.stored.Sublist commits
  ids : ∀ commit ∈ commits, commit.commitId ∈ ledger.tables.stored.map (·.commitId)
  causal : ParentsFirst (·.commitId) (·.parentCommitIds) ledger.tables.stored
  runs : ∀ runId, ledger.tables.runCount runId = commits.countP (·.runId = runId)
  channels : ∀ channel, ledger.tables.channelCount channel = commits.countP (·.channel = channel)

theorem built_empty : Built [] empty where
  index := rfl
  keyed := CommitTables.keyed_empty
  kept := List.Sublist.slnil
  ids := fun _ member => absurd member List.not_mem_nil
  causal := .nil
  runs := fun _ => rfl
  channels := fun _ => rfl

theorem Built.mem_ids_iff (built : Built commits start) {commitId : String} :
    commitId ∈ start.tables.stored.map (·.commitId) ↔ commitId ∈ start.dag.parents := by
  rw [built.index, DagIndex.mem_ofCommits_iff]
  constructor
  · exact fun member => (built.kept.map _).subset member
  · intro member
    obtain ⟨commit, inside, rfl⟩ := List.mem_map.mp member
    exact built.ids commit inside

/-- Persisting an accepted commit adds it to the list. -/
theorem Built.persist (built : Built commits start) (accepts : start.dag.Accepts commit) :
    Built (commits ++ [commit]) (start.persist commit) := by
  have counts : ∀ p : Commit → Bool, (commits ++ [commit]).countP p =
      commits.countP p + if p commit = true then 1 else 0 := by
    intro p
    rw [List.countP_append, List.countP_singleton]
  have index : (start.persist commit).dag = .ofCommits (commits ++ [commit]) := by
    rw [DagIndex.ofCommits_snoc, ← built.index, persist_dag]
  have runs : ∀ runId, (start.persist commit).tables.runCount runId =
      (commits ++ [commit]).countP (·.runId = runId) := by
    intro runId
    rw [persist_tables, CommitTables.runCount_appendCommit, built.runs, counts]
    simp only [decide_eq_true_eq, @eq_comm _ runId]
  have channels : ∀ channel, (start.persist commit).tables.channelCount channel =
      (commits ++ [commit]).countP (·.channel = channel) := by
    intro channel
    rw [persist_tables, CommitTables.channelCount_appendCommit, built.channels, counts]
    simp only [decide_eq_true_eq, @eq_comm _ channel]
  have parents : ∀ parent ∈ commit.parentCommitIds, parent ∈ start.tables.stored.map (·.commitId) :=
    fun parent edge => built.mem_ids_iff.mpr (accepts.known parent edge)
  by_cases known : commit.commitId ∈ start.tables.stored.map (·.commitId)
  · -- the row is ignored, and the id is still that of a stored commit
    have same : (start.persist commit).tables.stored = start.tables.stored := by
      rw [persist_tables, CommitTables.stored,
        CommitTables.stored_appendCommit_of_mem (built.keyed.ids_eq ▸ known), CommitTables.stored]
    refine ⟨index, built.keyed.appendCommit commit, ?_, ?_, ?_, runs, channels⟩
    · rw [same]
      exact built.kept.trans (List.sublist_append_left _ _)
    · rw [same]
      intro other member
      rcases List.mem_append.mp member with old | new
      · exact built.ids other old
      · rwa [List.mem_singleton.mp new]
    · rw [same]
      exact built.causal
  · have more : (start.persist commit).tables.stored = start.tables.stored ++ [commit] :=
      CommitTables.stored_appendCommit_of_notMem (built.keyed.ids_eq ▸ known)
    refine ⟨index, built.keyed.appendCommit commit, ?_, ?_, ?_, runs, channels⟩
    · rw [more]
      exact built.kept.append (List.Sublist.refl _)
    · rw [more]
      intro other member
      rw [List.map_append, List.mem_append]
      rcases List.mem_append.mp member with old | new
      · exact .inl (built.ids other old)
      · exact .inr (List.mem_map_of_mem new)
    · rw [more]
      exact built.causal.snoc parents

/-- The heads do not matter here. -/
theorem Built.of_same {finish : Ledger} (built : Built commits start) (dag : finish.dag = start.dag)
    (tables : finish.tables = start.tables) : Built commits finish := by
  obtain ⟨_, _, _⟩ := finish
  obtain ⟨rfl, rfl⟩ : _ ∧ _ := ⟨dag, tables⟩
  exact ⟨built.index, built.keyed, built.kept, built.ids, built.causal, built.runs, built.channels⟩

end Ledger

section Steps

variable {deps : External} {config : Config} {s t : AppState} {commits : List Commit}

private theorem exists_ok_of_map {α β : Type} {r : Except Error α} {wrap : α → β} {response : β}
    (success : Except.ok response = r.map wrap) : ∃ answer, r = .ok answer := by
  cases r with
  | error error => exact absurd success nofun
  | ok answer => exact ⟨answer, rfl⟩

/-- A successful call persists the commit that it records, or leaves the index and the tables alone. -/
theorem Step.records {event : Event} (step : Step deps config s event t) (succeeded : event.Succeeded) :
    (recordedBy deps config event.call s = [] ∧ t.dag = s.dag ∧ t.store.tables = s.store.tables) ∨
    ∃ commit, recordedBy deps config event.call s = [commit] ∧ s.dag.Accepts commit ∧
      t.ledger = s.ledger.persist commit := by
  have unchanged : t.ledger = s.ledger → t.dag = s.dag ∧ t.store.tables = s.store.tables := fun same =>
    ⟨congrArg Ledger.dag same, congrArg Ledger.tables same⟩
  have moved : ∀ {lineage commitId}, t.ledger = s.ledger.setHead lineage commitId →
      t.dag = s.dag ∧ t.store.tables = s.store.tables := fun same =>
    ⟨congrArg Ledger.dag same, congrArg Ledger.tables same⟩
  obtain ⟨⟨request, ambient⟩, outcome⟩ := event
  obtain ⟨response, rfl⟩ : ∃ response, outcome = .ok response := succeeded
  cases request with
  | registerAgent request => exact .inl ⟨rfl, unchanged (step_registerAgent step)⟩
  | publishDelta request =>
    obtain ⟨r, run, success⟩ := step_publishDelta step
    obtain ⟨answer, rfl⟩ := exists_ok_of_map success
    rcases publishDeltaInner_cases run with ⟨_, ⟨_, failed⟩, _⟩ | ⟨delta, admits, away, _, same⟩ |
        ⟨delta, admits, persists, recorded, _⟩
    · exact absurd failed nofun
    · left
      simp only [recordedBy, admits.given, if_pos (not_persists_iff.2 away)]
      exact ⟨trivial, unchanged same⟩
    · right
      obtain ⟨accepts, finish⟩ := recorded.persisted_of_true
      simp only [recordedBy, admits.given, if_neg fun away => not_persists_iff.1 away persists]
      exact ⟨_, rfl, accepts, finish⟩
  | checkpoint request =>
    obtain ⟨r, run, success⟩ := step_checkpoint step
    obtain ⟨answer, rfl⟩ := exists_ok_of_map success
    rcases checkpointInner_cases run with ⟨_, ⟨_, failed⟩, _⟩ | ⟨_, recorded, _⟩
    · exact absurd failed nofun
    · obtain ⟨accepts, finish⟩ := recorded.persisted_of_true
      exact .inr ⟨_, rfl, accepts, finish⟩
  | rollback request =>
    obtain ⟨r, run, success⟩ := step_rollback step
    have outcome := rollbackInner_rolledBack run
    refine .inl ⟨rfl, ?_⟩
    generalize t.ledger = ledger at outcome unchanged moved
    cases outcome with
    | rejected => exact unchanged rfl
    | headless => exact unchanged rfl
    | unlogged => exact moved rfl
    | moved => exact moved rfl
  | fork request =>
    obtain ⟨r, run, success⟩ := step_fork step
    have outcome := forkInner_forked run
    refine .inl ⟨rfl, ?_⟩
    generalize t.ledger = ledger at outcome unchanged moved
    cases outcome with
    | rejected => exact unchanged rfl
    | headless => exact unchanged rfl
    | unlogged => exact moved rfl
    | moved => exact moved rfl

/-- A successful call extends the list by the commit it records. -/
theorem Step.built {event : Event} (step : Step deps config s event t) (succeeded : event.Succeeded)
    (built : s.ledger.Built commits) : t.ledger.Built (commits ++ recordedBy deps config event.call s) := by
  rcases step.records succeeded with ⟨none, dag, tables⟩ | ⟨commit, one, accepts, finish⟩
  · rw [none, List.append_nil]
    exact built.of_same dag tables
  · rw [one, finish]
    exact built.persist accepts

variable {allowed : Request → Prop}

theorem Accepted.reachable (accepted : Accepted deps config allowed commits s) : Reachable deps config s := by
  induction accepted with
  | start => exact ⟨[], .nil⟩
  | call _ _ step _ ih =>
    obtain ⟨events, history⟩ := ih
    exact ⟨_, .snoc history step⟩

theorem Accepted.built (accepted : Accepted deps config allowed commits s) : s.ledger.Built commits := by
  induction accepted with
  | start => exact Ledger.built_empty
  | call _ _ step succeeded ih => exact step.built succeeded ih

end Steps

section Calls

variable (deps : External) (config : Config)

/-- The commits that a list of calls records. -/
def commitsOfCalls : List Call → AppState → List Commit
  | [], _ => []
  | call :: rest, s => recordedBy deps config call s ++ commitsOfCalls rest (exec deps config call s).2

/-- Every call of the list succeeds. -/
def allSucceed : List Call → AppState → Bool
  | [], _ => true
  | call :: rest, s => (exec deps config call s).1.isOk && allSucceed rest (exec deps config call s).2

variable {deps config}

theorem Accepted.calls {allowed : Request → Prop} {calls : List Call} {commits : List Commit} {s : AppState}
    (accepted : Accepted deps config allowed commits s) (kinds : ∀ call ∈ calls, allowed call.request)
    (succeed : allSucceed deps config calls s = true) :
    Accepted deps config allowed (commits ++ commitsOfCalls deps config calls s)
      (calls.foldl (fun state call => (exec deps config call state).2) s) := by
  induction calls generalizing commits s with
  | nil => simpa [commitsOfCalls] using accepted
  | cons call rest ih =>
    rw [allSucceed, Bool.and_eq_true] at succeed
    obtain ⟨response, run⟩ := Fallible.exists_ok succeed.1
    have step : Step deps config s ⟨call, .ok response⟩ _ := run
    have next := accepted.call (kinds call List.mem_cons_self) step ⟨response, rfl⟩
    have later := ih next (fun other member => kinds other (List.mem_cons_of_mem _ member)) succeed.2
    rwa [List.append_assoc] at later

theorem accepted_runCalls {allowed : Request → Prop} {calls : List Call}
    (kinds : ∀ call ∈ calls, allowed call.request) (succeed : allSucceed deps config calls .initial = true) :
    Accepted deps config allowed (commitsOfCalls deps config calls .initial) (runCalls deps config calls) := by
  exact Accepted.start.calls kinds succeed

end Calls

end AttowNexus
