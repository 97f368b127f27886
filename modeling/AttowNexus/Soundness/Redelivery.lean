import AttowNexus.Proofs.History

/-! # Delivering a publish twice

A publish that fixes its id, its time and its parents makes the same commit every time. The second
delivery finds the commit stored and leaves it there, but the transaction counts it again, and the head
comes back to it wherever it was: no second delivery is without effect.
-/

namespace AttowNexus

open AppState

variable {deps : External} {config : Config} {ambient ambient' : Ambient} {s₀ s₁ s t : AppState}
  {request : PublishDeltaRequest} {delta : StateDelta}

/-- The publish is durable and fixes the id, the time and the parents of its commit. -/
structure PublishDeltaRequest.Fixes (request : PublishDeltaRequest) (config : Config) (delta : StateDelta) : Prop where
  given : request.delta = some delta
  durable : Persists config delta
  named : delta.deltaId ≠ ""
  timed : delta.wallTime.isSome = true
  linked : request.parentCommitIds ≠ []

/-- A call that answers with the given commit and changes neither heads nor commits nor counts. -/
structure Harmless (commitId : String) (s : AppState) (outcome : Except Error PublishDeltaResponse)
    (t : AppState) : Prop where
  answers : ∃ response, outcome = .ok response ∧ response.commitId = commitId
  heads : t.store.heads = s.store.heads
  commits : t.store.tables.commits = s.store.tables.commits
  runs : ∀ runId, t.store.tables.runCount runId = s.store.tables.runCount runId
  channels : ∀ channel, t.store.tables.channelCount channel = s.store.tables.channelCount channel

namespace PublishDeltaRequest.Fixes

/-- Neither the environment nor the heads show in the commit. -/
theorem publishCommit_eq (fixes : request.Fixes config delta) (heads heads' : List HeadRow) :
    publishCommit deps config ambient heads request delta = publishCommit deps config ambient' heads' request delta := by
  have normal : normalizeDelta deps ambient delta = normalizeDelta deps ambient' delta := by
    obtain ⟨time, timed⟩ := Option.isSome_iff_exists.mp fixes.timed
    simp only [normalizeDelta, if_neg fixes.named, timed, Option.getD_some]
  have parents : parentsFor heads delta.lineage request.parentCommitIds =
      parentsFor heads' delta.lineage request.parentCommitIds := by
    rw [parentsFor, parentsFor, if_pos fixes.linked, if_pos fixes.linked]
  simp only [publishCommit, publishDelta, normal, parents]

/-- An accepted delivery persists the commit of the request and answers with its id. -/
theorem accepted (fixes : request.Fixes config delta) {response : PublishDeltaResponse}
    (run : publishDeltaInner deps config ambient request s = (.ok response, t)) (ambient' : Ambient)
    (heads : List HeadRow) :
    t.ledger = s.ledger.persist (publishCommit deps config ambient' heads request delta) ∧
      response.commitId = (publishCommit deps config ambient' heads request delta).commitId := by
  rcases publishDeltaInner_cases run with ⟨_, ⟨_, failed⟩, _⟩ | ⟨other, admits, away, _⟩ |
      ⟨other, admits, _, recorded, answered⟩
  · exact absurd failed nofun
  · obtain rfl := Option.some.inj (admits.given.symm.trans fixes.given)
    exact absurd fixes.durable away
  · obtain rfl := Option.some.inj (admits.given.symm.trans fixes.given)
    obtain ⟨_, finish⟩ := recorded.persisted_of_true
    have same : publishCommit deps config ambient s.store.heads request other =
        publishCommit deps config ambient' heads request other := fixes.publishCommit_eq _ _
    exact ⟨same ▸ finish, same ▸ answered response rfl⟩

end PublishDeltaRequest.Fixes

/-- What a second accepted delivery does: it answers with the same id and stores nothing new, counts the
commit again, and brings the head back to it. -/
theorem redelivery_counts (fixes : request.Fixes config delta) (reachable : Reachable deps config s₀)
    {first second : PublishDeltaResponse} {events : List Event}
    (delivered : publishDeltaInner deps config ambient request s₀ = (.ok first, s₁))
    (later : Run (Step deps config) s₁ events s)
    (again : publishDeltaInner deps config ambient' request s = (.ok second, t)) :
    second.commitId = first.commitId ∧ t.store.tables.commits = s.store.tables.commits ∧
      (∀ runId, t.store.tables.runCount runId =
        s.store.tables.runCount runId + if runId = delta.runId then 1 else 0) ∧
      (∀ channel, t.store.tables.channelCount channel =
        s.store.tables.channelCount channel + if channel = delta.channel then 1 else 0) ∧
      (t.store.heads = s.store.heads ↔ headOf s.store.heads delta.lineage = some first.commitId) := by
  obtain ⟨before, firstId⟩ := fixes.accepted delivered ambient s₀.store.heads
  obtain ⟨after, secondId⟩ := fixes.accepted again ambient s₀.store.heads
  have lineage : (publishCommit deps config ambient s₀.store.heads request delta).lineage = delta.lineage :=
    publishCommit_lineage
  generalize publishCommit deps config ambient s₀.store.heads request delta = commit at *
  have sound := (reachable.publishDelta delivered).sound
  have writes := writes_of_run later sound
  have known : commit.commitId ∈ s.store.tables.commits.map (·.commitId) := by
    obtain ⟨stored, found⟩ : ∃ stored, s₁.ledger.tables.getCommit commit.commitId = some stored := by
      rw [before]
      exact CommitTables.getCommit_appendCommit_self _ _
    have still := writes.keeps_commit found
    by_contra absent
    exact absurd (still.symm.trans (CommitTables.getCommit_eq_none_iff.2 absent)) nofun
  have tables : t.store.tables = s.store.tables.appendCommit commit := congrArg Ledger.tables after
  have heads : t.store.heads = moveHead commit.lineage commit.commitId s.store.heads := congrArg Ledger.heads after
  have sameRun : commit.runId = delta.runId := congrArg Lineage.runId lineage
  have sameChannel : commit.channel = delta.channel := congrArg Lineage.channel lineage
  refine ⟨secondId.trans firstId.symm, ?_, fun runId => ?_, fun channel => ?_, ?_⟩
  · rw [tables, CommitTables.stored_appendCommit_of_mem known]
  · rw [tables, CommitTables.runCount_appendCommit, sameRun]
  · rw [tables, CommitTables.channelCount_appendCommit, sameChannel]
  · rw [heads, lineage, firstId]
    exact moveHead_eq_self_iff (writes.sound sound).headKeys

/-- No second delivery is harmless: an accepted one counts the commit again. -/
theorem redelivery_never_harmless (fixes : request.Fixes config delta) (reachable : Reachable deps config s₀)
    {first : PublishDeltaResponse} {events : List Event} {outcome : Except Error PublishDeltaResponse}
    (delivered : publishDeltaInner deps config ambient request s₀ = (.ok first, s₁))
    (later : Run (Step deps config) s₁ events s)
    (again : publishDeltaInner deps config ambient' request s = (outcome, t)) :
    ¬ Harmless first.commitId s outcome t := by
  intro harmless
  obtain ⟨second, rfl, _⟩ := harmless.answers
  obtain ⟨_, _, runs, _⟩ := redelivery_counts fixes reachable delivered later again
  have counted := runs delta.runId
  rw [if_pos rfl, harmless.runs] at counted
  omega

section Sample

/-- One checkpoint. -/
private def rooted : AppState := runCalls .sample Sample.config [Sample.checkpoint "r" 1]

/-- A publish on top of it. -/
private def fixedRequest : PublishDeltaRequest := Sample.publishRequest "r" 1 2 [Sample.headOf rooted "r"]

private def deliver (s : AppState) : Except Error PublishDeltaResponse × AppState :=
  publishDeltaInner .sample Sample.config (.calm ⟨2, 0⟩ 2) fixedRequest s

private theorem fixes_fixedRequest : ∃ delta, fixedRequest.Fixes Sample.config delta :=
  ⟨_, rfl, .inl rfl, by decide, rfl, List.cons_ne_nil _ _⟩

/-- Both of two deliveries in a row are accepted. -/
private theorem delivered_twice : ∃ first s₁ second t,
    deliver rooted = (.ok first, s₁) ∧ deliver s₁ = (.ok second, t) := by
  obtain ⟨first, run⟩ := Fallible.exists_ok (x := deliver) (s := rooted) (by decide)
  obtain ⟨second, again⟩ := Fallible.exists_ok (x := deliver) (s := (deliver rooted).2) (by decide)
  exact ⟨first, _, second, _, run, again⟩

theorem redelivery_never_harmless_sample : ∃ first s₁ second t,
    deliver rooted = (.ok first, s₁) ∧ deliver s₁ = (.ok second, t) ∧
      ¬ Harmless first.commitId s₁ (.ok second) t := by
  have reachable : Reachable .sample Sample.config rooted := reachable_runCalls .sample Sample.config _
  obtain ⟨first, s₁, second, t, run, again⟩ := delivered_twice
  obtain ⟨delta, fixes⟩ := fixes_fixedRequest
  exact ⟨first, s₁, second, t, run, again, redelivery_never_harmless fixes reachable run .nil again⟩

/-- The second of two deliveries in a row is accepted and counted. -/
theorem redelivery_sample_counts :
    ¬ ∀ (deps : External) (config : Config) (request : PublishDeltaRequest) (delta : StateDelta)
      (s₀ s₁ s t : AppState) (ambient ambient' : Ambient) (first : PublishDeltaResponse) (events : List Event)
      (outcome : Except Error PublishDeltaResponse), request.Fixes config delta → Reachable deps config s₀ →
      publishDeltaInner deps config ambient request s₀ = (.ok first, s₁) → Run (Step deps config) s₁ events s →
      publishDeltaInner deps config ambient' request s = (outcome, t) → Harmless first.commitId s outcome t := by
  intro claim
  have reachable : Reachable .sample Sample.config rooted := reachable_runCalls .sample Sample.config _
  obtain ⟨first, s₁, second, t, run, again⟩ := delivered_twice
  obtain ⟨delta, fixes⟩ := fixes_fixedRequest
  have harmless := claim _ _ _ _ _ _ _ _ _ _ first [] _ fixes reachable run .nil again
  obtain ⟨_, _, runs, _⟩ := redelivery_counts fixes reachable run .nil again
  have counted := runs delta.runId
  rw [if_pos rfl, harmless.runs] at counted
  omega

end Sample

end AttowNexus
