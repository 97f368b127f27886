import AttowNexus.Library.Run
import AttowNexus.Model.Stream
import AttowNexus.Proofs.History

/-! # Notices on the stream

A publish and a checkpoint on the stream are answered by the same notice, whether or not the delta became a
commit. As long as every admitted delta does, each notice names a commit that was persisted and stays stored.
-/

namespace AttowNexus

open Fallible AppState

variable {deps : External} {config : Config}

/-- The request of an event that a notice answers -/
def ClientEvent.request : ClientEvent → Option PublishDeltaRequest
  | .publishDelta request => some request
  | .checkpoint request => some request
  | _ => none

def ServerEvent.isNotice : ServerEvent → Bool
  | .checkpointCommitted _ _ => true
  | _ => false

section Answers

variable {s t : AppState} {ambient : Ambient} {event : Option ClientEvent}

/-- An event is a publish, or it leaves the ledger alone and is not answered by a notice. -/
theorem answer_cases {outcome : Except Error ServerEvent} (answered : answer deps config ambient event s = (outcome, t)) :
    (∃ request q, event.bind (·.request) = some request ∧ publishDeltaInner deps config ambient request s = (q, t) ∧
      outcome = q.map fun response => .checkpointCommitted response.commitId response.deltaId) ∨
    event.bind (·.request) = none ∧ t.ledger = s.ledger ∧ ∀ reply, outcome = .ok reply → reply.isNotice = false := by
  have published : ∀ {request : PublishDeltaRequest}, publishOnStream deps config ambient request s = (outcome, t) →
      ∃ q, publishDeltaInner deps config ambient request s = (q, t) ∧
        outcome = q.map fun response => .checkpointCommitted response.commitId response.deltaId :=
    fun run => map_eq_iff.1 run
  have plain : ∀ {reply : ServerEvent}, reply.isNotice = false →
      (pure reply : Fallible AppState Error ServerEvent) s = (outcome, t) →
      t.ledger = s.ledger ∧ ∀ reply, outcome = .ok reply → reply.isNotice = false := by
    intro reply other run
    obtain ⟨rfl, rfl⟩ := pure_eq_iff.1 run
    exact ⟨rfl, fun _ same => Except.ok.inj same ▸ other⟩
  cases event with
  | none => exact .inr ⟨rfl, plain rfl answered⟩
  | some event =>
    cases event with
    | publishDelta request =>
      obtain ⟨q, run, rfl⟩ := published answered
      exact .inl ⟨request, q, rfl, run, rfl⟩
    | checkpoint request =>
      obtain ⟨q, run, rfl⟩ := published answered
      exact .inl ⟨request, q, rfl, run, rfl⟩
    | heartbeat agentId =>
      obtain ⟨rfl, rfl⟩ := Prod.mk.inj answered
      exact .inr ⟨rfl, rfl, fun _ same => Except.ok.inj same ▸ rfl⟩
    | shutdown reason => exact .inr ⟨rfl, plain rfl answered⟩
    | subscribe request => exact .inr ⟨rfl, plain rfl answered⟩
    | unsubscribe subscriberId => exact .inr ⟨rfl, plain rfl answered⟩
    | recordToolStarted toolCall => exact .inr ⟨rfl, plain rfl answered⟩
    | recordToolFinished toolResult => exact .inr ⟨rfl, plain rfl answered⟩
    | recordSideEffect sideEffect => exact .inr ⟨rfl, plain rfl answered⟩

end Answers

section Runs

variable {start : AppState} {s t finish : StreamState} {events : List StreamEvent}

/-- No event of the client hands in an admitted delta that is only broadcast. -/
def StreamEvent.Lasting (deps : External) (config : Config) (s : AppState) : StreamEvent → Prop
  | .client event ambient _ => ∀ request delta, event.bind (·.request) = some request →
      AdmitsPublish deps config ambient s request delta → Persists config delta
  | .other _ => True

/-- A step in which every admitted delta becomes a commit -/
def LastingStep (deps : External) (config : Config) (s : StreamState) (event : StreamEvent) (t : StreamState) : Prop :=
  StreamStep deps config s event t ∧ event.Lasting deps config s.app

/-- The commit of the event's delta was persisted under the id, which still names a stored commit. -/
def Committed (deps : External) (config : Config) (event : Option ClientEvent) (ambient : Ambient) (commitId : String)
    (finish : AppState) : Prop :=
  ∃ (request : PublishDeltaRequest) (delta : StateDelta) (before : AppState),
    event.bind (·.request) = some request ∧ request.delta = some delta ∧
    commitId = (publishCommit deps config ambient before.store.heads request delta).commitId ∧
    Ledger.Writes (before.ledger.persist (publishCommit deps config ambient before.store.heads request delta)) finish.ledger ∧
    ∃ commit, finish.store.tables.getCommit commitId = some commit

theorem Committed.later {event : Option ClientEvent} {ambient : Ambient} {commitId : String} {middle finish : AppState}
    (committed : Committed deps config event ambient commitId middle) (writes : Ledger.Writes middle.ledger finish.ledger) :
    Committed deps config event ambient commitId finish := by
  obtain ⟨request, delta, before, submitted, given, named, wrote, commit, found⟩ := committed
  exact ⟨request, delta, before, submitted, given, named, wrote.trans writes, commit, writes.keeps_commit found⟩

/-- Every event acts on the ledger by single writes. -/
theorem StreamStep.writes {event : StreamEvent} (step : StreamStep deps config s event t) (sound : s.app.ledger.Sound) :
    Ledger.Writes s.app.ledger t.app.ledger := by
  cases step with
  | @client s t event ambient outcome answered =>
    rcases answer_cases answered with ⟨request, q, _, run, _⟩ | ⟨_, same, _⟩
    · have published : Step deps config s ⟨⟨.publishDelta request, ambient⟩, q.map .publishDelta⟩ t :=
        map_eq_iff.2 ⟨q, run, rfl⟩
      exact published.writes sound.keyed
    · exact same ▸ .refl
  | other step => exact step.writes sound.keyed

/-- A notice for a delta that becomes a commit is true. -/
theorem LastingStep.committed {event : Option ClientEvent} {ambient : Ambient} {commitId deltaId : String}
    (step : LastingStep deps config s (.client event ambient (.ok (.checkpointCommitted commitId deltaId))) t) :
    Committed deps config event ambient commitId t.app := by
  obtain ⟨step, lasting⟩ := step
  cases step with
  | @client s t _ _ _ answered =>
    rcases answer_cases answered with ⟨request, q, submitted, run, same⟩ | ⟨_, _, plain⟩
    · cases q with
      | error error => exact absurd same nofun
      | ok response =>
        obtain ⟨named, _⟩ := ServerEvent.checkpointCommitted.inj (Except.ok.inj same)
        rcases publishDeltaInner_cases run with ⟨_, ⟨_, failed⟩, _⟩ | ⟨delta, admits, away, _⟩ | ⟨delta, admits, _, recorded, answers⟩
        · exact absurd failed nofun
        · exact absurd (lasting request delta submitted admits) away
        · obtain ⟨_, persisted⟩ := recorded.persisted_of_true
          have tables := congrArg Ledger.tables persisted
          have id := named.trans (answers response rfl)
          refine ⟨request, delta, _, submitted, admits.given, id, persisted ▸ .refl, ?_⟩
          rw [id, show t.store.tables = _ from tables]
          exact CommitTables.getCommit_appendCommit_self _ _
    · exact absurd (plain _ rfl) nofun

/-- If every admitted delta on the stream is durable or persisted all the same, each notice names the commit of its
event, which was persisted then and can be got ever after. -/
theorem notices_truthful (reachable : Reachable deps config start)
    (run : Run (LastingStep deps config) ⟨start, true⟩ events finish) :
    ∀ event ambient commitId deltaId, .client event ambient (.ok (.checkpointCommitted commitId deltaId)) ∈ events →
      Committed deps config event ambient commitId finish.app := by
  induction run with
  | nil => exact fun _ _ _ _ absent => absurd absent List.not_mem_nil
  | snoc before step ih =>
    intro event ambient commitId deltaId member
    rename_i earlier middle last label
    have sound : middle.app.ledger.Sound := before.invariant (I := fun state => state.app.ledger.Sound) reachable.sound
      fun _ _ _ sound step => (step.1.writes sound).sound sound
    rcases List.mem_append.mp member with old | only
    · exact (ih event ambient commitId deltaId old).later (step.1.writes sound)
    · obtain rfl := List.mem_singleton.mp only
      exact step.committed

end Runs

section Sample

/-- A publish of a delta that is durable or not -/
private def streamRequest (durable : Bool) : PublishDeltaRequest :=
  { Sample.publishRequest "r" 1 1 [] with
    delta := (Sample.publishRequest "r" 1 1 []).delta.map fun delta => { delta with durable := durable } }

private def calm : Ambient := .calm ⟨1, 0⟩ 1

private def afterCheckpoint (durable : Bool) : AppState :=
  (answer .sample Sample.config calm (some (.checkpoint (streamRequest durable))) .initial).2

private def replyTo (durable : Bool) : Except Error ServerEvent :=
  (answer .sample Sample.config calm (some (.checkpoint (streamRequest durable))) .initial).1

private theorem checkpoint_step (durable : Bool) :
    StreamStep .sample Sample.config ⟨.initial, true⟩ (.client (some (.checkpoint (streamRequest durable))) calm (replyTo durable))
      ⟨afterCheckpoint durable, (replyTo durable).isOk⟩ := .client rfl

/-- A checkpoint event with an ephemeral delta is answered by a notice without an id, and nothing is stored. -/
theorem notice_without_commit :
    StreamStep .sample Sample.config ⟨.initial, true⟩
      (.client (some (.checkpoint (streamRequest false))) calm (.ok (.checkpointCommitted "" "delta")))
      ⟨afterCheckpoint false, true⟩ ∧
    (afterCheckpoint false).store.tables.getCommit "" = none ∧
    (afterCheckpoint false).store.tables.commits.length = 0 := by
  have reply : replyTo false = .ok (.checkpointCommitted "" "delta") := by decide
  have step := checkpoint_step false
  rw [reply] at step
  have empty : (afterCheckpoint false).store.tables.commits.length = 0 := by decide
  refine ⟨step, ?_, empty⟩
  rw [CommitTables.getCommit, List.eq_nil_of_length_eq_zero empty]
  rfl

private def isNotice : Except Error ServerEvent → Bool
  | .ok (.checkpointCommitted _ _) => true
  | _ => false

private theorem isNotice_iff {reply : Except Error ServerEvent} :
    isNotice reply = true ↔ ∃ commitId deltaId, reply = .ok (.checkpointCommitted commitId deltaId) := by
  rcases reply with error | ⟨id, message⟩ | ⟨commitId, deltaId⟩ | ⟨code, message, retryable⟩
  all_goals simp [isNotice]

/-- The notice of a durable checkpoint. -/
theorem notices_truthful_durable :
    ∃ commitId deltaId, replyTo true = .ok (.checkpointCommitted commitId deltaId) ∧
      Committed .sample Sample.config (some (.checkpoint (streamRequest true))) calm commitId (afterCheckpoint true) := by
  have noticed : isNotice (replyTo true) = true := by decide
  obtain ⟨commitId, deltaId, reply⟩ := isNotice_iff.1 noticed
  have step := checkpoint_step true
  rw [reply] at step
  have lasting : StreamEvent.Lasting .sample Sample.config .initial
      (.client (some (.checkpoint (streamRequest true))) calm (.ok (.checkpointCommitted commitId deltaId))) := by
    intro request delta submitted admits
    obtain rfl := Option.some.inj submitted
    obtain rfl := Option.some.inj admits.given
    exact .inl rfl
  exact ⟨commitId, deltaId, reply, notices_truthful (reachable_runCalls _ _ []) (.single ⟨step, lasting⟩) _ _ _ _
    (List.mem_singleton_self _)⟩

end Sample

end AttowNexus
