import AttowNexus.Library.Checks
import AttowNexus.Proofs.Naming
import AttowNexus.Soundness.HttpSessions
import AttowNexus.Soundness.RoundTrip

/-! # What was posted is read back

A checkpoint or an event that the HTTP API acknowledged is shown by `GET /api/commits/:commit_id` as it was sent,
whatever both fronts did in between: with the parents that it got, and with the state as redaction left it, or the
hash and the size of a state above the inline limit.
-/

namespace AttowNexus

open Fallible AppState

/-- The value of a member of an object -/
def Json.member (name : String) (json : Json) : Option Json := json.asObject.bind (JsonMap.get name)

theorem Json.member_ofMembers {name : String} {members : List (String × Json)} (distinct : (members.map (·.1)).Nodup) :
    (Json.ofMembers members).member name = JsonMap.get name members := JsonMap.get_ofMembers distinct

/-- What the detail of a commit shows of the checkpoint that made it -/
structure CheckpointRequest.Shown (request : CheckpointRequest) (parents : List String) (state detail : Json) : Prop where
  agentId : detail.member "agentId" = some (.string request.agentId)
  runId : detail.member "runId" = some (.string request.runId)
  threadId : detail.member "threadId" = some (.string request.threadId)
  channel : detail.member "channel" = some (.string request.channel)
  objective : detail.member "objective" = some (.string request.objective)
  summary : detail.member "summary" = some (.string request.summary)
  tags : detail.member "tags" = some (.strings request.tags)
  parentCommitIds : detail.member "parentCommitIds" = some (.strings parents)
  sideEffectCount : detail.member "sideEffectCount" = some (.ofNat request.externalSideEffects.length)
  stateDelta : detail.member "stateDelta" = some state

section Detail

variable {deps : External} {config : Config} {ambient : Ambient} {heads : List HeadRow} {request : CheckpointRequest}
  {state : JsonValue}

/-- The state as the commit shows it -/
def shownState (deps : External) (config : Config) (state : JsonValue) : Json :=
  let kept := afterRedaction deps config (payloadFromJson deps state.1)
  if kept.data.length ≤ config.maxInlinePayloadBytes then (redactedValue deps config state).1 else hashSummary kept

theorem detail_distinct (commit : Commit) :
    ((summaryMembers commit ++ detailMembers deps commit).map (·.1)).Nodup := by
  have names : (summaryMembers commit ++ detailMembers deps commit).map (·.1) =
      ["commitId", "deltaId", "runId", "threadId", "agentId", "channel", "logicalClock", "wallTime", "summary", "tags",
        "parentCommitIds", "sideEffectCount", "objective", "stateDelta", "toolCalls", "toolResults", "artifacts",
        "externalSideEffects"] := rfl
  rw [names]
  decide

theorem shown_checkpointCommit (given : request.payload = some (payloadFromJson deps state.1))
    (prints : deps.Prints state) (printsRedacted : deps.Prints (redactedValue deps config state))
    (empty : deps.fromSlice [] = none) :
    request.Shown (parentsFor heads request.lineage request.parentCommitIds) (shownState deps config state)
      (commitDetail deps (checkpointCommit deps config ambient heads request)) := by
  have delta : payloadToJson deps (checkpointCommit deps config ambient heads request).stateDelta =
      shownState deps config state := by
    rw [stateDelta_checkpointCommit, given, Option.getD_some]
    exact payloadToJson_storedPayload rfl prints printsRedacted empty
  have shows_ : ∀ name, (commitDetail deps (checkpointCommit deps config ambient heads request)).member name =
      JsonMap.get name (summaryMembers _ ++ detailMembers deps _) := fun name => Json.member_ofMembers (detail_distinct _)
  refine ⟨shows_ _, shows_ _, shows_ _, shows_ _, shows_ _, shows_ _, shows_ _, shows_ _, shows_ _, ?_⟩
  rw [shows_, ← delta]
  rfl

end Detail

section Names

variable {deps : External} {config : Config} {ambient : Ambient} {s : AppState} {request : CheckpointRequest}

/-- Without collisions the id of a checkpoint's commit is its own. -/
theorem freshId_of_collisionFree (reachable : Reachable deps config s)
    (free : CollisionFree deps (checkpointCommit deps config ambient s.store.heads request :: s.store.tables.stored)) :
    FreshId deps config ambient s request := by
  intro other found
  obtain ⟨member, same⟩ := reachable.keyed.getCommit_eq_some_iff.mp found
  exact free.eq_of_commitId_eq (List.mem_cons_of_mem _ member) List.mem_cons_self (reachable.sealed member)
    fromDelta_sealed same

end Names

namespace Session

variable {deps : External} {config : AuthConfig} {s t u : AppState} {visits later : List Visit} {post read : HttpCall}
  {answer : Json} {commitId : String} {request : CheckpointRequest} {state : JsonValue}

/-- A request that was answered well carried the token. -/
theorem token_of_step (posted : Visit.Step deps config s (.http post (.ok answer)) t) :
    validateHttp post.headers config = .ok () := by
  have run : Api.handle deps config post s = (.ok answer, t) := posted
  cases token : validateHttp post.headers config with
  | ok => rfl
  | error refusal =>
    obtain ⟨error, same⟩ := Api.handle_unauthorized token
    rw [same] at run
    cases (Prod.mk.inj run).1

/-- The call behind it, with its response -/
theorem outcome_of_step {inner : Call} (asks : post.operation deps config = some inner)
    (posted : Visit.Step deps config s (.http post (.ok answer)) t) :
    ∃ response, Step deps config.toConfig s ⟨inner, .ok response⟩ t ∧ answer = response.toJson := by
  have run : Api.handle deps config post s = (.ok answer, t) := posted
  rcases Api.handle_cases deps config post with ⟨idle, _⟩ | ⟨other, same, answers⟩
  · rw [asks] at idle
    cases idle
  · obtain rfl := Option.some.inj (asks.symm.trans same)
    rw [answers] at run
    obtain ⟨answered, rfl⟩ := Prod.mk.inj run
    cases outcome : (exec deps config.toConfig inner s).1 with
    | error error =>
      rw [outcome] at answered
      cases answered
    | ok response =>
      rw [outcome] at answered
      exact ⟨response, Prod.ext outcome rfl, (Except.ok.inj answered).symm⟩

/-- A commit that is stored is shown to everyone with the token. -/
theorem read_commit {commit : Commit} (found : s.store.tables.getCommit commitId = some commit)
    (asked : read.request = .commit commitId) (token : validateHttp read.headers config = .ok ()) :
    Api.handle deps config read s = (.ok (commitDetail deps commit), s) := by
  have inner : Api.getCommitInner commitId s = .ok commit := by
    rw [Api.getCommitInner, found]
    rfl
  rw [Api.handle, asked]
  exact Api.got_of_ok token inner

/-- A checkpoint that was acknowledged is read back by the name in the answer. -/
theorem checkpoint_read_back (before : Session deps config visits s)
    (asks : post.operation deps config = some ⟨.checkpoint request, post.ambient.ambient⟩)
    (posted : Visit.Step deps config s (.http post (.ok answer)) t) (run : Run (Visit.Step deps config) t later u)
    (free : CollisionFree deps
      (checkpointCommit deps config.toConfig post.ambient.ambient s.store.heads request :: s.store.tables.stored)) :
    ∃ commitId, answer.member "commitId" = some (.string commitId) ∧
      ∀ read : HttpCall, read.request = .commit commitId → validateHttp read.headers config = .ok () →
        Api.handle deps config read u =
          (.ok (commitDetail deps (checkpointCommit deps config.toConfig post.ambient.ambient s.store.heads request)), u) := by
  obtain ⟨response, step, rfl⟩ := outcome_of_step asks posted
  obtain ⟨outcome, ran, same⟩ := step_checkpoint step
  cases outcome with
  | error error => cases same
  | ok response =>
    obtain rfl := Except.ok.inj same
    have stored := getCommit_of_checkpoint ran (freshId_of_collisionFree before.reachable free)
    obtain ⟨trace, _, events⟩ := events_of_visits run
    have kept := (writes_of_run events (before.reachable.step step).sound).grows.keeps stored
    exact ⟨response.commitId, Json.member_ofMembers (by simp), fun read asked token => read_commit kept asked token⟩

/-- What `serde_json` does with the two values that come up -/
structure Serde (deps : External) (config : Config) (state : JsonValue) : Prop where
  prints : deps.Prints state
  printsRedacted : deps.Prints (redactedValue deps config state)
  empty : deps.fromSlice [] = none

/-- An acknowledged `POST /api/checkpoint` is read back by its name after any requests of both fronts. -/
theorem posted_checkpoint_read_back {json : Json} {body : CheckpointBody} (before : Session deps config visits s)
    (asks : post.request = .checkpoint json) (decodes : CheckpointBody.fromJson json = some body)
    (sent : body.state = state.1) (posted : Visit.Step deps config s (.http post (.ok answer)) t)
    (run : Run (Visit.Step deps config) t later u)
    (free : CollisionFree deps (checkpointCommit deps config.toConfig post.ambient.ambient s.store.heads
      (body.request deps post.ambient) :: s.store.tables.stored))
    (serde : Serde deps config.toConfig state) :
    ∃ commitId, answer.member "commitId" = some (.string commitId) ∧
      ∀ read : HttpCall, read.request = .commit commitId → validateHttp read.headers config = .ok () →
        ∃ detail, Api.handle deps config read u = (.ok detail, u) ∧
          (body.request deps post.ambient).Shown
            (parentsFor s.store.heads (body.request deps post.ambient).lineage body.parentCommitIds)
            (shownState deps config.toConfig state) detail := by
  have operation : post.operation deps config =
      some ⟨.checkpoint (body.request deps post.ambient), post.ambient.ambient⟩ := by
    rw [HttpCall.operation, token_of_step posted, asks, HttpRequest.operation, decodes]
    rfl
  have given : (body.request deps post.ambient).payload = some (payloadFromJson deps state.1) := by
    rw [← sent]
    rfl
  obtain ⟨commitId, named, shown⟩ := checkpoint_read_back before operation posted run free
  exact ⟨commitId, named, fun read asked token => ⟨_, shown read asked token,
    shown_checkpointCommit given serde.prints serde.printsRedacted serde.empty⟩⟩

section Sample

private def tokened : AuthConfig := { Sample.config with requireAuth := true, authToken := some "token" }

/-- A request with the token, in the given second -/
private def asking (seconds : ℕ) (request : HttpRequest) : HttpCall :=
  ⟨[("authorization", utf8Bytes "Bearer token")], request,
    ⟨.calm ⟨seconds, 0⟩ seconds, id, fun _ => 0, fun _ => ⟨seconds, 0⟩, fun _ => "disk full"⟩⟩

private theorem sorted_one : (Json.object [("a", .number (.posInt 1))]).Sorted :=
  ⟨List.pairwise_singleton _ _, trivial, trivial⟩

private def one : JsonValue := ⟨.object [("a", .number (.posInt 1))], sorted_one⟩

private def oneBody : Json := .object [("agent_id", .string "a"), ("channel", .string "state.updates"),
  ("run_id", .string "r"), ("state", one.1), ("tags", .array [.string "t"])]

private def oneDecoded : CheckpointBody :=
  ⟨"a", "r", none, "state.updates", one.1, none, none, ["t"], [], [], none⟩

private def grantAll : HttpCall := asking 1 (.registerAgent (.object [("agent_id", .string "a"), ("run_id", .string "r")]))

private def afterGrant : AppState := (Api.handle .sample tokened grantAll .initial).2

private def postOne (seconds : ℕ) : HttpCall := asking seconds (.checkpoint oneBody)

private def afterPost : AppState := (Api.handle .sample tokened (postOne 2) afterGrant).2

/-- The state is read back after a second checkpoint. -/
theorem posted_checkpoint_read_back_one : ∃ commitId detail,
    (Api.handle .sample tokened (asking 4 (.commit commitId)) (Api.handle .sample tokened (postOne 3) afterPost).2).1 =
      .ok detail ∧ detail.member "stateDelta" = some one.1 ∧ detail.member "tags" = some (.strings ["t"]) := by
  have before : Session .sample tokened [.http grantAll (Api.handle .sample tokened grantAll .initial).1] afterGrant :=
    .single rfl
  obtain ⟨answer, answered⟩ : ∃ answer, Api.handle .sample tokened (postOne 2) afterGrant = (.ok answer, afterPost) :=
    Fallible.exists_ok (by decide)
  have later : Run (Visit.Step .sample tokened) afterPost
      [.http (postOne 3) (Api.handle .sample tokened (postOne 3) afterPost).1]
      (Api.handle .sample tokened (postOne 3) afterPost).2 := .single rfl
  have decodes : CheckpointBody.fromJson oneBody = some oneDecoded := rfl
  have serde : Serde .sample tokened.toConfig one := ⟨rfl, rfl, rfl⟩
  obtain ⟨commitId, _, shown⟩ := posted_checkpoint_read_back before rfl decodes rfl answered later
    (collisionFree_of_nodup (List.nodup_singleton _)) serde
  obtain ⟨detail, read, fields⟩ := shown (asking 4 (.commit commitId)) rfl rfl
  exact ⟨commitId, detail, congrArg Prod.fst read, fields.stateDelta, fields.tags⟩

end Sample

/-- An acknowledged `POST /api/events` is read back as the event that was posted. -/
theorem posted_event_read_back {body : UniversalEventBody} (before : Session deps config visits s)
    (asks : post.request = .universalEvent state.1) (accepted : UniversalEventBody.tryFromValue state.1 = .ok body)
    (posted : Visit.Step deps config s (.http post (.ok answer)) t) (run : Run (Visit.Step deps config) t later u)
    (free : CollisionFree deps (checkpointCommit deps config.toConfig post.ambient.ambient s.store.heads
      (body.request deps state.1) :: s.store.tables.stored))
    (serde : Serde deps config.toConfig state) :
    ∃ commitId, answer.member "commitId" = some (.string commitId) ∧
      ∀ read : HttpCall, read.request = .commit commitId → validateHttp read.headers config = .ok () →
        ∃ detail, Api.handle deps config read u = (.ok detail, u) ∧
          (body.request deps state.1).Shown
            (parentsFor s.store.heads (body.request deps state.1).lineage body.parentCommitIds)
            (shownState deps config.toConfig state) detail := by
  have operation : post.operation deps config =
      some ⟨.checkpoint (body.request deps state.1), post.ambient.ambient⟩ := by
    rw [HttpCall.operation, token_of_step posted, asks, HttpRequest.operation, accepted]
    rfl
  obtain ⟨commitId, named, shown⟩ := checkpoint_read_back before operation posted run free
  exact ⟨commitId, named, fun read asked token => ⟨_, shown read asked token,
    shown_checkpointCommit rfl serde.prints serde.printsRedacted serde.empty⟩⟩

section Sample

private theorem step_handle (call : HttpCall) (s : AppState) :
    Visit.Step deps config s (.http call (Api.handle deps config call s).1) (Api.handle deps config call s).2 := rfl

private def event : JsonValue :=
  ⟨.ofMembers [("schema_version", .string "nexus.universal.v1"), ("event_id", .string "e"), ("run_id", .string "r"),
      ("thread_id", .string "t"), ("agent_id", .string "a"), ("framework", .string "custom"),
      ("event_type", .string "custom"), ("channel", .string "topic:x"), ("timestamp_ms", .number (.posInt 1))],
    Json.ofMembers_sorted ⟨trivial, trivial, trivial, trivial, trivial, trivial, trivial, trivial, trivial, trivial⟩⟩

/-- The sample functions with a parser of the event -/
private def reading : External := Sample.knowing [event]

private def eventGrant : AppState := (Api.handle reading tokened grantAll .initial).2

private def eventPost (seconds : ℕ) : HttpCall := asking seconds (.universalEvent event.1)

private def eventPosted : AppState := (Api.handle reading tokened (eventPost 2) eventGrant).2

private theorem serde_event : Serde reading tokened.toConfig event := by
  have prints : reading.Prints event := Sample.knowing_prints [] [] rfl
  have same : redactedValue reading tokened.toConfig event = event := Subtype.ext rfl
  exact ⟨prints, same.symm ▸ prints, Sample.knowing_empty (by decide +kernel)⟩

/-- The event is read back after it was posted a second time. -/
theorem posted_event_read_back_after_next : ∃ commitId detail,
    (Api.handle reading tokened (asking 4 (.commit commitId)) (Api.handle reading tokened (eventPost 3) eventPosted).2).1 =
        .ok detail ∧ detail.member "stateDelta" = some (shownState reading tokened.toConfig event) := by
  have before : Session reading tokened [.http grantAll (Api.handle reading tokened grantAll .initial).1] eventGrant :=
    .single (step_handle _ _)
  obtain ⟨body, accepted⟩ : ∃ body, UniversalEventBody.tryFromValue event.1 = .ok body :=
    Checks.exists_eq_ok (by decide +kernel)
  obtain ⟨answer, answered⟩ : ∃ answer, Api.handle reading tokened (eventPost 2) eventGrant = (.ok answer, eventPosted) :=
    Fallible.exists_ok (by decide +kernel)
  have later : Run (Visit.Step reading tokened) eventPosted
      [.http (eventPost 3) (Api.handle reading tokened (eventPost 3) eventPosted).1]
      (Api.handle reading tokened (eventPost 3) eventPosted).2 := .single (step_handle _ _)
  obtain ⟨commitId, _, shown⟩ := posted_event_read_back before rfl accepted answered later
    (collisionFree_of_nodup (List.nodup_singleton _)) serde_event
  obtain ⟨detail, read, fields⟩ := shown (asking 4 (.commit commitId)) rfl rfl
  exact ⟨commitId, detail, congrArg Prod.fst read, fields.stateDelta⟩

end Sample

end Session

end AttowNexus
