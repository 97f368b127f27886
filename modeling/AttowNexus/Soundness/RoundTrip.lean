import AttowNexus.Proofs.Replay
import AttowNexus.Proofs.History
import AttowNexus.Proofs.Payload

/-! # A checkpoint and its replay

Up to the size limit the redacted JSON is stored inline, and replaying the commit merges it into the
empty object. Above the limit the data goes into an artifact that no replay reads: the stored payload is
empty, its stand-in is the object of hash and size, and no warning mentions the artifact.
-/

namespace AttowNexus

open AppState

variable {deps : External} {config : Config} {ambient : Ambient} {s t : AppState} {payload : Payload}

/-- The payload is a JSON object. -/
structure JsonObject (deps : External) (payload : Payload) (value : JsonValue) : Prop where
  encoded : payload.encoding = PayloadEncoding.json.toI32
  parsed : deps.fromSlice payload.data = some value
  object : ∃ members, value.1 = .object members

/-- The stand-in for data that does not parse, as a value. -/
def summaryValue (payload : Payload) : JsonValue :=
  ⟨hashSummary payload, by
    rw [hashSummary_eq]
    have ordered : "content_hash" < "size_bytes" := by decide
    exact ⟨List.pairwise_pair.mpr ordered, trivial, trivial, trivial⟩⟩

theorem storedPayload_moved (large : config.maxInlinePayloadBytes < (afterRedaction deps config payload).data.length) :
    storedPayload deps config payload = movedPayload (afterRedaction deps config payload)
      (SqliteStore.artifactRef deps config (afterRedaction deps config payload).data "application/octet-stream") := by
  rw [storedPayload, preparedPayload]
  rw [afterRedaction] at large ⊢
  generalize redactedPayload deps config (some payload) = redacted at *
  obtain ⟨kept, report⟩ := redacted
  simp only [if_pos large]

/-- Moved data leaves its hash and its size, so the summary is the same. -/
theorem hashSummary_movedPayload {bytes : Bytes} {mediaType : String} (sized : payload.sizeBytes = bytes.length) :
    hashSummary (movedPayload payload (SqliteStore.artifactRef deps config bytes mediaType)) = hashSummary payload := by
  simp only [hashSummary, movedPayload, SqliteStore.artifactRef, sized]

/-- The JSON of the stored payload: the redacted value, or the summary of what was moved. -/
theorem payloadToJson_storedPayload {value : JsonValue} (encoded : payload.encoding = PayloadEncoding.json.toI32)
    (given : deps.fromSlice payload.data = some value) (prints : deps.Prints (redactedValue deps config value))
    (empty : deps.fromSlice [] = none) : payloadToJson deps (some (storedPayload deps config payload)) =
      if (afterRedaction deps config payload).data.length ≤ config.maxInlinePayloadBytes then
        (redactedValue deps config value).1
      else hashSummary (afterRedaction deps config payload) := by
  obtain ⟨encoding, parsed, sized⟩ := afterRedaction_json encoded given prints
  split
  · next small =>
    rw [storedPayload_inline small]
    exact payloadToJson_json encoding parsed
  · next large =>
    rw [storedPayload_moved (not_le.mp large), ← hashSummary_movedPayload sized]
    exact payloadToJson_unparsed encoding empty

/-- The state comes back as the value, or a warning names the artifact that it went into. -/
def RoundTrips (deps : External) (value : JsonValue) (stored : Payload) (result : ReplayResult) : Prop :=
  payloadToJson deps result.reconstructedState = value.1 ∨
    ∃ warning ∈ result.missingArtifactWarnings, stored.artifactRef.toList <:+: warning.toList

/-- The ancestry of a commit without parents is the commit. -/
theorem ancestryCommits_root {tables : CommitTables} {commitId : String} {commit : Commit}
    (found : tables.getCommit commitId = some commit) (root : commit.parentCommitIds = []) :
    ancestryCommits tables commitId = .ok [commit] := by
  simp only [ancestryCommits, collect, found, root, List.foldlM_nil]
  rfl

/-- Merging one object into the empty object gives its members. -/
theorem mergeStates_single {commit : Commit} {value : JsonValue} (object : ∃ members, value.1 = .object members)
    (delta : payloadToJson deps commit.stateDelta = value.1) : mergeStates deps (sortForReplay [commit]) = value.1 := by
  obtain ⟨members, shape⟩ := object
  have sorted : (Json.object members).Sorted := shape ▸ value.2
  rw [sortForReplay, List.insertionSort_cons, List.insertionSort_nil, List.orderedInsert_nil, mergeStates,
    List.foldl_cons, List.foldl_nil, delta, shape]
  exact mergeValue_empty sorted.1

theorem redactedValue_object {value : JsonValue} (object : ∃ members, value.1 = .object members) :
    ∃ members, (redactedValue deps config value).1 = .object members := by
  rw [redactedValue]
  split
  · obtain ⟨members, shape⟩ := object
    exact ⟨(redactJsonObject deps members "$").1, by simp only [shape, redactJson]⟩
  · exact object

/-- Replaying a stored root whose delta is an object gives that object. -/
theorem replay_root (value : JsonValue) {tables : CommitTables} {commit : Commit} {request : ReplayRequest}
    (found : tables.getCommit request.commitId = some commit) (root : commit.parentCommitIds = [])
    (confirmed : request.Confirmed) (object : ∃ members, value.1 = .object members)
    (delta : payloadToJson deps commit.stateDelta = value.1) (prints : deps.Prints value) :
    ∃ result, replay deps tables request = .ok result ∧
      payloadToJson deps result.reconstructedState = value.1 ∧ result.missingArtifactWarnings = [] := by
  obtain ⟨result, run, _, state, silent⟩ : ∃ result, replay deps tables request = .ok result ∧ _ :=
    replay_of_ancestry confirmed (ancestryCommits_root found root)
  refine ⟨result, run, ?_, silent⟩
  rw [state, mergeStates_single object delta]
  exact payloadToJson_json rfl prints

section Checkpoints

variable {request : CheckpointRequest} {response : CheckpointResponse} {value : JsonValue}
  {replayRequest : ReplayRequest}

/-- The id of the checkpoint's commit belongs to no other stored commit. -/
def FreshId (deps : External) (config : Config) (ambient : Ambient) (s : AppState)
    (request : CheckpointRequest) : Prop :=
  ∀ other, s.store.tables.getCommit (checkpointCommit deps config ambient s.store.heads request).commitId = some other →
    other = checkpointCommit deps config ambient s.store.heads request

/-- The commit of a successful checkpoint is stored under the returned id. -/
theorem getCommit_of_checkpoint (run : checkpointInner deps config ambient request s = (.ok response, t))
    (fresh : FreshId deps config ambient s request) :
    t.store.tables.getCommit response.commitId =
      some (checkpointCommit deps config ambient s.store.heads request) := by
  rcases checkpointInner_cases run with ⟨_, ⟨_, failed⟩, _⟩ | ⟨_, recorded, answer⟩
  · exact absurd failed nofun
  · rw [FreshId] at fresh
    generalize checkpointCommit deps config ambient s.store.heads request = commit at *
    have finish : t.ledger = s.ledger.persist commit := recorded.persisted_of_true.2
    have tables : t.store.tables = s.store.tables.appendCommit commit := congrArg Ledger.tables finish
    rw [tables, answer response rfl, CommitTables.getCommit_appendCommit, if_pos rfl]
    cases found : s.store.tables.getCommit commit.commitId with
    | none => rfl
    | some other => rw [fresh other found]; rfl

/-- A checkpoint without parents, of a JSON object, and a replay of its commit. -/
structure Replayed (deps : External) (config : Config) (ambient : Ambient) (s t : AppState)
    (request : CheckpointRequest) (response : CheckpointResponse) (payload : Payload) (value : JsonValue)
    (replayRequest : ReplayRequest) : Prop where
  given : request.payload = some payload
  object : JsonObject deps payload value
  run : checkpointInner deps config ambient request s = (.ok response, t)
  root : (checkpointCommit deps config ambient s.store.heads request).parentCommitIds = []
  fresh : FreshId deps config ambient s request
  of : replayRequest.commitId = response.commitId
  stateOnly : replayRequest.mode = ReplayMode.stateOnly.toI32

/-- What the round trip relies on in `serde_json`, for the two values that can come up. -/
structure SerdeJson (deps : External) (config : Config) (payload : Payload) (value : JsonValue) : Prop where
  prints : deps.Prints (redactedValue deps config value)
  printsSummary : deps.Prints (summaryValue (afterRedaction deps config payload))
  empty : deps.fromSlice [] = none

/-- Replaying a checkpoint gives the redacted value, or the summary of the data that was moved. -/
theorem replay_checkpoint (replayed : Replayed deps config ambient s t request response payload value replayRequest)
    (serde : SerdeJson deps config payload value) :
    ∃ result, replay deps t.store.tables replayRequest = .ok result ∧
      payloadToJson deps result.reconstructedState =
        (if (afterRedaction deps config payload).data.length ≤ config.maxInlinePayloadBytes then
          (redactedValue deps config value).1
        else hashSummary (afterRedaction deps config payload)) ∧
      result.missingArtifactWarnings = [] := by
  have found := getCommit_of_checkpoint replayed.run replayed.fresh
  rw [← replayed.of] at found
  have delta := payloadToJson_storedPayload replayed.object.encoded replayed.object.parsed serde.prints serde.empty
  have stored : (checkpointCommit deps config ambient s.store.heads request).stateDelta =
      some (storedPayload deps config payload) := by
    rw [stateDelta_checkpointCommit, replayed.given, Option.getD_some]
  rw [← stored] at delta
  have confirmed := replayRequest.confirmed_stateOnly replayed.stateOnly
  split at delta
  · next small =>
    rw [if_pos small]
    exact replay_root _ found replayed.root confirmed (redactedValue_object replayed.object.object) delta serde.prints
  · next large =>
    rw [if_neg large]
    exact replay_root (summaryValue _) found replayed.root confirmed ⟨_, hashSummary_eq _⟩ delta
      serde.printsSummary

/-- Replaying a checkpoint without parents returns the redacted payload exactly when that fits the inline
limit, or happens to be the object of its own hash and size. -/
theorem checkpoint_roundTrips_iff
    (replayed : Replayed deps config ambient s t request response payload value replayRequest)
    (serde : SerdeJson deps config payload value) :
    ∃ result, replay deps t.store.tables replayRequest = .ok result ∧
      (RoundTrips deps (redactedValue deps config value) (storedPayload deps config payload) result ↔
        (afterRedaction deps config payload).data.length ≤ config.maxInlinePayloadBytes ∨
          (redactedValue deps config value).1 = hashSummary (afterRedaction deps config payload)) := by
  obtain ⟨result, run, state, silent⟩ := replay_checkpoint replayed serde
  refine ⟨result, run, ?_⟩
  have unwarned : ¬ ∃ warning ∈ result.missingArtifactWarnings,
      (storedPayload deps config payload).artifactRef.toList <:+: warning.toList := by
    rw [silent]
    rintro ⟨_, member, _⟩
    exact absurd member List.not_mem_nil
  rw [RoundTrips, or_iff_left unwarned, state]
  split
  · next small => exact iff_of_true rfl (.inl small)
  · next large => rw [or_iff_right large, eq_comm]

end Checkpoints

section Sizes

/-- An object with a number under the given name -/
private def numbered (name : String) (value : Json) (later : "a" < name) (sorted : value.Sorted) : JsonValue :=
  ⟨.object [("a", .number (.posInt 1)), (name, value)],
    ⟨List.pairwise_cons.mpr ⟨fun _ member => List.mem_singleton.mp member ▸ later, List.pairwise_singleton _ _⟩,
      trivial, sorted, trivial⟩⟩

private def withPassword : JsonValue := numbered "password" (.number (.posInt 23)) (by decide) trivial

private def withoutPassword : JsonValue := numbered "password" (.string redactionMarker) (by decide) trivial

/-- The object as a payload, with a hash of the client's -/
private def submission : Payload :=
  ⟨PayloadEncoding.json.toI32, utf8Bytes (Sample.render withPassword.1), none, 0, "hash", false, ""⟩

/-- What redaction makes of the payload -/
private def redactedSubmission : Payload :=
  let data := utf8Bytes (Sample.render withoutPassword.1)
  { submission with data := data, sizeBytes := data.length, contentHash := External.sample.blake3Hex data }

/-- A parser that knows the object, what redaction makes of it, and the summary of that -/
private def parsing : External := Sample.knowing [withPassword, withoutPassword, summaryValue redactedSubmission]

private def limitedTo (limit : ℕ) : Config := { Sample.config with maxInlinePayloadBytes := limit }

private def rootRequest : CheckpointRequest :=
  { Sample.checkpointRequest "r" [] [] with payload := some submission }

private theorem prints_withPassword : parsing.Prints withPassword := Sample.knowing_prints [] _ rfl

private theorem redactedValue_withPassword (limit : ℕ) :
    redactedValue parsing (limitedTo limit) withPassword = withoutPassword := Subtype.ext rfl

private theorem afterRedaction_submission (limit : ℕ) :
    afterRedaction parsing (limitedTo limit) submission = redactedSubmission := by
  have parsed : parsing.fromSlice submission.data = some withPassword := prints_withPassword
  have data : (redactData parsing { submission with sizeBytes := submission.data.length }).1 = _ := redactData_json rfl parsed
  exact data

private theorem serdeJson_parsing (limit : ℕ) : SerdeJson parsing (limitedTo limit) submission withPassword where
  prints := redactedValue_withPassword limit ▸ Sample.knowing_prints [withPassword] _ (by decide +kernel)
  printsSummary := afterRedaction_submission limit ▸ Sample.knowing_prints [withPassword, withoutPassword] _ (by decide +kernel)
  empty := Sample.knowing_empty (by decide +kernel)

/-- A checkpoint on an empty database and the replay of its commit. -/
private theorem replayed_root (limit : ℕ) (works : (checkpointInner parsing (limitedTo limit) (.calm ⟨1, 0⟩ 1)
    rootRequest .initial).1.isOk = true) : ∃ response t, Replayed parsing (limitedTo limit) (.calm ⟨1, 0⟩ 1)
      .initial t rootRequest response submission withPassword ⟨response.commitId, ReplayMode.stateOnly.toI32, false⟩ := by
  obtain ⟨response, run⟩ := Fallible.exists_ok works
  have none : ∀ commitId, AppState.initial.store.tables.getCommit commitId = none := fun _ => rfl
  have fresh : FreshId parsing (limitedTo limit) (.calm ⟨1, 0⟩ 1) .initial rootRequest :=
    fun _ found => absurd (found.symm.trans (none _)) nofun
  exact ⟨response, _, rfl, ⟨rfl, prints_withPassword, _, rfl⟩, run, rfl, fresh, rfl, rfl⟩

theorem checkpoint_roundTrips_inline : ∃ response t,
    Replayed parsing (limitedTo 65536) (.calm ⟨1, 0⟩ 1) .initial t rootRequest response submission withPassword
        ⟨response.commitId, ReplayMode.stateOnly.toI32, false⟩ ∧
      ∃ result, replay parsing t.store.tables ⟨response.commitId, ReplayMode.stateOnly.toI32, false⟩ = .ok result ∧
        RoundTrips parsing withoutPassword (storedPayload parsing (limitedTo 65536) submission) result := by
  obtain ⟨response, t, replayed⟩ := replayed_root 65536 (by decide)
  obtain ⟨result, run, exactly⟩ := checkpoint_roundTrips_iff replayed (serdeJson_parsing _)
  exact ⟨response, t, replayed, result, run, exactly.mpr (.inl (by rw [afterRedaction_submission]; decide))⟩

/-- The redacted object is longer than one byte, and comes back as its hash and size. -/
theorem checkpoint_roundTrips_fails_moved :
    ¬ ∀ (deps : External) (config : Config) (ambient : Ambient) (s t : AppState) (request : CheckpointRequest)
      (response : CheckpointResponse) (payload : Payload) (value : JsonValue) (replayRequest : ReplayRequest)
      (result : ReplayResult), Reachable deps config s →
      Replayed deps config ambient s t request response payload value replayRequest →
      SerdeJson deps config payload value → (∀ data, deps.decodeAll (deps.encodeAll data) = some data) →
      replay deps t.store.tables replayRequest = .ok result →
      RoundTrips deps (redactedValue deps config value) (storedPayload deps config payload) result := by
  intro claim
  obtain ⟨response, t, replayed⟩ := replayed_root 1 (by decide)
  obtain ⟨result, run, state, silent⟩ := replay_checkpoint replayed (serdeJson_parsing _)
  have roundTrips := claim _ _ _ _ _ _ _ _ _ _ result (reachable_runCalls _ _ []) replayed (serdeJson_parsing _)
    (fun _ => rfl) run
  rw [afterRedaction_submission] at state
  have long : ¬ redactedSubmission.data.length ≤ (limitedTo 1).maxInlinePayloadBytes := by decide
  rcases roundTrips with same | ⟨_, member, _⟩
  · rw [state, if_neg long, hashSummary_eq] at same
    obtain ⟨first, _⟩ := List.cons.inj (Json.object.inj same)
    exact absurd (Prod.mk.inj first).1 (by decide)
  · rw [silent] at member
    exact absurd member List.not_mem_nil

end Sizes

end AttowNexus
