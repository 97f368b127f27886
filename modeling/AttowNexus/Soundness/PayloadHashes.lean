import AttowNexus.Proofs.Frame
import AttowNexus.Proofs.Naming

/-! # Hashes of stored payloads

A payload comes with a hash or gets one, redaction replaces it where it rewrites the data, and the data may move to
an artifact. The hash that is stored is that of the bytes that are kept, or else it is the client's own for
bytes that redaction does not look into.
-/

namespace AttowNexus

open Fallible AppState SqliteStore

variable {deps : External} {config : Config} {s t : AppState} {given : Payload}

/-- The bytes of a stored payload: its data, or those of its artifact if it has no data. -/
def Payload.kept (deps : External) (store : SqliteStore) (payload : Payload) : Except ReadError (Option Bytes) :=
  if payload.artifactRef = "" ∨ payload.data ≠ [] then .ok (some payload.data)
  else getArtifact deps store payload.artifactRef

/-- Data that redaction can look into: JSON that parses, and text in UTF-8. -/
def legible (deps : External) (payload : Payload) : Bool :=
  match (PayloadEncoding.tryFrom payload.encoding).getD .unspecified with
  | .json => (deps.fromSlice payload.data).isSome
  | .text => (fromUtf8 payload.data).isSome
  | _ => false

/-- Redaction is on and replaces the data. -/
def rewrites (deps : External) (config : Config) (given : Payload) : Bool :=
  config.redactionEnabled && legible deps given

/-- The hash that is stored with the bytes. -/
def hashFor (deps : External) (config : Config) (given : Payload) (bytes : Bytes) : String :=
  if given.contentHash ≠ "" ∧ rewrites deps config given = false then given.contentHash else deps.blake3Hex bytes

/-- The reference is the client's own and comes without data. -/
def Foreign (given stored : Payload) : Prop :=
  given.artifactRef ≠ "" ∧ stored.artifactRef = given.artifactRef ∧ stored.data = []

section Redaction

/-- Redaction gives legible data its hash and leaves other data alone. -/
theorem redactData_cases (deps : External) (payload : Payload) :
    (legible deps payload = true ∧ ∃ data, (redactData deps payload).1 = payload.withData deps data) ∨
      (legible deps payload = false ∧ (redactData deps payload).1 = payload) := by
  rw [redactData, legible]
  generalize (PayloadEncoding.tryFrom payload.encoding).getD .unspecified = kind
  cases kind with
  | json =>
    cases parsed : deps.fromSlice payload.data with
    | none => exact .inr ⟨rfl, rfl⟩
    | some json => exact .inl ⟨rfl, _, rfl⟩
  | text =>
    cases decoded : fromUtf8 payload.data with
    | none => exact .inr ⟨rfl, rfl⟩
    | some text => exact .inl ⟨rfl, _, rfl⟩
  | unspecified => exact .inr ⟨rfl, rfl⟩
  | msgpack => exact .inr ⟨rfl, rfl⟩
  | cbor => exact .inr ⟨rfl, rfl⟩
  | protobufStruct => exact .inr ⟨rfl, rfl⟩
  | bytes => exact .inr ⟨rfl, rfl⟩

/-- What `prepare_payload` fills in before the redaction. -/
def filledIn (deps : External) (given : Payload) : Payload :=
  { given with
    contentHash := if given.contentHash = "" then deps.blake3Hex given.data else given.contentHash
    sizeBytes := given.data.length }

theorem filledIn_contentHash (unread : rewrites deps config given = false) :
    (filledIn deps given).contentHash = hashFor deps config given given.data := by
  rw [hashFor, unread]
  by_cases own : given.contentHash = "" <;> simp [filledIn, own]

/-- After redaction the payload has its hash, and the reference it came with. -/
theorem redactedPayload_hash (deps : External) (config : Config) (given : Payload) :
    (redactedPayload deps config (some given)).1.contentHash = hashFor deps config given (redactedBytes deps config given) ∧
      (redactedPayload deps config (some given)).1.artifactRef = given.artifactRef := by
  rw [redactedBytes]
  cases enabled : config.redactionEnabled with
  | false =>
    have unread : rewrites deps config given = false := by rw [rewrites, enabled, Bool.false_and]
    have same : (redactedPayload deps config (some given)).1 = filledIn deps given := by
      simp only [redactedPayload, enabled, Option.getD_some, Bool.false_eq_true, if_false, filledIn]
    rw [same]
    exact ⟨filledIn_contentHash unread, rfl⟩
  | true =>
    obtain ⟨structData, same⟩ : ∃ structData, (redactedPayload deps config (some given)).1 =
        (redactData deps { filledIn deps given with structData := structData }).1 := by
      simp only [redactedPayload, enabled, Option.getD_some, if_true, redactPayload]
      exact ⟨_, rfl⟩
    rw [same]
    rcases redactData_cases deps { filledIn deps given with structData := structData } with
      ⟨readable, data, rewritten⟩ | ⟨unreadable, kept⟩
    · have read : rewrites deps config given = true := by rw [rewrites, enabled, Bool.true_and, ← readable]; rfl
      rw [rewritten, hashFor, read, if_neg (by simp)]
      exact ⟨rfl, rfl⟩
    · have unread : rewrites deps config given = false := by rw [rewrites, enabled, Bool.true_and, ← unreadable]; rfl
      rw [kept]
      exact ⟨filledIn_contentHash unread, rfl⟩

end Redaction

section Keeping

/-- A prepared payload keeps the bytes of its hash, inline or in an artifact with a row, a reference of the client's
without data apart. -/
theorem prepared_kept {allowed : Bytes → Prop} {store : SqliteStore} (readable : Readable deps config allowed store)
    (stowed : Stowed deps config given store) :
    ∃ bytes, (preparedPayload deps config (some given)).1.contentHash = hashFor deps config given bytes ∧
      ((preparedPayload deps config (some given)).1.kept deps store = .ok (some bytes) ∨
        Foreign given (preparedPayload deps config (some given)).1 ∧ bytes = []) := by
  obtain ⟨hash, reference⟩ := redactedPayload_hash deps config given
  by_cases moves : Moves deps config given
  · have moved : (preparedPayload deps config (some given)).1 = movedPayload (redactedPayload deps config (some given)).1
        (artifactRef deps config (redactedBytes deps config given) "application/octet-stream") := by
      rw [preparedPayload]
      exact congrArg Prod.fst (if_pos moves)
    obtain ⟨bytes, _, named, read⟩ := readable.getArtifact_eq_ok (stowed moves)
    refine ⟨bytes, ?_, .inl ?_⟩
    · rw [moved]
      change (redactedPayload deps config (some given)).1.contentHash = _
      rw [hash, hashFor, hashFor, blake3Hex_eq_of_artifactId_eq named]
    · have elsewhere : ¬ (artifactId deps (redactedBytes deps config given) = "" ∨ ([] : Bytes) ≠ []) := by
        simp [artifactId, String.append_eq_empty_iff]
      rw [moved, Payload.kept]
      exact (if_neg elsewhere).trans read
  · have inline : (preparedPayload deps config (some given)).1 = (redactedPayload deps config (some given)).1 := by
      rw [preparedPayload]
      exact congrArg Prod.fst (if_neg moves)
    refine ⟨redactedBytes deps config given, ?_, ?_⟩
    · rw [inline, hash]
    · rw [inline, Payload.kept, reference]
      by_cases here : given.artifactRef = "" ∨ (redactedPayload deps config (some given)).1.data ≠ []
      · rw [if_pos here]
        exact .inl rfl
      · obtain ⟨own, empty⟩ := not_or.mp here
        exact .inr ⟨⟨own, reference, not_not.mp empty⟩, not_not.mp empty⟩

end Keeping

section Runs

/-- The put of a call, if it makes one, is harmless where it happens. -/
def HarmlessCall (deps : External) (config : Config) (call : Call) (s : AppState) : Prop :=
  ∀ given, call.request.payload deps = some given → Moves deps config given →
    Harmless deps config call.ambient (redactedBytes deps config given) s.store

/-- A call whose put does not break into an artifact that is there. -/
def HarmlessStep (deps : External) (config : Config) (s : AppState) (event : Event) (t : AppState) : Prop :=
  Step deps config s event t ∧ HarmlessCall deps config event.call s

theorem Stows.keeps_ids {ambient : Ambient} {s t : SqliteStore} (stows : Stows deps config ambient given s t)
    {name : String} (listed : name ∈ s.artifactIds) : name ∈ t.artifactIds := by
  rcases stows with same | ⟨_, q, m, put, same⟩
  · rwa [artifactIds, same.1]
  · rw [artifactIds, same.1]
    exact putArtifact_keeps_ids put listed

theorem Stows.readable {ambient : Ambient} {s t : SqliteStore} (stows : Stows deps config ambient given s t)
    (identity : ∀ bytes, deps.decodeAll (deps.encodeAll bytes) = some bytes)
    (harmless : Moves deps config given → Harmless deps config ambient (redactedBytes deps config given) s)
    (readable : Readable deps config (fun _ => True) s) : Readable deps config (fun _ => True) t := by
  rcases stows with same | ⟨moves, q, m, put, same⟩
  · exact readable.of_sameDisk same
  · exact (readable.putArtifact identity trivial (harmless moves) put).of_sameDisk same

/-- A harmless call keeps every artifact readable, and every row. -/
theorem HarmlessStep.keeps {event : Event} (step : HarmlessStep deps config s event t)
    (identity : ∀ bytes, deps.decodeAll (deps.encodeAll bytes) = some bytes)
    (readable : Readable deps config (fun _ => True) s.store) :
    Readable deps config (fun _ => True) t.store ∧ ∀ name ∈ s.store.artifactIds, name ∈ t.store.artifactIds := by
  obtain ⟨step, harmless⟩ := step
  cases submitted : event.call.request.payload deps with
  | none =>
    have same := (step.without_payload submitted).2
    refine ⟨readable.of_sameDisk same, fun name listed => ?_⟩
    rwa [artifactIds, same.1]
  | some given =>
    have stows := (step.stows submitted).2.1
    exact ⟨stows.readable identity (harmless given submitted) readable, fun name listed => stows.keeps_ids listed⟩

/-- The commit is one of the run's requests, with its payload prepared. -/
def PreparedIn (deps : External) (config : Config) (events : List Event) (commit : Commit) (given : Payload) : Prop :=
  (∃ event ∈ events, event.call.request.payload deps = some given) ∧
    commit.stateDelta = some (preparedPayload deps config (some given)).1

/-- Along harmless calls every commit has a prepared payload, whose artifact has a row. -/
theorem stowed_of_run {events : List Event} (identity : ∀ bytes, deps.decodeAll (deps.encodeAll bytes) = some bytes)
    (run : Run (HarmlessStep deps config) .initial events s) :
    Readable deps config (fun _ => True) s.store ∧ ∀ commit ∈ s.store.tables.stored,
      ∃ given, PreparedIn deps config events commit given ∧ Stowed deps config given s.store := by
  induction run with
  | nil => exact ⟨readable_empty, fun _ absent => absurd absent List.not_mem_nil⟩
  | snoc before step ih =>
    rename_i events middle finish event
    obtain ⟨readable, prepared⟩ := ih
    obtain ⟨readable', keeps⟩ := step.keeps identity readable
    refine ⟨readable', fun commit member => ?_⟩
    by_cases old : commit ∈ middle.store.tables.stored
    · obtain ⟨given, ⟨⟨other, there, submitted⟩, payload⟩, stowed⟩ := prepared commit old
      exact ⟨given, ⟨⟨other, List.mem_append_left _ there, submitted⟩, payload⟩, fun moves => keeps _ (stowed moves)⟩
    · have recorded := (step.1.mem_stored member).resolve_left old
      obtain ⟨given, submitted⟩ := payload_of_mem_recordedBy recorded
      refine ⟨given, ⟨⟨event, List.mem_append_right _ (List.mem_singleton_self _), submitted⟩,
        (recordedBy_payload submitted recorded).1⟩, ?_⟩
      refine (step.1.stows submitted).2.2.resolve_left fun same => old ?_
      rwa [show middle.store.tables = finish.store.tables from (congrArg Ledger.tables same).symm]

/-- Along harmless calls the hash of every stored payload is that of the bytes kept for it, or the client's own for
bytes that redaction does not rewrite. -/
theorem stored_hash_of_kept_bytes {events : List Event}
    (identity : ∀ bytes, deps.decodeAll (deps.encodeAll bytes) = some bytes)
    (run : Run (HarmlessStep deps config) .initial events s) :
    ∀ commit ∈ s.store.tables.stored, ∃ given, PreparedIn deps config events commit given ∧
      ∃ payload, commit.stateDelta = some payload ∧ ∃ bytes,
        (payload.kept deps s.store = .ok (some bytes) ∨ Foreign given payload ∧ bytes = []) ∧
        payload.contentHash = hashFor deps config given bytes := by
  intro commit member
  obtain ⟨readable, prepared⟩ := stowed_of_run identity run
  obtain ⟨given, made, stowed⟩ := prepared commit member
  obtain ⟨bytes, hash, kept⟩ := prepared_kept readable stowed
  exact ⟨given, made, _, made.2, bytes, kept, hash⟩

end Runs

section Sample

private def twoBytes (contentHash : String) : Payload :=
  ⟨PayloadEncoding.bytes.toI32, [1, 2], none, 0, contentHash, false, ""⟩

/-- A checkpoint of two bytes. -/
private def bytesCall (contentHash : String) : Call :=
  ⟨.checkpoint { Sample.checkpointRequest "r" [] [] with payload := some (twoBytes contentHash) }, .calm ⟨1, 0⟩ 1⟩

private def withBytes (config : Config) (contentHash : String) : AppState :=
  (exec .sample config (bytesCall contentHash) .initial).2

/-- Everything moves to an artifact. -/
private def nothingInline : Config := { Sample.config with maxInlinePayloadBytes := 0 }

private def storedHashes (state : AppState) : List (Option (String × Bytes × String)) :=
  state.store.tables.stored.map fun commit =>
    commit.stateDelta.map fun payload => (payload.contentHash, payload.data, payload.artifactRef)

/-- A hash that a client sends with its bytes is stored, whatever it is. -/
theorem client_hash_kept :
    Reachable .sample Sample.config (withBytes Sample.config "sum") ∧ Sample.config.redactionEnabled = true ∧
    storedHashes (withBytes Sample.config "sum") = [some ("sum", [1, 2], "")] ∧
    "sum" ≠ External.sample.blake3Hex [1, 2] :=
  ⟨reachable_runCalls .sample Sample.config [bytesCall "sum"], rfl, by decide, by decide⟩

/-- Two bytes without a hash, in an artifact. -/
theorem stored_hash_of_kept_bytes_moved :
    (withBytes nothingInline "").store.tables.stored.length = 1 ∧ (withBytes nothingInline "").store.artifacts.length = 1 ∧
    ∀ commit ∈ (withBytes nothingInline "").store.tables.stored, ∃ given, given.artifactRef = "" ∧
      ∃ payload, commit.stateDelta = some payload ∧ ∃ bytes,
        payload.kept .sample (withBytes nothingInline "").store = .ok (some bytes) ∧
        payload.contentHash = hashFor .sample nothingInline given bytes := by
  refine ⟨by decide, by decide, fun commit member => ?_⟩
  have step : HarmlessStep .sample nothingInline .initial
      ⟨bytesCall "", (exec .sample nothingInline (bytesCall "") .initial).1⟩ (withBytes nothingInline "") :=
    ⟨rfl, fun _ _ _ _ row absent => absurd absent List.not_mem_nil⟩
  obtain ⟨given, ⟨⟨event, only, submitted⟩, _⟩, payload, has, bytes, kept, hash⟩ :=
    stored_hash_of_kept_bytes (fun _ => rfl) (.single step) commit member
  obtain rfl := List.mem_singleton.mp only
  obtain rfl := Option.some.inj submitted
  exact ⟨_, rfl, payload, has, bytes, kept.resolve_right fun foreign => foreign.1.1 rfl, hash⟩

end Sample

end AttowNexus
