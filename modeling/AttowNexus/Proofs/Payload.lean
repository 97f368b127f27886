import AttowNexus.Proofs.Service

/-! # The payload of a commit

What becomes of the payload of a request on its way into the commit: redaction changes the data by its
encoding, and data within the inline limit is stored as it is then. The JSON of a stored payload is that of
the redacted value whenever the printer and the parser agree on it.
-/

namespace AttowNexus

open AppState

variable {deps : External} {config : Config} {ambient : Ambient} {payload : Payload}

/-- Printing the value and parsing it again gives it back. -/
def External.Prints (deps : External) (value : JsonValue) : Prop :=
  deps.fromSlice (deps.toVec value.1) = some value

/-- The value after redaction, if that is enabled. -/
def redactedValue (deps : External) (config : Config) (value : JsonValue) : JsonValue :=
  if config.redactionEnabled = true then ⟨(redactJson deps value.1 "$").1, redactJson_sorted value.1 "$" value.2⟩
  else value

theorem json_kind (encoded : payload.encoding = PayloadEncoding.json.toI32) :
    (PayloadEncoding.tryFrom payload.encoding).getD .unspecified = .json := by
  rw [encoded]
  rfl

theorem payloadToJson_json {value : JsonValue} (encoded : payload.encoding = PayloadEncoding.json.toI32)
    (parsed : deps.fromSlice payload.data = some value) : payloadToJson deps (some payload) = value.1 := by
  simp only [payloadToJson, json_kind encoded, parsed, Option.map_some, Option.getD_some]

theorem payloadToJson_jsonPayload {state : JsonValue} (prints : deps.Prints state) :
    payloadToJson deps (some (jsonPayload deps (deps.toVec state.1))) = state.1 := payloadToJson_json rfl prints

/-- Data that does not parse is summarized. -/
theorem payloadToJson_unparsed (encoded : payload.encoding = PayloadEncoding.json.toI32)
    (unparsed : deps.fromSlice payload.data = none) : payloadToJson deps (some payload) = hashSummary payload := by
  simp only [payloadToJson, json_kind encoded, unparsed, Option.map_none, Option.getD_none]

theorem hashSummary_eq (payload : Payload) : hashSummary payload = .object
    [("content_hash", .string payload.contentHash), ("size_bytes", .number (.posInt payload.sizeBytes))] := by
  have later : ¬ "size_bytes" < "content_hash" := by decide
  have other : ¬ "size_bytes" = "content_hash" := by decide
  simp only [hashSummary, Json.ofMembers, JsonMap.ofMembers, List.foldl_cons, List.foldl_nil, JsonMap.insert,
    if_neg later, if_neg other]

theorem redactData_json {value : JsonValue} (encoded : payload.encoding = PayloadEncoding.json.toI32)
    (parsed : deps.fromSlice payload.data = some value) :
    (redactData deps payload).1 = payload.withData deps (deps.toVec (redactJson deps value.1 "$").1) := by
  simp only [redactData, json_kind encoded, parsed]

/-- The payload after redaction, before its size is looked at. -/
def afterRedaction (deps : External) (config : Config) (payload : Payload) : Payload :=
  (redactedPayload deps config (some payload)).1

/-- Redaction keeps the encoding and the size, and the data parses to the redacted value. -/
theorem afterRedaction_json {value : JsonValue} (encoded : payload.encoding = PayloadEncoding.json.toI32)
    (parsed : deps.fromSlice payload.data = some value) (prints : deps.Prints (redactedValue deps config value)) :
    (afterRedaction deps config payload).encoding = PayloadEncoding.json.toI32 ∧
      deps.fromSlice (afterRedaction deps config payload).data = some (redactedValue deps config value) ∧
      (afterRedaction deps config payload).sizeBytes = (afterRedaction deps config payload).data.length := by
  rw [External.Prints] at prints
  by_cases enabled : config.redactionEnabled = true
  · simp only [redactedValue, if_pos enabled] at prints ⊢
    simp only [afterRedaction, redactedPayload, Option.getD_some, if_pos enabled, redactPayload]
    rw [redactData_json (by exact encoded) (by exact parsed)]
    exact ⟨encoded, prints, rfl⟩
  · simp only [redactedValue, if_neg enabled]
    simp only [afterRedaction, redactedPayload, Option.getD_some, if_neg enabled]
    exact ⟨encoded, parsed, trivial⟩

/-- The payload that `prepare_payload` hands to the commit. -/
def storedPayload (deps : External) (config : Config) (payload : Payload) : Payload :=
  (preparedPayload deps config (some payload)).1

theorem storedPayload_inline (small : (afterRedaction deps config payload).data.length ≤ config.maxInlinePayloadBytes) :
    storedPayload deps config payload = afterRedaction deps config payload := by
  rw [storedPayload, preparedPayload]
  rw [afterRedaction] at small ⊢
  generalize redactedPayload deps config (some payload) = redacted at *
  obtain ⟨kept, report⟩ := redacted
  simp only [if_neg (not_lt.mpr small)]

/-- The delta of a checkpoint is what `prepare_payload` made of the given payload, or of the empty object. -/
theorem stateDelta_checkpointCommit {heads : List HeadRow} {request : CheckpointRequest} :
    (checkpointCommit deps config ambient heads request).stateDelta =
      some (storedPayload deps config (request.payload.getD (emptyJsonPayload deps))) := by
  have delta : (checkpointDelta deps ambient request).payload =
      some (request.payload.getD (emptyJsonPayload deps)) := by
    simp only [checkpointDelta, normalizeDelta, Option.getD_some]
  simp only [checkpointCommit, delta]
  rfl

section Sorted

theorem hashSummary_sorted (payload : Payload) : (hashSummary payload).Sorted :=
  Json.ofMembers_sorted ⟨trivial, trivial, trivial⟩

/-- Whatever a payload holds, its JSON lists members in order. -/
theorem payloadToJson_sorted (payload : Option Payload) : (payloadToJson deps payload).Sorted := by
  cases payload with
  | none => exact trivial
  | some payload =>
    rw [payloadToJson]
    split
    · cases deps.fromSlice payload.data with
      | none => exact hashSummary_sorted payload
      | some value => exact value.2
    · exact trivial
    · exact Json.ofMembers_sorted ⟨trivial, trivial, trivial, trivial⟩

theorem mergeStates_sorted (commits : List Commit) : (mergeStates deps commits).Sorted := by
  induction commits using List.reverseRecOn with
  | nil => exact ⟨List.Pairwise.nil, trivial⟩
  | append_singleton commits commit ih =>
    rw [mergeStates, List.foldl_append]
    exact mergeValue_sorted _ _ ih (payloadToJson_sorted _)

end Sorted

namespace Sample

/-- Whether the data is the print of the value -/
def isPrint (data : Bytes) (value : JsonValue) : Bool := utf8Bytes (render value.1) = data

/-- The sample functions with a parser of the given documents -/
def knowing (documents : List JsonValue) : External :=
  { External.sample with fromSlice := fun data => documents.find? (isPrint data) }

/-- A document is parsed from its print when no document before it has the same print. -/
theorem knowing_prints {value : JsonValue} (before after : List JsonValue)
    (others : before.all (fun other => !isPrint (utf8Bytes (render value.1)) other) = true) :
    (knowing (before ++ value :: after)).Prints value := by
  have printed : isPrint (utf8Bytes (render value.1)) value = true := decide_eq_true rfl
  have found : (before ++ value :: after).find? (isPrint (utf8Bytes (render value.1))) = some value := by
    rw [List.find?_append, List.find?_eq_none.mpr, Option.none_or, List.find?_cons_of_pos printed]
    intro other member
    simpa using List.all_eq_true.mp others other member
  exact found

theorem knowing_empty {documents : List JsonValue} (others : documents.all (fun other => !isPrint [] other) = true) :
    (knowing documents).fromSlice [] = none := by
  have found : documents.find? (isPrint []) = none := by
    rw [List.find?_eq_none]
    intro other member
    simpa using List.all_eq_true.mp others other member
  exact found

end Sample

end AttowNexus
