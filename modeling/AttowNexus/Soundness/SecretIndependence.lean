import AttowNexus.Proofs.Payload

/-! # Secret values leave no trace

The value under a secret-named key is replaced before anything is derived from it, so two JSON payloads that
differ in such values only are the same payload once they are redacted. Hash, size, artifact and report are
computed from the redacted data, and the two requests act alike in every state.
-/

namespace AttowNexus

open Fallible AppState

mutual

/-- The two values differ at most in what they hold under secret-named keys. -/
inductive SameOutsideSecrets : Json → Json → Prop
  | same (value : Json) : SameOutsideSecrets value value
  | array {left right : List Json} (items : SameItems left right) : SameOutsideSecrets (.array left) (.array right)
  | object {left right : List (String × Json)} (members : SameMembers left right) :
      SameOutsideSecrets (.object left) (.object right)

inductive SameItems : List Json → List Json → Prop
  | nil : SameItems [] []
  | cons {v w : Json} {left right : List Json} (item : SameOutsideSecrets v w) (rest : SameItems left right) :
      SameItems (v :: left) (w :: right)

inductive SameMembers : List (String × Json) → List (String × Json) → Prop
  | nil : SameMembers [] []
  | secret {key : String} {v w : Json} {left right : List (String × Json)} (named : secretKeyName key = true)
      (rest : SameMembers left right) : SameMembers ((key, v) :: left) ((key, w) :: right)
  | plain {key : String} {v w : Json} {left right : List (String × Json)} (value : SameOutsideSecrets v w)
      (rest : SameMembers left right) : SameMembers ((key, v) :: left) ((key, w) :: right)

end

variable {deps : External} {config : Config} {ambient : Ambient}

mutual

/-- Redaction returns the same value and the same findings. -/
theorem SameOutsideSecrets.redactJson_eq {v w : Json} (same : SameOutsideSecrets v w) (path : String) :
    redactJson deps v path = redactJson deps w path := by
  cases same with
  | same => rfl
  | array items => rw [redactJson, redactJson, items.redactJsonItems_eq]
  | object members => rw [redactJson, redactJson, members.redactJsonObject_eq]

theorem SameItems.redactJsonItems_eq {left right : List Json} (same : SameItems left right) (path : String)
    (idx : ℕ) : redactJsonItems deps left path idx = redactJsonItems deps right path idx := by
  cases same with
  | nil => rfl
  | cons item rest => rw [redactJsonItems, redactJsonItems, item.redactJson_eq, rest.redactJsonItems_eq]

theorem SameMembers.redactJsonObject_eq {left right : List (String × Json)} (same : SameMembers left right)
    (path : String) : redactJsonObject deps left path = redactJsonObject deps right path := by
  cases same with
  | nil => rfl
  | secret named rest => rw [redactJsonObject, redactJsonObject, if_pos named, if_pos named, rest.redactJsonObject_eq]
  | plain value rest => rw [redactJsonObject, redactJsonObject, value.redactJson_eq, rest.redactJsonObject_eq]

end

/-- Two JSON payloads of values that agree outside secrets, with the client's hash and size left open. -/
structure SecretVariants (deps : External) (left right : Payload) : Prop where
  encodedLeft : left.encoding = PayloadEncoding.json.toI32
  encodedRight : right.encoding = PayloadEncoding.json.toI32
  parsed : ∃ v w : JsonValue, deps.fromSlice left.data = some v ∧ deps.fromSlice right.data = some w ∧
    SameOutsideSecrets v.1 w.1
  structData : left.structData = right.structData
  compressed : left.compressed = right.compressed
  artifactRef : left.artifactRef = right.artifactRef

variable {left right : Payload}

/-- Both payloads redact to the same payload, with the same report. -/
theorem SecretVariants.redactPayload_eq (variants : SecretVariants deps left right) :
    redactPayload deps left = redactPayload deps right := by
  obtain ⟨v, w, parsedLeft, parsedRight, same⟩ := variants.parsed
  have data : ∀ structData, redactData deps { left with structData := structData } =
      redactData deps { right with structData := structData } := by
    intro structData
    simp only [redactData, json_kind variants.encodedLeft, json_kind variants.encodedRight, parsedLeft, parsedRight,
      same.redactJson_eq, Payload.withData]
    rw [variants.encodedLeft, variants.encodedRight, variants.compressed, variants.artifactRef]
  rw [redactPayload, redactPayload, variants.structData]
  simp only [data]

theorem SecretVariants.redactedPayload_eq (variants : SecretVariants deps left right)
    (enabled : config.redactionEnabled = true) :
    redactedPayload deps config (some left) = redactedPayload deps config (some right) := by
  have filled : ∀ hash hash' size size', SecretVariants deps { left with contentHash := hash, sizeBytes := size }
      { right with contentHash := hash', sizeBytes := size' } := fun _ _ _ _ =>
    ⟨variants.encodedLeft, variants.encodedRight, variants.parsed, variants.structData, variants.compressed,
      variants.artifactRef⟩
  simp only [redactedPayload, Option.getD_some, if_pos enabled]
  exact (filled _ _ _ _).redactPayload_eq

/-- With redaction on, JSON payloads that differ in secret values only are prepared alike, make the same commit
on any heads, and give requests that act and answer alike in every state. -/
theorem secrets_leave_no_trace (enabled : config.redactionEnabled = true)
    (variants : SecretVariants deps left right) :
    preparePayload deps config ambient (some left) = preparePayload deps config ambient (some right) ∧
    (∀ heads (request : CheckpointRequest),
      checkpointCommit deps config ambient heads { request with payload := some left } =
        checkpointCommit deps config ambient heads { request with payload := some right }) ∧
    (∀ heads request (delta : StateDelta),
      publishCommit deps config ambient heads request { delta with payload := some left } =
        publishCommit deps config ambient heads request { delta with payload := some right }) ∧
    (∀ request : CheckpointRequest, checkpointInner deps config ambient { request with payload := some left } =
      checkpointInner deps config ambient { request with payload := some right }) ∧
    ∀ (request : PublishDeltaRequest) (delta : StateDelta),
      publishDeltaInner deps config ambient { request with delta := some { delta with payload := some left } } =
        publishDeltaInner deps config ambient { request with delta := some { delta with payload := some right } } := by
  have redacted := variants.redactedPayload_eq enabled
  have prepared : preparePayload deps config ambient (some left) = preparePayload deps config ambient (some right) := by
    rw [preparePayload, preparePayload, redacted]
  have same : preparedPayload deps config (some left) = preparedPayload deps config (some right) := by
    rw [preparedPayload, preparedPayload, redacted]
  refine ⟨prepared, fun heads request => ?_, fun heads request delta => ?_, fun request => ?_,
    fun request delta => ?_⟩
  · simp only [checkpointCommit, preparedCheckpointDelta, checkpointDelta, normalizeDelta, Option.getD_some, same]
    rfl
  · simp only [publishCommit, publishDelta, normalizeDelta, Option.getD_some, same]
    rfl
  · simp only [checkpointInner, planCheckpoint, checkpointDelta, normalizeDelta, Option.getD_some, prepared]
    rfl
  · simp only [publishDeltaInner, planPublish, required, Option.elim, lift_ok_bind, normalizeDelta,
      Option.getD_some, prepared]

section Sample

private def held (secret : ℕ) : JsonValue :=
  ⟨.object [("password", .number (.posInt secret))], ⟨List.pairwise_singleton _ _, trivial, trivial⟩⟩

/-- The object as a payload with a hash and a size of the client's. -/
private def submitted (secret : ℕ) (contentHash : String) : Payload :=
  ⟨PayloadEncoding.json.toI32, utf8Bytes (Sample.render (held secret).1), none, 7, contentHash, false, ""⟩

/-- A parser that knows a one-digit and a two-digit password. -/
private def knowingSecrets : External := Sample.knowing [held 1, held 23]

private theorem secretVariants_held : SecretVariants knowingSecrets (submitted 1 "") (submitted 23 "other") where
  encodedLeft := rfl
  encodedRight := rfl
  parsed := by
    have short : knowingSecrets.Prints (held 1) := Sample.knowing_prints [] [held 23] rfl
    have long : knowingSecrets.Prints (held 23) := Sample.knowing_prints [held 1] [] (by decide)
    exact ⟨held 1, held 23, short, long, .object (.secret (by decide) .nil)⟩
  structData := rfl
  compressed := rfl
  artifactRef := rfl

/-- Passwords of different lengths, and different hashes of the client's, make the same commit. -/
theorem secrets_leave_no_trace_held :
    (submitted 1 "").data ≠ (submitted 23 "other").data ∧
      checkpointCommit knowingSecrets Sample.config (.calm ⟨1, 0⟩ 1) []
          { Sample.checkpointRequest "r" [] [] with payload := some (submitted 1 "") } =
        checkpointCommit knowingSecrets Sample.config (.calm ⟨1, 0⟩ 1) []
          { Sample.checkpointRequest "r" [] [] with payload := some (submitted 23 "other") } :=
  ⟨by decide, (secrets_leave_no_trace rfl secretVariants_held).2.1 [] _⟩

end Sample

end AttowNexus
