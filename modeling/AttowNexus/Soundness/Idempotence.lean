import AttowNexus.Proofs.RedactedText
import AttowNexus.Proofs.Utf8

/-! # Redacting twice

What redaction leaves is clean, and a clean text, document or struct is redacted to itself. So a second pass over a
payload changes nothing, as long as the parser reads what the printer wrote.
-/

namespace AttowNexus

open Regex

variable {deps : External} {alphabet : Alphabet}

section Fixed

/-- A clean text is redacted to itself. -/
theorem redactText_of_clean (leftmost : deps.ReplacesLeftmost alphabet) {text : String}
    (clean : CleanText alphabet text) (path : String) : (redactText deps text path).1 = text := by
  have stages : ∀ patterns : List (String × Regex), (∀ pattern ∈ patterns, pattern ∈ redactionPatterns) →
      patterns.foldl (fun text pattern => deps.replaceAll pattern.2 text redactionMarker) text = text := by
    intro patterns
    induction patterns with
    | nil => exact fun _ => rfl
    | cons pattern rest ih =>
      intro inside
      obtain ⟨here, later⟩ := List.forall_mem_cons.mp inside
      have same : deps.replaceAll pattern.2 text redactionMarker = text :=
        String.toList_inj.mp ((leftmost pattern here text).eq_of_free (clean pattern here))
      rw [List.foldl_cons, same, ih later]
  rw [redactText_fst, stages redactionPatterns fun _ member => member]

mutual

/-- A clean document is redacted to itself. -/
theorem redactJson_of_clean (leftmost : deps.ReplacesLeftmost alphabet) (value : Json) (clean : value.Clean alphabet)
    (path : String) : (redactJson deps value path).1 = value := by
  cases value with
  | object members =>
    simp only [Json.Clean] at clean
    simp only [redactJson, redactJsonObject_of_clean leftmost members clean path]
  | array items =>
    simp only [Json.Clean] at clean
    simp only [redactJson, redactJsonItems_of_clean leftmost items clean path 0]
  | string text =>
    simp only [Json.Clean] at clean
    simp only [redactJson, redactText_of_clean leftmost clean path]
  | null => simp only [redactJson]
  | bool flag => simp only [redactJson]
  | number value => simp only [redactJson]

theorem redactJsonItems_of_clean (leftmost : deps.ReplacesLeftmost alphabet) (items : List Json)
    (clean : CleanItems alphabet items) (path : String) (idx : ℕ) :
    (redactJsonItems deps items path idx).1 = items := by
  cases items with
  | nil => simp only [redactJsonItems]
  | cons item rest =>
    simp only [CleanItems] at clean
    simp only [redactJsonItems, redactJson_of_clean leftmost item clean.1,
      redactJsonItems_of_clean leftmost rest clean.2 path (idx + 1)]

theorem redactJsonObject_of_clean (leftmost : deps.ReplacesLeftmost alphabet) (members : List (String × Json))
    (clean : CleanMembers alphabet members) (path : String) : (redactJsonObject deps members path).1 = members := by
  cases members with
  | nil => simp only [redactJsonObject]
  | cons member rest =>
    obtain ⟨key, value⟩ := member
    simp only [CleanMembers] at clean
    obtain ⟨marked, here, later⟩ := clean
    by_cases secret : secretKeyName key = true
    · simp only [redactJsonObject, if_pos secret, marked secret, redactJsonObject_of_clean leftmost rest later path]
    · simp only [redactJsonObject, if_neg secret, redactJson_of_clean leftmost value here,
        redactJsonObject_of_clean leftmost rest later path]

end

mutual

/-- A clean struct value is redacted to itself. -/
theorem redactProstValue_of_clean (leftmost : deps.ReplacesLeftmost alphabet) (value : ProstValue)
    (clean : value.Clean alphabet) (path : String) : (redactProstValue deps value path).1 = value := by
  cases value with
  | structValue fields =>
    simp only [ProstValue.Clean] at clean
    simp only [redactProstValue, redactStructFields_of_clean leftmost fields clean path]
  | listValue values =>
    simp only [ProstValue.Clean] at clean
    simp only [redactProstValue, redactProstItems_of_clean leftmost values clean path 0]
  | stringValue text =>
    simp only [ProstValue.Clean] at clean
    simp only [redactProstValue, redactText_of_clean leftmost clean path]
  | unset => simp only [redactProstValue]
  | nullValue code => simp only [redactProstValue]
  | numberValue bits => simp only [redactProstValue]
  | boolValue flag => simp only [redactProstValue]

theorem redactProstItems_of_clean (leftmost : deps.ReplacesLeftmost alphabet) (values : List ProstValue)
    (clean : CleanValues alphabet values) (path : String) (idx : ℕ) :
    (redactProstItems deps values path idx).1 = values := by
  cases values with
  | nil => simp only [redactProstItems]
  | cons value rest =>
    simp only [CleanValues] at clean
    simp only [redactProstItems, redactProstValue_of_clean leftmost value clean.1,
      redactProstItems_of_clean leftmost rest clean.2 path (idx + 1)]

theorem redactStructFields_of_clean (leftmost : deps.ReplacesLeftmost alphabet) (fields : List (String × ProstValue))
    (clean : CleanFields alphabet fields) (path : String) : (redactStructFields deps fields path).1 = fields := by
  cases fields with
  | nil => simp only [redactStructFields]
  | cons field rest =>
    obtain ⟨key, value⟩ := field
    simp only [CleanFields] at clean
    obtain ⟨marked, here, later⟩ := clean
    by_cases secret : secretKeyName key = true
    · simp only [redactStructFields, if_pos secret, marked secret,
        redactStructFields_of_clean leftmost rest later path]
    · simp only [redactStructFields, if_neg secret, redactProstValue_of_clean leftmost value here,
        redactStructFields_of_clean leftmost rest later path]

end

end Fixed

section Payloads

private theorem redacted_sorted (deps : External) (value : JsonValue) : (redactJson deps value.1 "$").1.Sorted :=
  redactJson_sorted value.1 "$" value.2

/-- The redacted document -/
def redactedDocument (deps : External) (value : JsonValue) : JsonValue :=
  ⟨(redactJson deps value.1 "$").1, redacted_sorted deps value⟩

theorem redactData_twice (leftmost : deps.ReplacesLeftmost alphabet) (payload : Payload)
    (prints : ∀ value, deps.fromSlice payload.data = some value → deps.Prints (redactedDocument deps value)) :
    (redactData deps (redactData deps payload).1).1 = (redactData deps payload).1 := by
  -- The encoding stays, so the second pass takes the branch of the first one.
  cases kind : (PayloadEncoding.tryFrom payload.encoding).getD .unspecified with
  | json =>
    cases parsed : deps.fromSlice payload.data with
    | none => simp only [redactData, kind, parsed]
    | some value =>
      have again : deps.fromSlice (deps.toVec (redactJson deps value.1 "$").1) = some (redactedDocument deps value) :=
        prints value parsed
      have fixed : (redactJson deps (redactedDocument deps value).1 "$").1 = (redactJson deps value.1 "$").1 :=
        redactJson_of_clean leftmost _ (redactJson_clean leftmost value.1 "$") "$"
      simp only [redactData, kind, parsed, Payload.withData, again, fixed]
  | text =>
    cases decoded : fromUtf8 payload.data with
    | none => simp only [redactData, kind, decoded]
    | some text =>
      have fixed : (redactText deps (redactText deps text "$").1 "$").1 = (redactText deps text "$").1 :=
        redactText_of_clean leftmost (redactText_clean leftmost text "$") "$"
      simp only [redactData, kind, decoded, Payload.withData, fromUtf8_utf8Bytes, fixed]
  | unspecified => simp only [redactData, kind]
  | protobufStruct => simp only [redactData, kind]
  | msgpack => simp only [redactData, kind]
  | cbor => simp only [redactData, kind]
  | bytes => simp only [redactData, kind]

/-- The first half of `redact_payload`: the struct -/
def Payload.structRedacted (deps : External) (payload : Payload) : Payload :=
  { payload with structData := payload.structData.map fun value => (redactStruct deps value "$").1 }

theorem redactPayload_fst (payload : Payload) :
    (redactPayload deps payload).1 = (redactData deps (payload.structRedacted deps)).1 := by
  rw [redactPayload, Payload.structRedacted]
  cases payload.structData <;> rfl

/-- A struct that was redacted is redacted to itself. -/
theorem structRedacted_twice (leftmost : deps.ReplacesLeftmost alphabet) {payload other : Payload}
    (same : other.structData = (payload.structRedacted deps).structData) : other.structRedacted deps = other := by
  have fixed : other.structData.map (fun value => (redactStruct deps value "$").1) = other.structData := by
    rw [same, Payload.structRedacted]
    cases payload.structData with
    | none => rfl
    | some value =>
      have fields := redactStructFields_of_clean leftmost _ (redactStructFields_clean leftmost value.fields "$") "$"
      exact congrArg (some ∘ ProstStruct.mk) fields
  rw [Payload.structRedacted, fixed]

/-- A second pass over a redacted payload changes nothing. -/
theorem redactPayload_idempotent (leftmost : deps.ReplacesLeftmost alphabet) (payload : Payload)
    (prints : ∀ value, deps.fromSlice payload.data = some value → deps.Prints (redactedDocument deps value)) :
    (redactPayload deps (redactPayload deps payload).1).1 = (redactPayload deps payload).1 := by
  rw [redactPayload_fst payload, redactPayload_fst, structRedacted_twice leftmost (redactData_structData _)]
  exact redactData_twice leftmost _ prints

section Sample

/-- A text with a bearer token, next to a struct with one and with a password -/
private def tokenPayload : Payload :=
  ⟨PayloadEncoding.text.toI32, utf8Bytes "use Bearer abc",
    some ⟨[("note", .stringValue "Bearer abc"), ("password", .boolValue true)]⟩, 0, "", false, ""⟩

/-- The first pass replaces the tokens, the second finds nothing to replace. -/
theorem redactPayload_idempotent_token :
    fromUtf8 (redactPayload (External.sample.withEngine) tokenPayload).1.data = some "use [REDACTED]" ∧
      (redactPayload (External.sample.withEngine) (redactPayload (External.sample.withEngine) tokenPayload).1).1 =
        (redactPayload (External.sample.withEngine) tokenPayload).1 := by
  refine ⟨by decide +kernel, redactPayload_idempotent (withEngine_leftmost _) tokenPayload fun value parsed => ?_⟩
  have unparsed : (External.sample.withEngine.fromSlice tokenPayload.data).isNone = true := by decide +kernel
  rw [parsed] at unparsed
  exact absurd unparsed Bool.false_ne_true

end Sample

end Payloads

end AttowNexus
