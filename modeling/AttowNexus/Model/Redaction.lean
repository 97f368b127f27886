import AttowNexus.Model.External

/-! # Redaction

`security/redaction.rs`: texts are run through eight patterns, values under secret-looking keys are
replaced outright, and every change leaves a finding with the path of the field. Both walks keep the
keys and the shape of what they walk over.
-/

namespace AttowNexus

/-- `MARKER` -/
def redactionMarker : String := "[REDACTED]"

section Patterns

open Regex

private def upper : Char × Char := ('A', 'Z')
private def lower : Char × Char := ('a', 'z')
private def digit : Char × Char := ('0', '9')
private def one (c : Char) : Char × Char := (c, c)

/-- `[A-Za-z0-9_\-]` -/
private def tokenChar : Regex := oneOf [upper, lower, digit, one '_', one '-']

/-- The named patterns, in the order in which they are applied. -/
def redactionPatterns : List (String × Regex) :=
  [("bearer_token", caseInsensitive
      (all [literal "Bearer", plus space, plus (oneOf [upper, lower, digit, one '.', one '_', one '-'])])),
   ("pem_block",
      all [literal "-----BEGIN ", plus (oneOf [upper, one ' ']), literal "-----", lazyPlus anyChar,
        literal "-----END ", plus (oneOf [upper, one ' ']), literal "-----"]),
   ("aws_access_key",
      all [wordBoundary, alt (literal "AKIA") (literal "ASIA"), exactly 16 (oneOf [digit, upper]), wordBoundary]),
   ("github_token",
      all [wordBoundary, literal "gh", oneOf [one 'p', one 'o', one 'u', one 's', one 'r'], literal "_",
        atLeast 20 (oneOf [upper, lower, digit, one '_']), wordBoundary]),
   ("openai_token", all [wordBoundary, literal "sk-", atLeast 20 tokenChar, wordBoundary]),
   ("anthropic_token", all [wordBoundary, literal "sk-ant-", atLeast 20 tokenChar, wordBoundary]),
   ("jwt",
      all [wordBoundary, literal "eyJ", plus tokenChar, literal ".", plus tokenChar, literal ".",
        plus tokenChar, wordBoundary]),
   ("database_url_password", caseInsensitive
      (all [wordBoundary, oneOf [lower], star (oneOf [lower, digit, one '+', one '.', one '-']),
        literal "://", plus (cls ⟨[one ':', one '/'], true, true⟩), literal ":",
        plus (cls ⟨[one '@'], true, true⟩), literal "@"]))]

end Patterns

/-- `finding` -/
def redactionFinding (path redactionType : String) : RedactionFinding := ⟨path, redactionType, redactionMarker⟩

/-- Whether the needle occurs in the text, as `str::contains`. -/
def containsText (text needle : String) : Bool := text.toList.tails.any fun rest => needle.toList.isPrefixOf rest

def secretKeyName (key : String) : Bool :=
  ["password", "token", "api_key", "apikey", "secret", "private_key", "access_token", "refresh_token"].any
    fun needle => containsText (String.ofList (key.toList.map Char.toLower)) needle

variable (deps : External)

/-- One pass of `redact_text` per pattern; a pattern that changes nothing leaves no finding. -/
def redactText (text path : String) : String × List RedactionFinding :=
  redactionPatterns.foldl (fun (output, findings) (name, regex) =>
    let replaced := deps.replaceAll regex output redactionMarker
    if replaced ≠ output then (replaced, findings ++ [redactionFinding path name]) else (output, findings))
    (text, [])

mutual

def redactJson : Json → String → Json × List RedactionFinding
  | .object members, path =>
      let (redacted, findings) := redactJsonObject members path
      (.object redacted, findings)
  | .array items, path =>
      let (redacted, findings) := redactJsonItems items path 0
      (.array redacted, findings)
  | .string text, path =>
      let (replacement, findings) := redactText deps text path
      (.string replacement, findings)
  | .null, _ => (.null, [])
  | .bool flag, _ => (.bool flag, [])
  | .number value, _ => (.number value, [])

def redactJsonItems : List Json → String → ℕ → List Json × List RedactionFinding
  | [], _, _ => ([], [])
  | item :: rest, path, idx =>
      let (redacted, findings) := redactJson item (path ++ "[" ++ toString idx ++ "]")
      let (items, later) := redactJsonItems rest path (idx + 1)
      (redacted :: items, findings ++ later)

def redactJsonObject : List (String × Json) → String → List (String × Json) × List RedactionFinding
  | [], _ => ([], [])
  | (key, value) :: rest, path =>
      let childPath := path ++ "." ++ key
      let (redacted, findings) :=
        if secretKeyName key then (.string redactionMarker, [redactionFinding childPath "secret_key"])
        else redactJson value childPath
      let (members, later) := redactJsonObject rest path
      ((key, redacted) :: members, findings ++ later)

end

mutual

def redactProstValue : ProstValue → String → ProstValue × List RedactionFinding
  | .stringValue text, path =>
      let (replacement, findings) := redactText deps text path
      (.stringValue replacement, findings)
  | .structValue fields, path =>
      let (redacted, findings) := redactStructFields fields path
      (.structValue redacted, findings)
  | .listValue values, path =>
      let (redacted, findings) := redactProstItems values path 0
      (.listValue redacted, findings)
  | .unset, _ => (.unset, [])
  | .nullValue code, _ => (.nullValue code, [])
  | .numberValue bits, _ => (.numberValue bits, [])
  | .boolValue flag, _ => (.boolValue flag, [])

def redactProstItems : List ProstValue → String → ℕ → List ProstValue × List RedactionFinding
  | [], _, _ => ([], [])
  | item :: rest, path, idx =>
      let (redacted, findings) := redactProstValue item (path ++ "[" ++ toString idx ++ "]")
      let (values, later) := redactProstItems rest path (idx + 1)
      (redacted :: values, findings ++ later)

def redactStructFields :
    List (String × ProstValue) → String → List (String × ProstValue) × List RedactionFinding
  | [], _ => ([], [])
  | (key, value) :: rest, path =>
      let childPath := path ++ "." ++ key
      let (redacted, findings) :=
        if secretKeyName key then (.stringValue redactionMarker, [redactionFinding childPath "secret_key"])
        else redactProstValue value childPath
      let (fields, later) := redactStructFields rest path
      ((key, redacted) :: fields, findings ++ later)

end

/-- `redact_struct` -/
def redactStruct (value : ProstStruct) (path : String) : ProstStruct × List RedactionFinding :=
  let (fields, findings) := redactStructFields deps value.fields path
  (⟨fields⟩, findings)

/-- The payload around new data. -/
def Payload.withData (payload : Payload) (data : Bytes) : Payload :=
  { payload with data := data, sizeBytes := data.length, contentHash := deps.blake3Hex data }

/-- The second half of `redact_payload`: the data, by its encoding. -/
def redactData (payload : Payload) : Payload × List RedactionFinding :=
  match (PayloadEncoding.tryFrom payload.encoding).getD .unspecified with
  | .json =>
      match deps.fromSlice payload.data with
      | some json =>
          let (redacted, findings) := redactJson deps json.1 "$"
          (payload.withData deps (deps.toVec redacted), findings)
      | none => (payload, [])
  | .text =>
      match fromUtf8 payload.data with
      | some text =>
          let (redacted, findings) := redactText deps text "$"
          (payload.withData deps (utf8Bytes redacted), findings)
      | none => (payload, [])
  | _ => (payload, [])

/-- `Redactor::redact_payload` -/
def redactPayload (payload : Payload) : Payload × RedactionReport :=
  let (structData, findings) :=
    match payload.structData with
    | some structData =>
        let (redacted, findings) := redactStruct deps structData "$"
        (some redacted, findings)
    | none => (none, [])
  let (redacted, later) := redactData deps { payload with structData := structData }
  (redacted, ⟨findings ++ later, !(findings ++ later).isEmpty⟩)

section Shape

variable {deps}

theorem redactJsonObject_keys (members : List (String × Json)) (path : String) :
    (redactJsonObject deps members path).1.map (·.1) = members.map (·.1) := by
  induction members with
  | nil => rfl
  | cons member rest ih =>
    obtain ⟨key, value⟩ := member
    rw [redactJsonObject]
    dsimp only
    rw [List.map_cons, List.map_cons, ih]

mutual

/-- Redaction keeps the members of every object in order. -/
theorem redactJson_sorted (value : Json) (path : String) (sorted : value.Sorted) :
    (redactJson deps value path).1.Sorted := by
  cases value with
  | object members =>
    simp only [redactJson, Json.Sorted, JsonMap.Ascending, redactJsonObject_keys] at sorted ⊢
    exact ⟨sorted.1, redactJsonObject_sorted members path sorted.2⟩
  | array items =>
    simp only [redactJson, Json.Sorted] at sorted ⊢
    exact redactJsonItems_sorted items path 0 sorted
  | string text => simp only [redactJson, Json.Sorted]
  | null => simp only [redactJson, Json.Sorted]
  | bool flag => simp only [redactJson, Json.Sorted]
  | number value => simp only [redactJson, Json.Sorted]

theorem redactJsonItems_sorted (items : List Json) (path : String) (idx : ℕ)
    (sorted : Json.SortedItems items) : Json.SortedItems (redactJsonItems deps items path idx).1 := by
  cases items with
  | nil => simp only [redactJsonItems, Json.SortedItems]
  | cons item rest =>
    simp only [Json.SortedItems] at sorted
    simp only [redactJsonItems, Json.SortedItems]
    exact ⟨redactJson_sorted item _ sorted.1, redactJsonItems_sorted rest path (idx + 1) sorted.2⟩

theorem redactJsonObject_sorted (members : List (String × Json)) (path : String)
    (sorted : Json.SortedMembers members) : Json.SortedMembers (redactJsonObject deps members path).1 := by
  cases members with
  | nil => simp only [redactJsonObject, Json.SortedMembers]
  | cons member rest =>
    obtain ⟨key, value⟩ := member
    simp only [Json.SortedMembers] at sorted
    simp only [redactJsonObject, Json.SortedMembers]
    refine ⟨?_, redactJsonObject_sorted rest path sorted.2⟩
    split
    · simp only [Json.Sorted]
    · exact redactJson_sorted value _ sorted.1

end

end Shape

end AttowNexus
