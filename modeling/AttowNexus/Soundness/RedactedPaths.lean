import AttowNexus.Proofs.JsonPaths
import Mathlib.Data.Option.Basic

/-! # Redaction changes what it must

A redacted document has the same places as before, except below secret-looking keys. The marker stands under the first
such key of a path, texts have gone through the patterns, and all other leaves are as they were. The report says whether
any of that happened. Structs are redacted as the documents that they stand for.
-/

namespace AttowNexus

variable {deps : External}

section Places

variable (deps)

/-- What a place outside of all secret-looking keys holds after redaction. -/
def RedactedAs : Json → Json → Prop
  | .object members, after => ∃ redacted, after = .object redacted ∧ redacted.map (·.1) = members.map (·.1)
  | .array items, after => ∃ redacted, after = .array redacted ∧ redacted.length = items.length
  | .string text, after => after = .string (redactText deps text "$").1
  | leaf, after => after = leaf

variable {deps}

theorem redacted_redactedAs (value : Json) : RedactedAs deps value (value.redacted deps) := by
  cases value with
  | object members =>
    refine ⟨(redactJsonObject deps members "$").1, ?_, redactJsonObject_keys members "$"⟩
    simp only [Json.redacted, redactJson]
  | array items =>
    refine ⟨items.map (Json.redacted deps), ?_, List.length_map _⟩
    simp only [Json.redacted, redactJson, redactJsonItems_fst]
  | _ => simp only [Json.redacted, redactJson, RedactedAs]

end Places

section Outlines

mutual

/-- The texts of a struct value under their keys and indices; all its other leaves are left blank. -/
def ProstValue.outline : ProstValue → Json
  | .structValue fields => .object (outlineFields fields)
  | .listValue values => .array (outlineValues values)
  | .stringValue text => .string text
  | _ => .null

def outlineValues : List ProstValue → List Json
  | [] => []
  | value :: rest => value.outline :: outlineValues rest

def outlineFields : List (String × ProstValue) → List (String × Json)
  | [] => []
  | (key, value) :: rest => (key, value.outline) :: outlineFields rest

end

mutual

/-- A struct value leaves the findings of its outline. -/
theorem redactProstValue_snd (value : ProstValue) (path : String) :
    (redactProstValue deps value path).2 = (redactJson deps value.outline path).2 := by
  cases value with
  | structValue fields => simp only [redactProstValue, ProstValue.outline, redactJson, redactStructFields_snd fields path]
  | listValue values => simp only [redactProstValue, ProstValue.outline, redactJson, redactProstItems_snd values path 0]
  | _ => simp only [redactProstValue, ProstValue.outline, redactJson]

theorem redactProstItems_snd (values : List ProstValue) (path : String) (idx : ℕ) :
    (redactProstItems deps values path idx).2 = (redactJsonItems deps (outlineValues values) path idx).2 := by
  cases values with
  | nil => simp only [redactProstItems, outlineValues, redactJsonItems]
  | cons value rest =>
    simp only [redactProstItems, outlineValues, redactJsonItems]
    rw [redactProstValue_snd value, redactProstItems_snd rest path (idx + 1)]

theorem redactStructFields_snd (fields : List (String × ProstValue)) (path : String) :
    (redactStructFields deps fields path).2 = (redactJsonObject deps (outlineFields fields) path).2 := by
  match fields with
  | [] => simp only [redactStructFields, outlineFields, redactJsonObject]
  | (key, value) :: rest =>
    simp only [redactStructFields, outlineFields, redactJsonObject]
    rw [redactStructFields_snd rest path]
    split_ifs
    · rfl
    · rw [redactProstValue_snd value]

end

end Outlines

section Reports

variable (deps)

/-- Redacting the payload meets a secret-looking key, or a text in which a pattern fires. -/
inductive Payload.Triggers (payload : Payload) : Prop
  | struct {fields : List (String × ProstValue)} : payload.structData = some ⟨fields⟩ →
      Json.Triggers deps (.object (outlineFields fields)) → Triggers payload
  | json {value : JsonValue} : PayloadEncoding.tryFrom payload.encoding = some .json →
      deps.fromSlice payload.data = some value → value.1.Triggers deps → Triggers payload
  | text {text : String} : PayloadEncoding.tryFrom payload.encoding = some .text →
      fromUtf8 payload.data = some text → Fires deps text → Triggers payload

variable {deps}

/-- What the data of a payload leaves findings for -/
theorem redactData_snd_ne_nil_iff (payload : Payload) : (redactData deps payload).2 ≠ [] ↔
    (∃ value, PayloadEncoding.tryFrom payload.encoding = some .json ∧ deps.fromSlice payload.data = some value ∧
      value.1.Triggers deps) ∨
    ∃ text, PayloadEncoding.tryFrom payload.encoding = some .text ∧ fromUtf8 payload.data = some text ∧ Fires deps text := by
  rw [redactData]
  cases PayloadEncoding.tryFrom payload.encoding with
  | none => simp
  | some encoding =>
    cases encoding with
    | json =>
      cases parsed : deps.fromSlice payload.data with
      | none => simp
      | some value => simpa using redactJson_triggers_iff value.1 "$"
    | text =>
      cases decoded : fromUtf8 payload.data with
      | none => simp
      | some text => simpa using redactText_snd_ne_nil_iff text "$"
    | _ => simp

theorem redactPayload_redacted_iff (payload : Payload) :
    (redactPayload deps payload).2.redacted = true ↔ payload.Triggers deps := by
  have reported : (redactPayload deps payload).2.redacted = true ↔
      (∃ value, payload.structData = some value ∧ (redactStruct deps value "$").2 ≠ []) ∨ (redactData deps payload).2 ≠ [] := by
    have data : ∀ structData, (redactData deps { payload with structData := structData }).2 = (redactData deps payload).2 := by
      intro structData
      simp only [redactData]
      split
      · split <;> rfl
      · split <;> rfl
      · rfl
    cases structured : payload.structData with
    | none => simp [redactPayload, structured, data]
    | some value => simp [redactPayload, structured, data, imp_iff_not_or]
  rw [reported, redactData_snd_ne_nil_iff]
  constructor
  · rintro (⟨⟨fields⟩, structured, found⟩ | ⟨value, encoded, parsed, triggers⟩ | ⟨text, encoded, decoded, fires⟩)
    · refine .struct structured ((redactJson_triggers_iff _ "$").1 ?_)
      simpa only [redactStruct, redactStructFields_snd, redactJson] using found
    · exact .json encoded parsed triggers
    · exact .text encoded decoded fires
  · intro triggers
    cases triggers with
    | @struct fields structured triggers =>
      refine .inl ⟨⟨fields⟩, structured, ?_⟩
      have found := (redactJson_triggers_iff _ "$").2 triggers
      simpa only [redactStruct, redactStructFields_snd, redactJson] using found
    | json encoded parsed triggers => exact .inr (.inl ⟨_, encoded, parsed, triggers⟩)
    | text encoded decoded fires => exact .inr (.inr ⟨_, encoded, decoded, fires⟩)

end Reports

/-- Redaction puts the marker at the first secret-looking key of a path, redacts the texts outside of such keys, leaves
all else outside of them as it is, and reports whether there was anything to do. -/
theorem redaction_changes_exactly (deps : External) :
    (∀ (value : Json) (path : String) (steps : List PathStep), (∀ step ∈ steps, step.secret = false) →
      Option.Rel (RedactedAs deps) (value.valueAt steps) ((redactJson deps value path).1.valueAt steps) ∧
      ∀ key after, secretKeyName key = true →
        (redactJson deps value path).1.valueAt (steps ++ .key key :: after) =
          if after = [] then (value.valueAt (steps ++ [.key key])).map fun _ => .string redactionMarker else none) ∧
    ∀ payload, (redactPayload deps payload).2.redacted = true ↔ payload.Triggers deps := by
  refine ⟨fun value path steps plain => ⟨?_, fun key after secret => ?_⟩, redactPayload_redacted_iff⟩
  · rw [redactJson_fst, valueAt_redacted plain]
    cases value.valueAt steps with
    | none => exact .none
    | some found => exact .some (redacted_redactedAs found)
  · have secret : (PathStep.key key).secret = true := secret
    rw [redactJson_fst]
    exact valueAt_redacted_secret plain secret after value

section Structs

variable (double : JsonNumber → UInt64)

mutual

/-- A document as a struct value, with its numbers as doubles -/
def Json.toProst : Json → ProstValue
  | .null => .nullValue 0
  | .bool flag => .boolValue flag
  | .number value => .numberValue (double value)
  | .string text => .stringValue text
  | .array items => .listValue (toProstItems items)
  | .object members => .structValue (toProstFields members)

def toProstItems : List Json → List ProstValue
  | [] => []
  | item :: rest => item.toProst :: toProstItems rest

def toProstFields : List (String × Json) → List (String × ProstValue)
  | [] => []
  | (key, value) :: rest => (key, value.toProst) :: toProstFields rest

end

variable {double}

mutual

theorem redactProstValue_toProst (value : Json) (path : String) :
    redactProstValue deps (value.toProst double) path =
      ((redactJson deps value path).1.toProst double, (redactJson deps value path).2) := by
  cases value with
  | object members => simp only [Json.toProst, redactProstValue, redactJson, redactStructFields_toProst members path]
  | array items => simp only [Json.toProst, redactProstValue, redactJson, redactProstItems_toProst items path 0]
  | _ => simp only [Json.toProst, redactProstValue, redactJson]

theorem redactProstItems_toProst (items : List Json) (path : String) (idx : ℕ) :
    redactProstItems deps (toProstItems double items) path idx =
      (toProstItems double (redactJsonItems deps items path idx).1, (redactJsonItems deps items path idx).2) := by
  cases items with
  | nil => simp only [toProstItems, redactProstItems, redactJsonItems]
  | cons item rest =>
    simp only [toProstItems, redactProstItems, redactJsonItems]
    rw [redactProstValue_toProst item, redactProstItems_toProst rest path (idx + 1)]

theorem redactStructFields_toProst (members : List (String × Json)) (path : String) :
    redactStructFields deps (toProstFields double members) path =
      (toProstFields double (redactJsonObject deps members path).1, (redactJsonObject deps members path).2) := by
  match members with
  | [] => simp only [toProstFields, redactStructFields, redactJsonObject]
  | (key, value) :: rest =>
    simp only [toProstFields, redactStructFields, redactJsonObject]
    rw [redactStructFields_toProst rest path]
    split_ifs
    · simp only [Json.toProst]
    · rw [redactProstValue_toProst value]

end

/-- A struct is redacted as the object that it stands for, with the same findings in the same order. -/
theorem redactStruct_toProst (deps : External) (double : JsonNumber → UInt64) (members : JsonMap) (path : String) :
    ∃ redacted findings, redactJson deps (.object members) path = (.object redacted, findings) ∧
      redactStruct deps ⟨toProstFields double members⟩ path = (⟨toProstFields double redacted⟩, findings) := by
  refine ⟨(redactJsonObject deps members path).1, (redactJsonObject deps members path).2, ?_, ?_⟩
  · simp only [redactJson]
  · simp only [redactStruct, redactStructFields_toProst]

end Structs

end AttowNexus
