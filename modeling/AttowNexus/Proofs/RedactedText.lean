import AttowNexus.Library.Regex.Engine
import AttowNexus.Proofs.DatabaseUrl
import AttowNexus.Proofs.Payload

/-! # What redaction leaves

A text that went through the eight patterns matches none of them. So no string value of a redacted document or struct
does, and the marker stands under every secret-looking key.
-/

namespace AttowNexus

open Regex

/-- `Regex::replace_all` puts the marker in place of the leftmost matches that do not overlap. -/
def External.ReplacesLeftmost (deps : External) (alphabet : Alphabet) : Prop :=
  ∀ pattern ∈ redactionPatterns, ∀ text, Replaced alphabet pattern.2 redactionMarker.toList [] text.toList
    (deps.replaceAll pattern.2 text redactionMarker).toList

/-- The functions with a working engine -/
def External.withEngine (deps : External) : External :=
  { deps with
    replaceAll := fun regex text marker => String.ofList (Regex.replaceAll .ascii regex marker.toList text.toList) }

theorem withEngine_leftmost (deps : External) : deps.withEngine.ReplacesLeftmost .ascii := by
  have checked : ∀ pattern ∈ redactionPatterns, pattern.2.consumes = true ∧ pattern.2.proper = true := by decide
  intro pattern member text
  obtain ⟨consumes, proper⟩ := checked pattern member
  change Replaced _ _ _ _ _ (String.ofList (replaceAll .ascii pattern.2 redactionMarker.toList text.toList)).toList
  rw [String.toList_ofList]
  exact replaceAll_replaced consumes proper

/-- None of the patterns matches in the text. -/
def CleanText (alphabet : Alphabet) (text : String) : Prop :=
  ∀ pattern ∈ redactionPatterns, Free alphabet pattern.2 text.toList

variable {deps : External} {alphabet : Alphabet}

section Texts

theorem wide_survive : ∀ wide ∈ [bearerToken, pemBlock], ∀ regex, Survives alphabet redactionMarker.toList wide regex :=
  List.forall_mem_cons.mpr ⟨bearerToken_survives, List.forall_mem_singleton.mpr pemBlock_survives⟩

theorem patterns_survive : (redactionPatterns.map (·.2)).Pairwise (Survives alphabet redactionMarker.toList) := by
  rw [redactionPatterns_eq, List.pairwise_append, List.pairwise_append]
  refine ⟨?_, ⟨?_, List.pairwise_singleton _ _, ?_⟩, fun wide member regex _ => wide_survive wide member regex⟩
  · exact List.pairwise_of_forall_mem_list fun wide member regex _ => wide_survive wide member regex
  · exact List.pairwise_of_forall_mem_list fun token member regex framed =>
      tokens_survive (tokens_framed regex framed) token member
  · exact fun token member => List.forall_mem_singleton.mpr (tokens_survive databaseUrlPassword_framed token member)

theorem patterns_survive_self : ∀ regex ∈ redactionPatterns.map (·.2), Survives alphabet redactionMarker.toList regex regex := by
  rw [redactionPatterns_eq, List.forall_mem_append, List.forall_mem_append]
  refine ⟨fun wide member => wide_survive wide member wide, fun token member => ?_, ?_⟩
  · exact tokens_survive (tokens_framed token member) token member
  · exact List.forall_mem_singleton.mpr databaseUrlPassword_survives

/-- The text alone goes through one replacement after the other. -/
theorem redactText_fst (text path : String) : (redactText deps text path).1 =
    redactionPatterns.foldl (fun text pattern => deps.replaceAll pattern.2 text redactionMarker) text := by
  have passes : ∀ (patterns : List (String × Regex)) (state : String × List RedactionFinding),
      (patterns.foldl (fun (state : String × List RedactionFinding) pattern =>
        if deps.replaceAll pattern.2 state.1 redactionMarker ≠ state.1 then
          (deps.replaceAll pattern.2 state.1 redactionMarker, state.2 ++ [redactionFinding path pattern.1])
        else state) state).1 =
      patterns.foldl (fun text pattern => deps.replaceAll pattern.2 text redactionMarker) state.1 := by
    intro patterns
    induction patterns with
    | nil => exact fun _ => rfl
    | cons pattern rest ih =>
      intro state
      rw [List.foldl_cons, List.foldl_cons, ih]
      split_ifs with changed
      · rfl
      · rw [not_not.mp changed]
  exact passes redactionPatterns (text, [])

theorem redactText_clean (leftmost : deps.ReplacesLeftmost alphabet) (text path : String) :
    CleanText alphabet (redactText deps text path).1 := by
  have stages : ∀ (patterns : List (String × Regex)) (text : String),
      (patterns.foldl (fun text pattern => deps.replaceAll pattern.2 text redactionMarker) text).toList =
      (patterns.map (·.2)).foldl
        (fun chars regex => (deps.replaceAll regex (String.ofList chars) redactionMarker).toList) text.toList := by
    intro patterns
    induction patterns with
    | nil => exact fun _ => rfl
    | cons pattern rest ih =>
      intro text
      rw [List.foldl_cons, List.map_cons, List.foldl_cons, ih, String.ofList_toList]
  intro pattern member
  rw [redactText_fst, stages]
  refine free_of_stages ?_ patterns_survive_self patterns_survive text.toList pattern.2 (List.mem_map_of_mem member)
  refine List.forall_mem_map.mpr fun pattern member chars => ?_
  have replaced := leftmost pattern member (String.ofList chars)
  rwa [String.toList_ofList] at replaced

/-- Every pattern asks for a character that the marker lacks. -/
theorem marker_clean : CleanText alphabet redactionMarker := by
  have leaves : ∀ pattern ∈ redactionPatterns, pattern.2.mustLeave redactionMarker.toList false = true := by decide
  rintro pattern member left middle right split matched
  obtain ⟨c, inside, foreign⟩ :=
    matched.exists_notMem (leaves pattern member) (alphabet.isSpace_of_all (by decide))
  rw [split] at foreign
  exact foreign (List.mem_append_right _ (List.mem_append_left _ inside))

end Texts

section Documents

variable (alphabet)

mutual

/-- No string value matches a pattern, and the marker stands under every secret-looking key. -/
def Json.Clean : Json → Prop
  | .object members => CleanMembers members
  | .array items => CleanItems items
  | .string text => CleanText alphabet text
  | _ => True

def CleanItems : List Json → Prop
  | [] => True
  | item :: rest => Json.Clean item ∧ CleanItems rest

def CleanMembers : List (String × Json) → Prop
  | [] => True
  | (key, value) :: rest =>
      (secretKeyName key = true → value = .string redactionMarker) ∧ Json.Clean value ∧ CleanMembers rest

end

mutual

/-- The same for the values of a struct. -/
def ProstValue.Clean : ProstValue → Prop
  | .structValue fields => CleanFields fields
  | .listValue values => CleanValues values
  | .stringValue text => CleanText alphabet text
  | _ => True

def CleanValues : List ProstValue → Prop
  | [] => True
  | value :: rest => ProstValue.Clean value ∧ CleanValues rest

def CleanFields : List (String × ProstValue) → Prop
  | [] => True
  | (key, value) :: rest =>
      (secretKeyName key = true → value = .stringValue redactionMarker) ∧ ProstValue.Clean value ∧ CleanFields rest

end

variable {alphabet}

mutual

theorem redactJson_clean (leftmost : deps.ReplacesLeftmost alphabet) (value : Json) (path : String) :
    (redactJson deps value path).1.Clean alphabet := by
  cases value with
  | object members =>
    simp only [redactJson, Json.Clean]
    exact redactJsonObject_clean leftmost members path
  | array items =>
    simp only [redactJson, Json.Clean]
    exact redactJsonItems_clean leftmost items path 0
  | string text =>
    simp only [redactJson, Json.Clean]
    exact redactText_clean leftmost text path
  | null => simp only [redactJson, Json.Clean]
  | bool flag => simp only [redactJson, Json.Clean]
  | number value => simp only [redactJson, Json.Clean]

theorem redactJsonItems_clean (leftmost : deps.ReplacesLeftmost alphabet) (items : List Json) (path : String) (idx : ℕ) :
    CleanItems alphabet (redactJsonItems deps items path idx).1 := by
  cases items with
  | nil => simp only [redactJsonItems, CleanItems]
  | cons item rest =>
    simp only [redactJsonItems, CleanItems]
    exact ⟨redactJson_clean leftmost item _, redactJsonItems_clean leftmost rest path (idx + 1)⟩

theorem redactJsonObject_clean (leftmost : deps.ReplacesLeftmost alphabet) (members : List (String × Json)) (path : String) :
    CleanMembers alphabet (redactJsonObject deps members path).1 := by
  match members with
  | [] => simp only [redactJsonObject, CleanMembers]
  | (key, value) :: rest =>
    simp only [redactJsonObject, CleanMembers]
    by_cases secret : secretKeyName key = true
    · simp only [if_pos secret, Json.Clean]
      exact ⟨fun _ => trivial, marker_clean, redactJsonObject_clean leftmost rest path⟩
    · simp only [if_neg secret]
      exact ⟨fun named => absurd named secret, redactJson_clean leftmost value _, redactJsonObject_clean leftmost rest path⟩

end

mutual

theorem redactProstValue_clean (leftmost : deps.ReplacesLeftmost alphabet) (value : ProstValue) (path : String) :
    (redactProstValue deps value path).1.Clean alphabet := by
  cases value with
  | structValue fields =>
    simp only [redactProstValue, ProstValue.Clean]
    exact redactStructFields_clean leftmost fields path
  | listValue values =>
    simp only [redactProstValue, ProstValue.Clean]
    exact redactProstItems_clean leftmost values path 0
  | stringValue text =>
    simp only [redactProstValue, ProstValue.Clean]
    exact redactText_clean leftmost text path
  | unset => simp only [redactProstValue, ProstValue.Clean]
  | nullValue code => simp only [redactProstValue, ProstValue.Clean]
  | numberValue bits => simp only [redactProstValue, ProstValue.Clean]
  | boolValue flag => simp only [redactProstValue, ProstValue.Clean]

theorem redactProstItems_clean (leftmost : deps.ReplacesLeftmost alphabet) (values : List ProstValue) (path : String)
    (idx : ℕ) : CleanValues alphabet (redactProstItems deps values path idx).1 := by
  cases values with
  | nil => simp only [redactProstItems, CleanValues]
  | cons value rest =>
    simp only [redactProstItems, CleanValues]
    exact ⟨redactProstValue_clean leftmost value _, redactProstItems_clean leftmost rest path (idx + 1)⟩

theorem redactStructFields_clean (leftmost : deps.ReplacesLeftmost alphabet) (fields : List (String × ProstValue))
    (path : String) : CleanFields alphabet (redactStructFields deps fields path).1 := by
  match fields with
  | [] => simp only [redactStructFields, CleanFields]
  | (key, value) :: rest =>
    simp only [redactStructFields, CleanFields]
    by_cases secret : secretKeyName key = true
    · simp only [if_pos secret, ProstValue.Clean]
      exact ⟨fun _ => trivial, marker_clean, redactStructFields_clean leftmost rest path⟩
    · simp only [if_neg secret]
      exact ⟨fun named => absurd named secret, redactProstValue_clean leftmost value _,
        redactStructFields_clean leftmost rest path⟩

end

end Documents

section Payloads

/-- What redaction may leave of the content of a payload: clean struct values, and data that holds a clean document or a
clean text, if it held one, or that has moved to an artifact. -/
structure RedactedFrom (deps : External) (alphabet : Alphabet) (given kept : Payload) : Prop where
  structData : ∀ value, kept.structData = some value → CleanFields alphabet value.fields
  json : (PayloadEncoding.tryFrom given.encoding).getD .unspecified = .json → ∀ value,
    deps.fromSlice given.data = some value → kept.data = [] ∨ ∃ clean, Json.Clean alphabet clean ∧ kept.data = deps.toVec clean
  text : (PayloadEncoding.tryFrom given.encoding).getD .unspecified = .text → ∀ text,
    fromUtf8 given.data = some text → kept.data = [] ∨ ∃ clean, CleanText alphabet clean ∧ kept.data = utf8Bytes clean

theorem redactData_structData (payload : Payload) : (redactData deps payload).1.structData = payload.structData := by
  simp only [redactData, Payload.withData]
  split
  · split <;> simp only
  · split <;> simp only
  · simp only

theorem redactPayload_redactedFrom (leftmost : deps.ReplacesLeftmost alphabet) (given : Payload) :
    RedactedFrom deps alphabet given (redactPayload deps given).1 where
  structData value kept := by
    rw [redactPayload] at kept
    cases structured : given.structData with
    | none =>
      simp only [structured, redactData_structData] at kept
      cases kept
    | some value =>
      simp only [structured, redactData_structData, Option.some.injEq] at kept
      rw [← kept, redactStruct]
      exact redactStructFields_clean leftmost value.fields "$"
  json encoded value parsed := by
    refine .inr ⟨(redactJson deps value.1 "$").1, redactJson_clean leftmost value.1 "$", ?_⟩
    simp only [redactPayload, redactData, encoded, parsed, Payload.withData]
  text encoded text decoded := by
    refine .inr ⟨(redactText deps text "$").1, redactText_clean leftmost text "$", ?_⟩
    simp only [redactPayload, redactData, encoded, decoded, Payload.withData]

/-- What `prepare_payload` hands on is redacted, whether its data stays or moves. -/
theorem preparedPayload_redactedFrom (leftmost : deps.ReplacesLeftmost alphabet) {config : Config}
    (enabled : config.redactionEnabled = true) (given : Payload) :
    RedactedFrom deps alphabet given (AppState.preparedPayload deps config (some given)).1 := by
  have redacted : RedactedFrom deps alphabet given (AppState.redactedPayload deps config (some given)).1 := by
    simp only [AppState.redactedPayload, Option.getD_some, if_pos enabled]
    obtain ⟨structData, json, text⟩ := redactPayload_redactedFrom leftmost
      { given with
        contentHash := if given.contentHash = "" then deps.blake3Hex given.data else given.contentHash
        sizeBytes := given.data.length }
    exact ⟨structData, json, text⟩
  rw [AppState.preparedPayload]
  generalize AppState.redactedPayload deps config (some given) = prepared at redacted ⊢
  obtain ⟨kept, report⟩ := prepared
  by_cases large : config.maxInlinePayloadBytes < kept.data.length
  · simp only [if_pos large]
    exact ⟨redacted.structData, fun _ _ _ => .inl rfl, fun _ _ _ => .inl rfl⟩
  · simp only [if_neg large]
    exact redacted

end Payloads

end AttowNexus
