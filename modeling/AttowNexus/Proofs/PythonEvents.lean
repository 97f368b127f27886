import AttowNexus.Library.Checks
import AttowNexus.Model.PythonEvents
import AttowNexus.Proofs.SdkRedaction
import AttowNexus.Proofs.UniversalEvent

/-! # The events that the Python SDK reads

One characterization for each type of field; an event is read when each of its fields is. Redacting an event redacts its
fields, so that what has to be checked a second time is what a redaction can spoil.
-/

namespace AttowNexus

open Checks

namespace Python

section Fields

variable {given : Option Json} {field value : String}

/-- What a field of type `str` reads -/
def ReadsStr (given : Option Json) (default : Option String) (validator : Validator) (value : String) : Prop :=
  given = none ∧ default = some value ∨ given = some (.string value) ∧ validator value = none

theorem strField_eq_ok_iff {default : Option String} {validator : Validator} :
    strField given field default validator = .ok value ↔ ReadsStr given default validator value := by
  rw [ReadsStr]
  cases given with
  | none => cases default <;> simp [strField]
  | some json =>
    cases json with
    | string text =>
      rw [strField]
      cases refused : validator text with
      | none =>
        rw [Except.ok.injEq]
        constructor
        · rintro rfl
          exact .inr ⟨rfl, refused⟩
        · rintro (⟨absent, _⟩ | ⟨same, _⟩)
          · cases absent
          · exact Json.string.inj (Option.some.inj same)
      | some message =>
        refine ⟨nofun, ?_⟩
        rintro (⟨absent, _⟩ | ⟨same, passes⟩)
        · cases absent
        · obtain rfl := Json.string.inj (Option.some.inj same)
          rw [passes] at refused
          cases refused
    | _ => simp [strField]

theorem literalField_eq_ok_iff {allowed : List String} :
    literalField given field allowed = .ok value ↔ given = some (.string value) ∧ value ∈ allowed := by
  cases given with
  | none => simp [literalField]
  | some json =>
    cases json with
    | string text =>
      rw [literalField, Option.some.injEq, Json.string.injEq]
      split_ifs with known
      · rw [Except.ok.injEq]
        exact ⟨fun same => ⟨same, same ▸ List.contains_iff_mem.mp known⟩, And.left⟩
      · exact ⟨nofun, fun ⟨same, member⟩ => absurd (List.contains_iff_mem.mpr (same ▸ member)) known⟩
    | _ => simp [literalField]

theorem optionalStrField_eq_ok_iff {value : Option String} :
    optionalStrField given field = .ok value ↔ given.getD .null = UniversalAgentEvent.ofOptionalStr value := by
  cases given with
  | none => cases value <;> simp [optionalStrField, UniversalAgentEvent.ofOptionalStr]
  | some json => cases json <;> cases value <;> simp [optionalStrField, UniversalAgentEvent.ofOptionalStr]

theorem optionalListField_eq_ok_iff {value : Option (List Json)} :
    optionalListField given field = .ok value ↔ given.getD .null = (value.map .array).getD .null := by
  cases given with
  | none => cases value <;> simp [optionalListField]
  | some json => cases json <;> cases value <;> simp [optionalListField]

theorem optionalDictField_eq_ok_iff {value : Option JsonMap} :
    optionalDictField given field = .ok value ↔ given.getD .null = (value.map .object).getD .null := by
  cases given with
  | none => cases value <;> simp [optionalDictField]
  | some json => cases json <;> cases value <;> simp [optionalDictField]

theorem dictField_eq_ok_iff {value : JsonMap} :
    dictField given field = .ok value ↔ given.getD (.object []) = .object value := by
  cases given with
  | none => simp [dictField]
  | some json => cases json <;> simp [dictField]

theorem strListField_eq_ok_iff {value : List String} :
    strListField given field = .ok value ↔ given.getD (.array []) = .array (value.map .string) := by
  cases given with
  | none => simp [strListField, eq_comm]
  | some json =>
    cases json with
    | array items =>
      rw [strListField, Option.getD_some, Json.array.injEq, ← map_asStr_iff]
      split_ifs with strings
      · simp [strings]
      · simp [strings]
    | _ => simp [strListField]

/-- What `parent_commit_ids` reads -/
def ReadsParents (given : Option Json) (value : List String) : Prop :=
  given.getD .null = .null ∧ value = [] ∨ given = some (.array (value.map .string)) ∧ "" ∉ value

theorem validParentCommitIds_eq_ok_iff {value : List String} :
    validParentCommitIds given = .ok value ↔ ReadsParents given value := by
  rw [ReadsParents]
  cases given with
  | none => simp [validParentCommitIds, eq_comm]
  | some json =>
    cases json with
    | array items =>
      have asked : (Json.array items = .null ∧ value = [] ∨ some (Json.array items) = some (.array (value.map .string)) ∧
          "" ∉ value) ↔ (items.all fun item => item.asStr.any (· ≠ "")) = true ∧
            items.map (fun item => item.asStr.getD "") = value := by
        simp only [map_nonempty_iff, reduceCtorEq, false_and, false_or, Option.some.injEq, Json.array.injEq]
      rw [validParentCommitIds, Option.getD_some, asked]
      split_ifs with full
      · rw [strListField_eq_ok_iff, Option.getD_some, Json.array.injEq, and_iff_right full]
        constructor
        · exact fun strings => (map_asStr_iff.2 strings).2
        · exact fun same => (map_nonempty_iff.1 ⟨full, same⟩).1
      · exact ⟨nofun, fun both => absurd both.1 full⟩
    | _ => simp [validParentCommitIds, eq_comm]

/-- What `timestamp_ms` reads -/
def ReadsTimestamp (given : Option Json) (now value : ℕ) : Prop :=
  given = none ∧ value = now ∨ given = some (.bool true) ∧ value = 1 ∨
    given = some (.number (.posInt value)) ∧ 0 < value

theorem validTimestampMs_eq_ok_iff {now value : ℕ} :
    validTimestampMs given now = .ok value ↔ ReadsTimestamp given now value := by
  rw [ReadsTimestamp]
  cases given with
  | none => simp [validTimestampMs, eq_comm]
  | some json =>
    cases json with
    | bool flag => cases flag <;> simp [validTimestampMs, eq_comm]
    | number number =>
      cases number with
      | posInt ms =>
        rw [validTimestampMs]
        split_ifs with positive
        · simp only [Except.ok.injEq, reduceCtorEq, false_and, Option.some.injEq, Json.number.injEq,
            JsonNumber.posInt.injEq, false_or]
          exact ⟨fun same => ⟨same, same ▸ positive⟩, And.left⟩
        · simp only [reduceCtorEq, false_and, Option.some.injEq, Json.number.injEq, JsonNumber.posInt.injEq, false_or,
            false_iff, not_and]
          exact fun same => same ▸ positive
      | _ => simp [validTimestampMs]
    | _ => simp [validTimestampMs]

end Fields

/-- The events that are read from some data -/
structure Reads (ambient : SdkAmbient) (data : JsonMap) (event : UniversalAgentEvent) : Prop where
  schemaVersion : ReadsStr (data.get "schema_version") (some "nexus.universal.v1") validSchemaVersion event.schemaVersion
  sdkName : ReadsStr (data.get "sdk_name") (some "nexus-ipc") (fun _ => none) event.sdkName
  sdkVersion : ReadsStr (data.get "sdk_version") (some "0.1.0") (fun _ => none) event.sdkVersion
  adapterName : ReadsStr (data.get "adapter_name") (some "generic") (fun _ => none) event.adapterName
  adapterVersion : ReadsStr (data.get "adapter_version") (some "0.1.0") (fun _ => none) event.adapterVersion
  eventId : ReadsStr (data.get "event_id") (some (newId "evt" ambient.eventUuid)) (requiredId "event_id") event.eventId
  runId : ReadsStr (data.get "run_id") none (requiredId "run_id") event.runId
  threadId : ReadsStr (data.get "thread_id") none (requiredId "thread_id") event.threadId
  agentId : ReadsStr (data.get "agent_id") none (requiredId "agent_id") event.agentId
  framework : ReadsStr (data.get "framework") none validFramework event.framework
  frameworkVersion : (data.get "framework_version").getD .null = UniversalAgentEvent.ofOptionalStr event.frameworkVersion
  language : ReadsStr (data.get "language") (some "python") (fun _ => none) event.language
  eventType : data.get "event_type" = some (.string event.eventType) ∧ event.eventType ∈ eventTypes
  channel : ReadsStr (data.get "channel") (some "") validChannel event.channel
  stepName : (data.get "step_name").getD .null = UniversalAgentEvent.ofOptionalStr event.stepName
  nodeName : (data.get "node_name").getD .null = UniversalAgentEvent.ofOptionalStr event.nodeName
  taskName : (data.get "task_name").getD .null = UniversalAgentEvent.ofOptionalStr event.taskName
  toolName : (data.get "tool_name").getD .null = UniversalAgentEvent.ofOptionalStr event.toolName
  input : (data.get "input").getD .null = event.input
  output : (data.get "output").getD .null = event.output
  delta : (data.get "delta").getD .null = event.delta
  messages : (data.get "messages").getD .null = (event.messages.map .array).getD .null
  error : (data.get "error").getD .null = (event.error.map .object).getD .null
  metadata : (data.get "metadata").getD (.object []) = .object event.metadata
  tags : (data.get "tags").getD (.array []) = .array (event.tags.map .string)
  parentCommitIds : ReadsParents (data.get "parent_commit_ids") event.parentCommitIds
  timestampMs : ReadsTimestamp (data.get "timestamp_ms") ambient.now event.timestampMs

theorem modelValidate_eq_ok_iff {ambient : SdkAmbient} {data : JsonMap} {event : UniversalAgentEvent} :
    UniversalAgentEvent.modelValidate ambient data = .ok event ↔ Reads ambient data event := by
  simp only [UniversalAgentEvent.modelValidate, bind_eq_ok_iff, strField_eq_ok_iff, literalField_eq_ok_iff,
    optionalStrField_eq_ok_iff, optionalListField_eq_ok_iff, optionalDictField_eq_ok_iff, dictField_eq_ok_iff,
    strListField_eq_ok_iff, validParentCommitIds_eq_ok_iff, validTimestampMs_eq_ok_iff, Except.ok.injEq]
  constructor
  · rintro ⟨_, schemaVersion, _, sdkName, _, sdkVersion, _, adapterName, _, adapterVersion, _, eventId, _, runId, _,
      threadId, _, agentId, _, framework, _, frameworkVersion, _, language, _, eventType, _, channel, _, stepName, _,
      nodeName, _, taskName, _, toolName, _, messages, _, error, _, metadata, _, tags, _, parents, _, timestamp, rfl⟩
    exact ⟨schemaVersion, sdkName, sdkVersion, adapterName, adapterVersion, eventId, runId, threadId, agentId, framework,
      frameworkVersion, language, eventType, channel, stepName, nodeName, taskName, toolName, rfl, rfl, rfl, messages,
      error, metadata, tags, parents, timestamp⟩
  · intro reads
    refine ⟨_, reads.schemaVersion, _, reads.sdkName, _, reads.sdkVersion, _, reads.adapterName, _, reads.adapterVersion, _,
      reads.eventId, _, reads.runId, _, reads.threadId, _, reads.agentId, _, reads.framework, _, reads.frameworkVersion, _,
      reads.language, _, reads.eventType, _, reads.channel, _, reads.stepName, _, reads.nodeName, _, reads.taskName, _,
      reads.toolName, _, reads.messages, _, reads.error, _, reads.metadata, _, reads.tags, _, reads.parentCommitIds, _,
      reads.timestampMs, ?_⟩
    rw [reads.input, reads.output, reads.delta]

/-- A channel is derived for an event that names none. -/
theorem normalizeEvent_eq_ok_iff {ambient : SdkAmbient} {kwargs : JsonMap} {event : UniversalAgentEvent} :
    normalizeEvent ambient kwargs = .ok event ↔ ∃ read, Reads ambient kwargs read ∧
      event = { read with channel := if read.channel = "" then channelForEvent read.modelDump else read.channel } := by
  simp only [normalizeEvent, bind_eq_ok_iff, modelValidate_eq_ok_iff, Except.ok.injEq]
  refine exists_congr fun read => and_congr_right fun _ => ?_
  split_ifs
  · exact eq_comm
  · exact eq_comm

namespace UniversalAgentEvent

/-- The event with each field redacted -/
def redacted (engine : RegexEngine) (event : UniversalAgentEvent) : UniversalAgentEvent where
  schemaVersion := Sdk.redactText engine event.schemaVersion
  sdkName := Sdk.redactText engine event.sdkName
  sdkVersion := Sdk.redactText engine event.sdkVersion
  adapterName := Sdk.redactText engine event.adapterName
  adapterVersion := Sdk.redactText engine event.adapterVersion
  eventId := Sdk.redactText engine event.eventId
  runId := Sdk.redactText engine event.runId
  threadId := Sdk.redactText engine event.threadId
  agentId := Sdk.redactText engine event.agentId
  framework := Sdk.redactText engine event.framework
  frameworkVersion := event.frameworkVersion.map (Sdk.redactText engine)
  language := Sdk.redactText engine event.language
  eventType := Sdk.redactText engine event.eventType
  channel := Sdk.redactText engine event.channel
  stepName := event.stepName.map (Sdk.redactText engine)
  nodeName := event.nodeName.map (Sdk.redactText engine)
  taskName := event.taskName.map (Sdk.redactText engine)
  toolName := event.toolName.map (Sdk.redactText engine)
  input := Sdk.redactValue engine event.input
  output := Sdk.redactValue engine event.output
  delta := Sdk.redactValue engine event.delta
  messages := event.messages.map (Sdk.redactItems engine)
  error := event.error.map (Sdk.redactMembers engine)
  metadata := Sdk.redactMembers engine event.metadata
  tags := event.tags.map (Sdk.redactText engine)
  parentCommitIds := event.parentCommitIds.map (Sdk.redactText engine)
  timestampMs := event.timestampMs

variable {engine : RegexEngine} {ambient : SdkAmbient} {event clean : UniversalAgentEvent}

private theorem redactValue_ofOptionalStr {value : Option String} :
    Sdk.redactValue engine (ofOptionalStr value) = ofOptionalStr (value.map (Sdk.redactText engine)) := by
  cases value <;> rfl

private theorem redactValue_ofMessages {value : Option (List Json)} :
    Sdk.redactValue engine ((value.map .array).getD .null) = ((value.map (Sdk.redactItems engine)).map .array).getD .null := by
  cases value <;> rfl

private theorem redactValue_ofError {value : Option JsonMap} :
    Sdk.redactValue engine ((value.map .object).getD .null) =
      ((value.map (Sdk.redactMembers engine)).map .object).getD .null := by
  cases value <;> rfl

/-- None of the names of the fields is secret. -/
theorem redactMembers_modelDump : Sdk.redactMembers engine event.modelDump = (event.redacted engine).modelDump := by
  have names : ∀ key ∈ event.modelDump.map (·.1), Sdk.secretKey key = false := by
    simp only [modelDump, List.map_cons, List.map_nil]
    decide
  rw [redactMembers_of_plain names]
  simp only [modelDump, List.map_cons, List.map_nil, redactValue_ofOptionalStr, redactValue_ofMessages, redactValue_ofError,
    Sdk.redactValue, redactItems_map_string]
  rfl

/-- The checks that an event has passed when it was read -/
structure Valid (event : UniversalAgentEvent) : Prop where
  schemaVersion : validSchemaVersion event.schemaVersion = none
  eventId : requiredId "event_id" event.eventId = none
  runId : requiredId "run_id" event.runId = none
  threadId : requiredId "thread_id" event.threadId = none
  agentId : requiredId "agent_id" event.agentId = none
  framework : validFramework event.framework = none
  eventType : event.eventType ∈ eventTypes
  channel : validChannel event.channel = none
  parentCommitIds : "" ∉ event.parentCommitIds
  timestampMs : 0 < event.timestampMs

theorem readsStr_some_iff {text value : String} {default : Option String} {validator : Validator} :
    ReadsStr (some (.string text)) default validator value ↔ value = text ∧ validator text = none := by
  simp only [ReadsStr, reduceCtorEq, false_and, false_or, Option.some.injEq, Json.string.injEq]
  exact ⟨fun ⟨same, passes⟩ => ⟨same.symm, same ▸ passes⟩, fun ⟨same, passes⟩ => ⟨same.symm, same ▸ passes⟩⟩

private theorem ofOptionalStr_injective {value other : Option String} (same : ofOptionalStr value = ofOptionalStr other) :
    other = value := by
  cases value <;> cases other <;> simp_all [ofOptionalStr]

private theorem ofMessages_injective {value other : Option (List Json)}
    (same : (value.map Json.array).getD .null = (other.map .array).getD .null) : other = value := by
  cases value <;> cases other <;> simp_all

private theorem ofError_injective {value other : Option JsonMap}
    (same : (value.map Json.object).getD .null = (other.map .object).getD .null) : other = value := by
  cases value <;> cases other <;> simp_all

theorem map_string_injective {texts others : List String}
    (same : Json.array (texts.map .string) = .array (others.map .string)) : others = texts :=
  (List.map_injective_iff.mpr (fun _ _ => Json.string.inj) (Json.array.inj same)).symm

/-- What was dumped is read back, if it passes the checks. -/
theorem reads_modelDump_iff : Reads ambient event.modelDump clean ↔ clean = event ∧ event.Valid := by
  constructor
  · intro reads
    have parents : clean.parentCommitIds = event.parentCommitIds ∧ "" ∉ clean.parentCommitIds := by
      rcases reads.parentCommitIds with ⟨wrong, _⟩ | ⟨same, full⟩
      · cases wrong
      · exact ⟨map_string_injective (Option.some.inj same), full⟩
    have timestamp : clean.timestampMs = event.timestampMs ∧ 0 < clean.timestampMs := by
      rcases reads.timestampMs with ⟨wrong, _⟩ | ⟨wrong, _⟩ | ⟨same, positive⟩
      · cases wrong
      · cases wrong
      · exact ⟨(JsonNumber.posInt.inj (Json.number.inj (Option.some.inj same))).symm, positive⟩
    have schemaVersion := readsStr_some_iff.1 reads.schemaVersion
    have eventId := readsStr_some_iff.1 reads.eventId
    have runId := readsStr_some_iff.1 reads.runId
    have threadId := readsStr_some_iff.1 reads.threadId
    have agentId := readsStr_some_iff.1 reads.agentId
    have framework := readsStr_some_iff.1 reads.framework
    have channel := readsStr_some_iff.1 reads.channel
    have eventType : event.eventType = clean.eventType := Json.string.inj (Option.some.inj reads.eventType.1)
    refine ⟨?_, schemaVersion.2, eventId.2, runId.2, threadId.2, agentId.2, framework.2, eventType ▸ reads.eventType.2,
      channel.2, parents.1 ▸ parents.2, timestamp.1 ▸ timestamp.2⟩
    apply UniversalAgentEvent.ext
    · exact schemaVersion.1
    · exact (readsStr_some_iff.1 reads.sdkName).1
    · exact (readsStr_some_iff.1 reads.sdkVersion).1
    · exact (readsStr_some_iff.1 reads.adapterName).1
    · exact (readsStr_some_iff.1 reads.adapterVersion).1
    · exact eventId.1
    · exact runId.1
    · exact threadId.1
    · exact agentId.1
    · exact framework.1
    · exact ofOptionalStr_injective reads.frameworkVersion
    · exact (readsStr_some_iff.1 reads.language).1
    · exact eventType.symm
    · exact channel.1
    · exact ofOptionalStr_injective reads.stepName
    · exact ofOptionalStr_injective reads.nodeName
    · exact ofOptionalStr_injective reads.taskName
    · exact ofOptionalStr_injective reads.toolName
    · exact reads.input.symm
    · exact reads.output.symm
    · exact reads.delta.symm
    · exact ofMessages_injective reads.messages
    · exact ofError_injective reads.error
    · exact (Json.object.inj reads.metadata).symm
    · exact map_string_injective reads.tags
    · exact parents.1
    · exact timestamp.1
  · rintro ⟨rfl, valid⟩
    have given : ∀ {text : String} {default : Option String} {validator : Validator}, validator text = none →
        ReadsStr (some (.string text)) default validator text := fun passes => .inr ⟨rfl, passes⟩
    exact ⟨given valid.schemaVersion, given rfl, given rfl, given rfl, given rfl, given valid.eventId, given valid.runId,
      given valid.threadId, given valid.agentId, given valid.framework, rfl, given rfl, ⟨rfl, valid.eventType⟩,
      given valid.channel, rfl, rfl, rfl, rfl, rfl, rfl, rfl, rfl, rfl, rfl, rfl, .inr ⟨rfl, valid.parentCommitIds⟩,
      .inr (.inr ⟨rfl, valid.timestampMs⟩)⟩

/-- A redacted event has to pass the checks again. -/
theorem redactEvent_eq_ok_iff :
    redactEvent engine ambient event = .ok clean ↔ (event.redacted engine).Valid ∧ clean = event.redacted engine := by
  rw [redactEvent, modelValidate_eq_ok_iff, redactMembers_modelDump, reads_modelDump_iff, and_comm]

/-- A payload is the dump of the redacted event. -/
theorem eventToJsonPayload_eq_ok_iff {payload : JsonMap} :
    eventToJsonPayload engine ambient event = .ok payload ↔
      (event.redacted engine).Valid ∧ payload = (event.redacted engine).modelDumpExcludeNone := by
  simp only [eventToJsonPayload, redactEvent_eq_ok_iff, bind_eq_ok_iff, Except.ok.injEq]
  constructor
  · rintro ⟨_, ⟨valid, rfl⟩, rfl⟩
    exact ⟨valid, rfl⟩
  · rintro ⟨valid, rfl⟩
    exact ⟨_, ⟨valid, rfl⟩, rfl⟩

end UniversalAgentEvent

end Python

end AttowNexus
