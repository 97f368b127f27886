import AttowNexus.Model.TypeScriptEvents
import AttowNexus.Proofs.PythonEvents

/-! # The events that the TypeScript SDK reads

As for the Python SDK, field by field. A payload takes each of its properties from one property of the event, written
out and redacted.
-/

namespace AttowNexus

open Checks

namespace TypeScript

section Fields

variable {given : Option Json} {field value : String}

theorem stringValue_eq_ok_iff {fallback : Option String} :
    stringValue given field fallback = .ok value ↔
      orElse given (fallback.map .string) = some (.string value) ∧ value ≠ "" := by
  rw [stringValue]
  cases orElse given (fallback.map .string) with
  | none => simp
  | some json =>
    cases json with
    | string text =>
      simp only [Option.some.injEq, Json.string.injEq]
      split_ifs with empty
      · exact ⟨nofun, fun ⟨same, full⟩ => absurd (same ▸ empty) full⟩
      · rw [Except.ok.injEq]
        exact ⟨fun same => ⟨same, same ▸ empty⟩, And.left⟩
    | _ => simp

/-- What an optional string reads -/
def ReadsOptional (given : Option Json) : Option String → Prop
  | none => given.getD .null = .null ∨ given = some (.string "")
  | some text => given = some (.string text) ∧ text ≠ ""

theorem optionalString_eq_ok_iff {value : Option String} : optionalString given = .ok value ↔ ReadsOptional given value := by
  cases given with
  | none => cases value <;> simp [optionalString, ReadsOptional]
  | some json =>
    cases json with
    | string text =>
      rw [optionalString, Except.ok.injEq]
      split_ifs with empty
      · cases value with
        | none => simp [ReadsOptional, empty]
        | some other =>
          refine iff_of_false nofun fun ⟨same, full⟩ => full ?_
          rw [← Json.string.inj (Option.some.inj same), empty]
      · cases value with
        | none => simp [ReadsOptional, empty]
        | some other =>
          simp only [ReadsOptional, Option.some.injEq, Json.string.injEq]
          exact ⟨fun same => ⟨same, same ▸ empty⟩, And.left⟩
    | _ => cases value <;> simp [optionalString, ReadsOptional]

theorem eventTypeValue_eq_ok_iff : eventTypeValue given = .ok value ↔ given = some (.string value) ∧ value ∈ eventTypes := by
  cases given with
  | none => simp [eventTypeValue]
  | some json =>
    cases json with
    | string text =>
      rw [eventTypeValue, Option.some.injEq, Json.string.injEq]
      split_ifs with known
      · rw [Except.ok.injEq]
        exact ⟨fun same => ⟨same, same ▸ List.contains_iff_mem.mp known⟩, And.left⟩
      · exact ⟨nofun, fun ⟨same, member⟩ => absurd (List.contains_iff_mem.mpr (same ▸ member)) known⟩
    | _ => simp [eventTypeValue]

theorem optionalMessages_eq_ok_iff {value : Option (List Json)} :
    optionalMessages given = .ok value ↔ given.getD .null = (value.map .array).getD .null := by
  cases given with
  | none => cases value <;> simp [optionalMessages]
  | some json => cases json <;> cases value <;> simp [optionalMessages]

theorem optionalRecord_eq_ok_iff {value : Option JsonMap} :
    optionalRecord given field = .ok value ↔ given.getD .null = (value.map .object).getD .null := by
  cases given with
  | none => cases value <;> simp [optionalRecord]
  | some json => cases json <;> cases value <;> simp [optionalRecord, recordValue, Except.map]

/-- What a record that may be left out reads -/
def ReadsRecord (given : Option Json) (value : JsonMap) : Prop :=
  given.getD .null = .null ∧ value = [] ∨ given = some (.object value)

theorem recordValue_eq_ok_iff {value : JsonMap} : recordValue given field [] = .ok value ↔ ReadsRecord given value := by
  rw [ReadsRecord]
  cases given with
  | none => simp [recordValue, eq_comm]
  | some json => cases json <;> simp [recordValue, eq_comm]

theorem stringArray_eq_ok_iff {value : List String} :
    stringArray given field [] = .ok value ↔ Python.ReadsParents given value := by
  rw [Python.ReadsParents]
  cases given with
  | none => simp [stringArray, eq_comm]
  | some json =>
    cases json with
    | array items =>
      have asked : (Json.array items = .null ∧ value = [] ∨ some (Json.array items) = some (.array (value.map .string)) ∧
          "" ∉ value) ↔ (items.all fun item => item.asStr.any (· ≠ "")) = true ∧
            items.map (fun item => item.asStr.getD "") = value := by
        simp only [map_nonempty_iff, reduceCtorEq, false_and, false_or, Option.some.injEq, Json.array.injEq]
      rw [stringArray, Option.getD_some, asked]
      split_ifs with full
      · rw [Except.ok.injEq, and_iff_right full]
      · exact iff_of_false (by rintro ⟨⟩) fun both => absurd both.1 full
    | _ => simp [stringArray, eq_comm]

theorem integerValue_eq_ok_iff {numbers : DoubleFormat} {fallback : ℕ} {value : JsonNumber} :
    integerValue numbers given field fallback = .ok value ↔
      orElse given (some (.number (.posInt fallback))) = some (.number value) ∧ numbers.isInteger value = true := by
  rw [integerValue]
  cases orElse given (some (.number (.posInt fallback))) with
  | none => simp
  | some json =>
    cases json with
    | number number =>
      simp only [Option.some.injEq, Json.number.injEq]
      split_ifs with whole
      · rw [Except.ok.injEq]
        exact ⟨fun same => ⟨same, same ▸ whole⟩, And.left⟩
      · exact ⟨nofun, fun ⟨same, integer⟩ => absurd (same ▸ integer) whole⟩
    | _ => simp

end Fields

/-- The property under its camel case name, or else under its snake case name -/
def readBoth (input : JsonMap) (camel snake : String) : Option Json := orElse (input.get camel) (input.get snake)

/-- The events that are read from some data -/
structure Reads (numbers : DoubleFormat) (ambient : SdkAmbient) (data : JsonMap) (event : UniversalAgentEvent) : Prop where
  schemaVersion : orElse (readBoth data "schemaVersion" "schema_version") (some (.string "nexus.universal.v1")) =
    some (.string event.schemaVersion) ∧ event.schemaVersion ≠ ""
  sdkName : orElse (readBoth data "sdkName" "sdk_name") (some (.string "@nexus-ipc/sdk")) =
    some (.string event.sdkName) ∧ event.sdkName ≠ ""
  sdkVersion : orElse (readBoth data "sdkVersion" "sdk_version") (some (.string "0.1.0")) =
    some (.string event.sdkVersion) ∧ event.sdkVersion ≠ ""
  adapterName : orElse (readBoth data "adapterName" "adapter_name") (some (.string "generic")) =
    some (.string event.adapterName) ∧ event.adapterName ≠ ""
  adapterVersion : orElse (readBoth data "adapterVersion" "adapter_version") (some (.string "0.1.0")) =
    some (.string event.adapterVersion) ∧ event.adapterVersion ≠ ""
  eventId : orElse (readBoth data "eventId" "event_id")
    (some (.string ("evt_" ++ String.ofList (ambient.randomId.map fun digit => Nat.digitChar digit.val)))) =
    some (.string event.eventId) ∧ event.eventId ≠ ""
  runId : orElse (readBoth data "runId" "run_id") none = some (.string event.runId) ∧ event.runId ≠ ""
  threadId : orElse (readBoth data "threadId" "thread_id") none = some (.string event.threadId) ∧ event.threadId ≠ ""
  agentId : orElse (readBoth data "agentId" "agent_id") none = some (.string event.agentId) ∧ event.agentId ≠ ""
  framework : orElse (data.get "framework") none = some (.string event.framework) ∧ event.framework ≠ ""
  frameworkVersion : ReadsOptional (readBoth data "frameworkVersion" "framework_version") event.frameworkVersion
  language : orElse (data.get "language") (some (.string "typescript")) = some (.string event.language) ∧
    event.language ≠ ""
  eventType : readBoth data "eventType" "event_type" = some (.string event.eventType) ∧ event.eventType ∈ eventTypes
  channel : ∃ channel, ReadsOptional (data.get "channel") channel ∧ event.channel = channel.getD ""
  stepName : ReadsOptional (readBoth data "stepName" "step_name") event.stepName
  nodeName : ReadsOptional (readBoth data "nodeName" "node_name") event.nodeName
  taskName : ReadsOptional (readBoth data "taskName" "task_name") event.taskName
  toolName : ReadsOptional (readBoth data "toolName" "tool_name") event.toolName
  input : data.get "input" = event.input
  output : data.get "output" = event.output
  delta : data.get "delta" = event.delta
  messages : (data.get "messages").getD .null = (event.messages.map .array).getD .null
  error : (data.get "error").getD .null = (event.error.map .object).getD .null
  metadata : ReadsRecord (data.get "metadata") event.metadata
  tags : Python.ReadsParents (data.get "tags") event.tags
  parentCommitIds : Python.ReadsParents (readBoth data "parentCommitIds" "parent_commit_ids") event.parentCommitIds
  timestampMs : orElse (readBoth data "timestampMs" "timestamp_ms") (some (.number (.posInt ambient.now))) =
    some (.number event.timestampMs) ∧ numbers.isInteger event.timestampMs = true

variable {engine : RegexEngine} {numbers : DoubleFormat} {ambient : SdkAmbient} {data : JsonMap}
  {event : UniversalAgentEvent}

theorem readEvent_eq_ok_iff : readEvent numbers ambient data = .ok event ↔ Reads numbers ambient data event := by
  simp only [readEvent, bind_eq_ok_iff, stringValue_eq_ok_iff, optionalString_eq_ok_iff, eventTypeValue_eq_ok_iff,
    optionalMessages_eq_ok_iff, optionalRecord_eq_ok_iff, recordValue_eq_ok_iff, stringArray_eq_ok_iff,
    integerValue_eq_ok_iff, Except.ok.injEq]
  constructor
  · rintro ⟨_, schemaVersion, _, sdkName, _, sdkVersion, _, adapterName, _, adapterVersion, _, eventId, _, runId, _,
      threadId, _, agentId, _, framework, _, frameworkVersion, _, language, _, eventType, _, channel, _, stepName, _,
      nodeName, _, taskName, _, toolName, _, messages, _, error, _, metadata, _, tags, _, parents, _, timestamp, rfl⟩
    exact ⟨schemaVersion, sdkName, sdkVersion, adapterName, adapterVersion, eventId, runId, threadId, agentId, framework,
      frameworkVersion, language, eventType, ⟨_, channel, rfl⟩, stepName, nodeName, taskName, toolName, rfl, rfl, rfl,
      messages, error, metadata, tags, parents, timestamp⟩
  · intro reads
    obtain ⟨channel, read, same⟩ := reads.channel
    refine ⟨_, reads.schemaVersion, _, reads.sdkName, _, reads.sdkVersion, _, reads.adapterName, _, reads.adapterVersion, _,
      reads.eventId, _, reads.runId, _, reads.threadId, _, reads.agentId, _, reads.framework, _, reads.frameworkVersion, _,
      reads.language, _, reads.eventType, _, read, _, reads.stepName, _, reads.nodeName, _, reads.taskName, _,
      reads.toolName, _, reads.messages, _, reads.error, _, reads.metadata, _, reads.tags, _, reads.parentCommitIds, _,
      reads.timestampMs, ?_⟩
    rw [reads.input, reads.output, reads.delta, ← same]

/-- The checks at the end of `normalizeEvent` -/
structure Valid (numbers : DoubleFormat) (event : UniversalAgentEvent) : Prop where
  schemaVersion : event.schemaVersion = "nexus.universal.v1"
  eventId : IsId event.eventId
  runId : IsId event.runId
  threadId : IsId event.threadId
  agentId : IsId event.agentId
  framework : event.framework ∈ frameworks
  channel : IsChannel event.channel
  timestampMs : numbers.isInteger event.timestampMs = true ∧ numbers.isPositive event.timestampMs = true

theorem validateId_eq_ok_iff {field value : String} {u : Unit} : validateId field value = .ok u ↔ IsId value := by
  rw [validateId, ite_error_eq_ok_iff, ite_error_eq_ok_iff, ← isMatch_idRe, Bool.not_eq_false]
  constructor
  · exact fun ⟨_, named, _⟩ => named
  · refine fun named => ⟨?_, named, rfl⟩
    rintro rfl
    exact (isMatch_idRe.1 named).1 rfl

theorem validateEvent_eq_ok_iff {u : Unit} : validateEvent numbers event = .ok u ↔ Valid numbers event := by
  simp only [validateEvent, ite_error_eq_ok_iff, bind_eq_ok_iff, validateId_eq_ok_iff, isMatch_channelRe,
    List.contains_iff_mem, Bool.not_eq_false, not_not, not_or]
  constructor
  · rintro ⟨schemaVersion, _, eventId, _, runId, _, threadId, _, agentId, framework, channel, timestamp, _⟩
    exact ⟨schemaVersion, eventId, runId, threadId, agentId, framework, channel, timestamp⟩
  · intro valid
    exact ⟨valid.schemaVersion, (), valid.eventId, (), valid.runId, (), valid.threadId, (), valid.agentId, valid.framework,
      valid.channel, valid.timestampMs, trivial⟩

theorem normalizeEvent_eq_ok_iff {normalized : UniversalAgentEvent} :
    normalizeEvent numbers ambient data = .ok normalized ↔ ∃ event, Reads numbers ambient data event ∧
      normalized = { event with channel := channelForEvent event } ∧ Valid numbers normalized := by
  simp only [normalizeEvent, bind_eq_ok_iff, readEvent_eq_ok_iff, validateEvent_eq_ok_iff, Except.ok.injEq]
  constructor
  · rintro ⟨event, reads, _, valid, rfl⟩
    exact ⟨event, reads, rfl, valid⟩
  · rintro ⟨event, reads, rfl, valid⟩
    exact ⟨event, reads, (), valid, rfl⟩

section Payload

/-- With distinct keys, leaving out what is not there leaves out nothing else. -/
theorem get_filterMap {key : String} {entries : List (String × Option Json)} {value : Option Json}
    (distinct : (entries.map (·.1)).Nodup) (member : (key, value) ∈ entries) :
    JsonMap.get key (entries.filterMap fun entry => entry.2.map (Prod.mk entry.1)) = value := by
  have absent : ∀ rest : List (String × Option Json), key ∉ rest.map (·.1) →
      JsonMap.get key (rest.filterMap fun entry => entry.2.map (Prod.mk entry.1)) = none := by
    intro rest new
    rw [JsonMap.get_eq_none_iff]
    intro inside
    obtain ⟨kept, from_, rfl⟩ := List.mem_map.mp inside
    obtain ⟨entry, there, same⟩ := List.mem_filterMap.mp from_
    obtain ⟨given, _, rfl⟩ := Option.map_eq_some_iff.mp same
    exact new (List.mem_map_of_mem there)
  induction entries with
  | nil => exact absurd member List.not_mem_nil
  | cons entry rest ih =>
    obtain ⟨first, given⟩ := entry
    obtain ⟨new, others⟩ := List.nodup_cons.mp distinct
    rcases List.mem_cons.mp member with here | later
    · obtain ⟨rfl, rfl⟩ := Prod.mk.inj here
      cases value with
      | none => exact absent rest new
      | some value =>
        change JsonMap.get key ((key, value) :: _) = _
        rw [JsonMap.get_cons, if_pos rfl]
    · have apart : first ≠ key := by
        rintro rfl
        exact new (List.mem_map.mpr ⟨_, later, rfl⟩)
      cases given with
      | none => exact ih others later
      | some given =>
        change JsonMap.get key ((first, given) :: _) = _
        rw [JsonMap.get_cons, if_neg apart]
        exact ih others later

/-- An event has each of its properties. -/
theorem get_properties {camel : String} {value : Option Json} (member : (camel, value) ∈ event.entries) :
    JsonMap.get camel event.properties = value := by
  refine get_filterMap ?_ member
  simp only [UniversalAgentEvent.entries, List.map_cons, List.map_nil]
  decide

theorem get_cloneMembers {key : String} {members : JsonMap} :
    JsonMap.get key (cloneMembers numbers members) = (JsonMap.get key members).map (clone numbers) := by
  induction members with
  | nil => rfl
  | cons member rest ih =>
    obtain ⟨first, child⟩ := member
    rw [cloneMembers, JsonMap.get_cons, JsonMap.get_cons, ih]
    split_ifs
    · rfl
    · rfl

theorem keys_filterMap_sublist (entries : List (String × Option Json)) :
    ((entries.filterMap fun entry => entry.2.map (Prod.mk entry.1)).map (·.1)).Sublist (entries.map (·.1)) := by
  induction entries with
  | nil => exact List.Sublist.refl _
  | cons entry rest ih =>
    obtain ⟨key, given⟩ := entry
    cases given with
    | none => exact ih.cons _
    | some value => exact ih.cons_cons _

theorem eventToCheckpointPayload_eq : eventToCheckpointPayload engine numbers event =
    (payloadProperties.map fun pair => (pair.1, JsonMap.get pair.2 (redactEvent engine numbers event))).filterMap
      fun entry => entry.2.map (Prod.mk entry.1) := by
  rw [List.filterMap_map]
  rfl

theorem keys_eventToCheckpointPayload_nodup : ((eventToCheckpointPayload engine numbers event).map (·.1)).Nodup := by
  have distinct : (payloadProperties.map (·.1)).Nodup := by decide
  rw [eventToCheckpointPayload_eq]
  refine (keys_filterMap_sublist _).nodup ?_
  rwa [List.map_map]

/-- Each property of a payload is that of the event, written out and redacted. -/
theorem get_eventToCheckpointPayload {snake camel : String} (pair : (snake, camel) ∈ payloadProperties) :
    JsonMap.get snake (eventToCheckpointPayload engine numbers event) =
      (JsonMap.get camel event.properties).map fun value => Sdk.redactValue engine (clone numbers value) := by
  have distinct : (payloadProperties.map (·.1)).Nodup := by decide
  have plain : ∀ pair ∈ payloadProperties, Sdk.secretKey pair.2 = false := by decide
  have taken : JsonMap.get snake (eventToCheckpointPayload engine numbers event) =
      JsonMap.get camel (redactEvent engine numbers event) := by
    rw [eventToCheckpointPayload_eq]
    refine get_filterMap ?_ (List.mem_map.mpr ⟨_, pair, rfl⟩)
    rwa [List.map_map]
  rw [taken, redactEvent, get_redactMembers (plain _ pair), get_cloneMembers, Option.map_map]
  rfl

end Payload

end TypeScript

end AttowNexus
