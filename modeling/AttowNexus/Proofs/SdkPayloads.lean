import AttowNexus.Model.SdkEvents
import AttowNexus.Proofs.SdkChannels
import AttowNexus.Proofs.TypeScriptEvents

/-! # What the payloads of the SDKs carry

The daemon reads the same fields in a payload whichever SDK it comes from, and redaction works on them one by one. So
both SDKs are compared with the daemon over the fields that an event sends.
-/

namespace AttowNexus

/-- The fields of a payload that the daemon reads -/
structure SentEvent where
  schemaVersion : String
  eventId : String
  runId : String
  threadId : String
  agentId : String
  framework : String
  eventType : String
  channel : String
  tags : List String
  parentCommitIds : List String
  timestampMs : Json

namespace SentEvent

/-- The ids, in the order of the checks -/
def ids (sent : SentEvent) : List String := [sent.eventId, sent.runId, sent.threadId, sent.agentId]

/-- An integer that is positive and fits into 63 bits -/
def Timed (sent : SentEvent) : Prop :=
  ∃ number ms, sent.timestampMs = .number number ∧ number.asI64 = some ms ∧ 0 < ms

/-- The checks of the daemon, on the fields -/
structure Admitted (sent : SentEvent) : Prop where
  schemaVersion : sent.schemaVersion = "nexus.universal.v1"
  ids : ∀ text ∈ sent.ids, IsId text
  framework : sent.framework ∈ frameworks
  eventType : sent.eventType ∈ eventTypes
  channel : IsChannel sent.channel
  timed : sent.Timed

def redacted (engine : RegexEngine) (sent : SentEvent) : SentEvent where
  schemaVersion := Sdk.redactText engine sent.schemaVersion
  eventId := Sdk.redactText engine sent.eventId
  runId := Sdk.redactText engine sent.runId
  threadId := Sdk.redactText engine sent.threadId
  agentId := Sdk.redactText engine sent.agentId
  framework := Sdk.redactText engine sent.framework
  eventType := Sdk.redactText engine sent.eventType
  channel := Sdk.redactText engine sent.channel
  tags := sent.tags.map (Sdk.redactText engine)
  parentCommitIds := sent.parentCommitIds.map (Sdk.redactText engine)
  timestampMs := Sdk.redactValue engine sent.timestampMs

end SentEvent

/-- An object has the fields of an event. -/
structure Carries (object : JsonMap) (sent : SentEvent) : Prop where
  schemaVersion : object.get "schema_version" = some (.string sent.schemaVersion)
  eventId : object.get "event_id" = some (.string sent.eventId)
  runId : object.get "run_id" = some (.string sent.runId)
  threadId : object.get "thread_id" = some (.string sent.threadId)
  agentId : object.get "agent_id" = some (.string sent.agentId)
  framework : object.get "framework" = some (.string sent.framework)
  eventType : object.get "event_type" = some (.string sent.eventType)
  channel : object.get "channel" = some (.string sent.channel)
  tags : object.get "tags" = some (.array (sent.tags.map .string))
  parentCommitIds : object.get "parent_commit_ids" = some (.array (sent.parentCommitIds.map .string))
  timestampMs : object.get "timestamp_ms" = some sent.timestampMs

section Admission

variable {object : JsonMap} {sent : SentEvent} {engine : RegexEngine}

/-- The metadata, if there is any, is an object. -/
def MetadataObject (object : JsonMap) : Prop :=
  ∀ value, object.get "metadata" = some value → ∃ members, value = .object members

theorem Carries.admitted_iff (carries : Carries object sent) :
    AdmittedEvent object ↔ sent.Admitted ∧ MetadataObject object := by
  have own : ∀ {key text : String} {P : String → Prop}, object.get key = some (.string text) →
      ((∃ other, object.get key = some (.string other) ∧ P other) ↔ P text) := by
    intro key text P there
    constructor
    · rintro ⟨other, same, holds⟩
      rw [there, Option.some.injEq, Json.string.injEq] at same
      exact same ▸ holds
    · exact fun holds => ⟨text, there, holds⟩
  have ids_iff : (∀ field ∈ ["event_id", "run_id", "thread_id", "agent_id"],
      ∃ text, object.get field = some (.string text) ∧ IsId text) ↔ ∀ text ∈ sent.ids, IsId text := by
    simp only [SentEvent.ids, List.forall_mem_cons, own carries.eventId, own carries.runId, own carries.threadId,
      own carries.agentId, List.not_mem_nil, false_imp_iff, implies_true]
  constructor
  · intro admitted
    obtain ⟨framework, framed, frame⟩ := admitted.framework
    obtain ⟨eventType, typed, type⟩ := admitted.eventType
    obtain ⟨number, ms, there, read, positive⟩ := admitted.timestamp
    refine ⟨⟨?_, ids_iff.1 admitted.ids, (own carries.framework).mp ⟨_, frame, framed⟩,
      (own carries.eventType).mp ⟨_, type, typed⟩, (own carries.channel).mp admitted.channel, number, ms, ?_, read, positive⟩,
      admitted.metadata⟩
    · exact (own (P := (· = "nexus.universal.v1")) carries.schemaVersion).mp ⟨_, admitted.schemaVersion, rfl⟩
    · exact Option.some.inj (carries.timestampMs.symm.trans there)
  · rintro ⟨admitted, metadata⟩
    obtain ⟨number, ms, same, read, positive⟩ := admitted.timed
    refine ⟨admitted.schemaVersion ▸ carries.schemaVersion, ids_iff.2 admitted.ids,
      ⟨_, admitted.framework, carries.framework⟩, ⟨_, admitted.eventType, carries.eventType⟩,
      ⟨_, carries.channel, admitted.channel⟩, metadata, fun field member value found => ?_,
      number, ms, same ▸ carries.timestampMs, read, positive⟩
    simp only [List.mem_cons, List.not_mem_nil, or_false] at member
    rcases member with rfl | rfl
    · exact ⟨_, Option.some.inj (found.symm.trans carries.tags)⟩
    · exact ⟨_, Option.some.inj (found.symm.trans carries.parentCommitIds)⟩

theorem Carries.accepted_iff {members : List (String × Json)} (carries : Carries (JsonMap.ofMembers members) sent) :
    validateUniversalEvent (.ofMembers members) = .ok () ↔
      sent.Admitted ∧ MetadataObject (JsonMap.ofMembers members) := by
  rw [validateUniversalEvent_eq_ok_iff, ← carries.admitted_iff]
  constructor
  · rintro ⟨object, same, admitted⟩
    exact Json.object.inj same ▸ admitted
  · exact fun admitted => ⟨_, rfl, admitted⟩

/-- Redaction keeps numbers and makes none. -/
theorem redactValue_eq_number_iff {value : Json} {number : JsonNumber} :
    Sdk.redactValue engine value = .number number ↔ value = .number number := by
  cases value <;> simp [Sdk.redactValue]

/-- No secret is in the constants that the daemon asks for. -/
theorem redactText_of_known {text : String} (known : text ∈ "nexus.universal.v1" :: (frameworks ++ eventTypes)) :
    Sdk.redactText engine text = text := by
  have checked : ∀ text ∈ "nexus.universal.v1" :: (frameworks ++ eventTypes),
      (∀ c ∈ text.toList, (c.toNat < 128 ∧ Ordinary c) ∧ c ≠ '[') ∧ secretless text = true := by decide +kernel
  obtain ⟨each, free⟩ := checked text known
  exact redactText_of_secretless ⟨fun c member => (each c member).1, fun member => (each '[' member).2 rfl⟩
    (secretless_of_check free)

/-- Of the checks of the daemon, those of the ids and of the channel are the ones that redaction can spoil. -/
theorem SentEvent.redacted_admitted_iff (version : sent.schemaVersion = "nexus.universal.v1")
    (framed : sent.framework ∈ frameworks) (typed : sent.eventType ∈ eventTypes) :
    (sent.redacted engine).Admitted ↔ (∀ text ∈ sent.ids, IsId text ∧ Secretless text) ∧
      (IsChannel sent.channel ∧ Secretless sent.channel) ∧ sent.Timed := by
  have ids_iff : (∀ text ∈ (sent.redacted engine).ids, IsId text) ↔ ∀ text ∈ sent.ids, IsId text ∧ Secretless text := by
    simp only [ids, redacted, List.forall_mem_cons, redactText_iff fun _ => IsId.plain]
    tauto
  have timed_iff : (sent.redacted engine).Timed ↔ sent.Timed := by
    simp only [Timed, redacted, redactValue_eq_number_iff]
  have channel_iff : IsChannel (sent.redacted engine).channel ↔ IsChannel sent.channel ∧ Secretless sent.channel :=
    redactText_iff fun _ => IsChannel.plain
  rw [← ids_iff, ← channel_iff, ← timed_iff]
  constructor
  · intro admitted
    exact ⟨admitted.ids, admitted.channel, admitted.timed⟩
  · rintro ⟨named, channel, timed⟩
    have kept : ∀ {text}, text ∈ frameworks ++ eventTypes → Sdk.redactText engine text = text :=
      fun member => redactText_of_known (List.mem_cons_of_mem _ member)
    refine ⟨?_, named, ?_, ?_, channel, timed⟩
    · change Sdk.redactText engine sent.schemaVersion = _
      rw [version]
      exact redactText_of_known List.mem_cons_self
    · change Sdk.redactText engine sent.framework ∈ _
      rwa [kept (List.mem_append_left _ framed)]
    · change Sdk.redactText engine sent.eventType ∈ _
      rwa [kept (List.mem_append_right _ typed)]

end Admission

namespace Python

section Payload

variable {engine : RegexEngine} {event : UniversalAgentEvent} {text field : String}

def UniversalAgentEvent.sent (event : UniversalAgentEvent) : SentEvent where
  schemaVersion := event.schemaVersion
  eventId := event.eventId
  runId := event.runId
  threadId := event.threadId
  agentId := event.agentId
  framework := event.framework
  eventType := event.eventType
  channel := event.channel
  tags := event.tags
  parentCommitIds := event.parentCommitIds
  timestampMs := .number (.posInt event.timestampMs)

/-- A field that is not `None` is dumped. -/
theorem get_modelDumpExcludeNone {key : String} {value : Json} (there : event.modelDump.get key = some value)
    (given : value.isNull = false) : event.modelDumpExcludeNone.get key = some value := by
  have distinct : (event.modelDump.map (·.1)).Nodup := by
    simp only [UniversalAgentEvent.modelDump, List.map_cons, List.map_nil]
    decide
  have filtered : event.modelDumpExcludeNone.get key = (event.modelDump.get key).filter fun value => !value.isNull :=
    @JsonMap.get_filter key event.modelDump (fun value => !value.isNull) distinct
  rw [filtered, there, Option.filter_some, given]
  rfl

theorem modelDumpExcludeNone_nodup : (event.modelDumpExcludeNone.map (·.1)).Nodup := by
  have distinct : (event.modelDump.map (·.1)).Nodup := by
    simp only [UniversalAgentEvent.modelDump, List.map_cons, List.map_nil]
    decide
  exact distinct.sublist (List.filter_sublist.map _)

/-- An object has the fields of an event when it has those of the dump that are not `None`. -/
theorem carries_of_modelDump {object : JsonMap}
    (kept : ∀ key value, key ∉ dataFields →
      event.modelDumpExcludeNone.get key = some value → object.get key = some value) : Carries object event.sent := by
  have found : ∀ {key : String} {value : Json}, key ∉ dataFields →
      event.modelDump.get key = some value → value.isNull = false → object.get key = some value :=
    fun apart there given => kept _ _ apart (get_modelDumpExcludeNone there given)
  exact ⟨found (by decide) rfl rfl, found (by decide) rfl rfl, found (by decide) rfl rfl, found (by decide) rfl rfl,
    found (by decide) rfl rfl, found (by decide) rfl rfl, found (by decide) rfl rfl, found (by decide) rfl rfl,
    found (by decide) rfl rfl, found (by decide) rfl rfl, found (by decide) rfl rfl⟩

theorem carries_modelDumpExcludeNone : Carries (JsonMap.ofMembers event.modelDumpExcludeNone) event.sent :=
  carries_of_modelDump fun _ _ _ there => (JsonMap.get_ofMembers modelDumpExcludeNone_nodup).trans there

theorem metadata_modelDumpExcludeNone : MetadataObject (JsonMap.ofMembers event.modelDumpExcludeNone) := by
  intro value found
  rw [JsonMap.get_ofMembers modelDumpExcludeNone_nodup,
    @get_modelDumpExcludeNone event "metadata" _ rfl rfl] at found
  exact ⟨_, (Option.some.inj found).symm⟩

theorem requiredId_of_isId (named : IsId text) : requiredId field text = none := by
  have whole : AttowNexus.isMatch idRe text = true := isMatch_idRe.2 named
  have full : text ≠ "" := by
    rintro rfl
    exact named.1 rfl
  rw [requiredId, if_neg full, isMatch, Regex.matchesLine_of_matchesWhole whole]
  rfl

theorem validChannel_of_isChannel (named : IsChannel text) : validChannel text = none := by
  have whole : AttowNexus.isMatch channelRe text = true := isMatch_channelRe.2 named
  rw [validChannel, isMatch, Regex.matchesLine_of_matchesWhole whole]
  simp

/-- The checks of the daemon imply those of the model. -/
theorem UniversalAgentEvent.Valid.of_admitted (admitted : event.sent.Admitted) (parents : "" ∉ event.parentCommitIds) :
    event.Valid where
  schemaVersion := if_neg (not_not.mpr admitted.schemaVersion)
  eventId := requiredId_of_isId (admitted.ids _ (by simp [SentEvent.ids, sent]))
  runId := requiredId_of_isId (admitted.ids _ (by simp [SentEvent.ids, sent]))
  threadId := requiredId_of_isId (admitted.ids _ (by simp [SentEvent.ids, sent]))
  agentId := requiredId_of_isId (admitted.ids _ (by simp [SentEvent.ids, sent]))
  framework := by
    have known : frameworks.contains event.framework = true := List.contains_iff_mem.mpr admitted.framework
    rw [validFramework, known]
    rfl
  eventType := admitted.eventType
  channel := validChannel_of_isChannel admitted.channel
  parentCommitIds := parents
  timestampMs := by
    obtain ⟨number, ms, same, read, positive⟩ := admitted.timed
    obtain rfl := Json.number.inj same
    rw [JsonNumber.asI64] at read
    split_ifs at read
    have value : (event.timestampMs : ℤ) = ms := Option.some.inj read
    omega

/-- A payload is made and accepted when the redacted fields pass the checks of the daemon. -/
theorem payload_accepted_iff {later : SdkAmbient} (parents : "" ∉ event.parentCommitIds) :
    (∃ payload, eventToJsonPayload engine later event = .ok payload ∧
      validateUniversalEvent (.ofMembers payload) = .ok ()) ↔ (event.sent.redacted engine).Admitted := by
  have carries : Carries (JsonMap.ofMembers (event.redacted engine).modelDumpExcludeNone) (event.sent.redacted engine) :=
    carries_modelDumpExcludeNone
  constructor
  · rintro ⟨payload, made, accepted⟩
    obtain ⟨_, rfl⟩ := UniversalAgentEvent.eventToJsonPayload_eq_ok_iff.1 made
    exact (carries.accepted_iff.mp accepted).1
  · intro admitted
    have named : "" ∉ (event.redacted engine).parentCommitIds := by
      intro member
      obtain ⟨parent, inside, empty⟩ := List.mem_map.mp member
      exact parents (redactText_eq_empty_iff.1 empty ▸ inside)
    exact ⟨_, UniversalAgentEvent.eventToJsonPayload_eq_ok_iff.2 ⟨.of_admitted admitted named, rfl⟩,
      carries.accepted_iff.mpr ⟨admitted, metadata_modelDumpExcludeNone⟩⟩

end Payload

end Python

namespace TypeScript

section Payload

variable {engine : RegexEngine} {numbers : DoubleFormat} {event : UniversalAgentEvent}

def UniversalAgentEvent.sent (numbers : DoubleFormat) (event : UniversalAgentEvent) : SentEvent where
  schemaVersion := event.schemaVersion
  eventId := event.eventId
  runId := event.runId
  threadId := event.threadId
  agentId := event.agentId
  framework := event.framework
  eventType := event.eventType
  channel := event.channel
  tags := event.tags
  parentCommitIds := event.parentCommitIds
  timestampMs := numbers.rewrite event.timestampMs

theorem cloneItems_map_string {texts : List String} : cloneItems numbers (texts.map .string) = texts.map .string := by
  induction texts with
  | nil => rfl
  | cons text texts ih =>
    rw [List.map_cons, cloneItems, ih]
    rfl

/-- An object has the fields of an event when it has those of the payload. -/
theorem carries_of_payload {object : JsonMap}
    (kept : ∀ key value, key ∉ dataFields → JsonMap.get key (eventToCheckpointPayload engine numbers event) = some value →
      object.get key = some value) : Carries object ((event.sent numbers).redacted engine) := by
  have sent : ∀ (snake camel : String) (value : Json), snake ∉ dataFields → (camel, some value) ∈ event.entries →
      (snake, camel) ∈ payloadProperties → object.get snake = some (Sdk.redactValue engine (clone numbers value)) := by
    intro snake camel value apart member pair
    refine kept snake _ apart ?_
    rw [get_eventToCheckpointPayload pair, get_properties member]
    rfl
  have texts : ∀ {texts : List String}, Sdk.redactValue engine (clone numbers (.array (texts.map .string))) =
      .array ((texts.map (Sdk.redactText engine)).map .string) := by
    intro texts
    rw [clone, cloneItems_map_string, Sdk.redactValue, redactItems_map_string]
  have tags := sent "tags" "tags" (.array (event.tags.map .string)) (by decide)
  have parents := sent "parent_commit_ids" "parentCommitIds" (.array (event.parentCommitIds.map .string)) (by decide)
  rw [texts] at tags parents
  refine ⟨sent _ "schemaVersion" (.string event.schemaVersion) (by decide) ?_ (by decide),
    sent _ "eventId" (.string event.eventId) (by decide) ?_ (by decide),
    sent _ "runId" (.string event.runId) (by decide) ?_ (by decide),
    sent _ "threadId" (.string event.threadId) (by decide) ?_ (by decide),
    sent _ "agentId" (.string event.agentId) (by decide) ?_ (by decide),
    sent _ "framework" (.string event.framework) (by decide) ?_ (by decide),
    sent _ "eventType" (.string event.eventType) (by decide) ?_ (by decide),
    sent _ "channel" (.string event.channel) (by decide) ?_ (by decide),
    tags ?_ (by decide), parents ?_ (by decide),
    sent _ "timestampMs" (.number event.timestampMs) (by decide) ?_ (by decide)⟩
  all_goals simp [UniversalAgentEvent.entries]

end Payload

end TypeScript

end AttowNexus
