import AttowNexus.Proofs.LangGraphStream
import AttowNexus.Proofs.PlainEvents
import AttowNexus.Soundness.LangGraphTransparency

/-! # Events of JSON data

An event can be recorded when its ids are whole and hold no secret, when the clock fits into an integer, and when its
data is such as `json.dumps` takes, with strings for keys.
-/

namespace AttowNexus

namespace Python

open Checks NexusAdapterBase NexusLangGraphProxy

variable {Obj Exc : Type}

section Conversion

variable {world : AdapterWorld Obj Exc} {fields : UniversalAgentEvent} {data : List (String × Value Obj)}

/-- The data of an event without other data is converted. -/
theorem isOk_converted (deep : 0 < world.interpreter.recursionLimit - 1) (dataless : fields.Dataless)
    (prints : world.interpreter.prints fields.timestampMs = true)
    (given : ∀ member ∈ data, member.2.Jsonable world.interpreter (world.interpreter.recursionLimit - 1)) :
    (converted world data fields).isOk = true := by
  obtain ⟨room, limit⟩ : ∃ room, world.interpreter.recursionLimit = room + 2 :=
    ⟨world.interpreter.recursionLimit - 2, by omega⟩
  have less : world.interpreter.recursionLimit - 1 = room + 1 := by omega
  rw [less] at given
  have copies : (data.forM fun member =>
      Value.deepcopy world.interpreter world.interpreter.recursionLimit [] member.2) = .ok ⟨⟩ := by
    rw [limit]
    exact forM_eq_ok_iff.2 fun member inside => Value.deepcopy_of_dumps (given member inside).dumped
  have whole : (Value.ofEntries data).Jsonable world.interpreter world.interpreter.recursionLimit := by
    rw [limit]
    exact .ofEntries given
  obtain ⟨redacted, redacts⟩ := exists_eq_ok ((@Value.isOk_redact_iff _ _ _ world.engine _ _).2 whole.walkable)
  have dumped := Value.dumps_redact whole.dumped redacts
  obtain ⟨entries, rfl⟩ : ∃ entries, redacted = .dict entries := by
    rw [limit] at redacts
    obtain ⟨entries, _, same⟩ := bind_eq_ok_iff.1 redacts
    exact ⟨entries, (Except.ok.inj same).symm⟩
  have sent : ∀ entry ∈ ((fields.redacted world.engine).sentFields : List (Value Obj × Value Obj)),
      Value.dumpsKey world.interpreter entry.1 = .ok () ∧
        Value.dumps world.interpreter (room + 1) [] entry.2 = .ok () := by
    intro entry member
    obtain ⟨given, inside, rfl⟩ := mem_ofMembers member
    obtain ⟨listed, apart⟩ := List.mem_filter.mp inside
    exact ⟨rfl, (dataless.redacted.flat given (List.mem_of_mem_filter listed) (of_decide_eq_true apart)).dumps prints⟩
  have payload : Value.dumps world.interpreter world.interpreter.recursionLimit []
      (.dict ((fields.redacted world.engine).sentFields ++ entries)) = .ok () := by
    rw [limit] at dumped ⊢
    refine forM_eq_ok_iff.2 fun entry member => ?_
    rcases List.mem_append.mp member with first | second
    · obtain ⟨key, child⟩ := sent entry first
      exact bind_eq_ok_iff.2 ⟨_, key, child⟩
    · exact forM_eq_ok_iff.1 dumped entry second
  obtain ⟨state, converts, _⟩ := @Value.safeJsonable_of_dumps _ _ _ (room + 1) _ payload
  have run : converted world data fields = .ok state := by
    refine bind_eq_ok_iff.2 ⟨_, copies, bind_eq_ok_iff.2 ⟨_, redacts, ?_⟩⟩
    rw [← limit] at converts
    exact converts
  rw [run]
  rfl

end Conversion

namespace NexusAdapterBase

variable {world : AdapterWorld Obj Exc} {base : NexusAdapterBase Obj} {threadId version : String}
  {arguments : EventArguments Obj} {ambient : SdkAmbient}

/-- The fields of an event with whole ids pass the checks. -/
theorem normalizeEvent_eventFields (framed : base.frameworkName ∈ frameworks)
    (ids : ∀ text ∈ [base.runId, threadId, base.agentId], IsId text) (typed : arguments.eventType ∈ eventTypes) :
    ∃ fields, normalizeEvent ambient (base.eventFields version threadId [] arguments) = .ok fields ∧ fields.Dataless ∧
      fields.timestampMs = ambient.now := by
  have framework : validFramework base.frameworkName = none := by
    rw [validFramework, List.contains_iff_mem.mpr framed]
    rfl
  refine ⟨_, normalizeEvent_eq_ok_iff.2 ⟨{
    schemaVersion := "nexus.universal.v1", sdkName := "nexus-ipc", sdkVersion := "0.1.0"
    adapterName := base.frameworkName, adapterVersion := version, eventId := newId "evt" ambient.eventUuid
    runId := base.runId, threadId, agentId := base.agentId, framework := base.frameworkName, frameworkVersion := none
    language := base.language, eventType := arguments.eventType, channel := "", stepName := arguments.stepName
    nodeName := none, taskName := arguments.taskName, toolName := none, input := .null, output := .null, delta := .null
    messages := none, error := none, metadata := [], tags := base.tags, parentCommitIds := []
    timestampMs := ambient.now }, ?_, rfl⟩, ⟨rfl, rfl, rfl, rfl, rfl⟩, rfl⟩
  exact {
    schemaVersion := .inl ⟨rfl, rfl⟩
    sdkName := .inl ⟨rfl, rfl⟩
    sdkVersion := .inl ⟨rfl, rfl⟩
    adapterName := .inr ⟨rfl, rfl⟩
    adapterVersion := .inr ⟨rfl, rfl⟩
    eventId := .inl ⟨rfl, rfl⟩
    runId := .inr ⟨rfl, requiredId_of_isId (ids _ (by simp))⟩
    threadId := .inr ⟨rfl, requiredId_of_isId (ids _ (by simp))⟩
    agentId := .inr ⟨rfl, requiredId_of_isId (ids _ (by simp))⟩
    framework := .inr ⟨rfl, framework⟩
    frameworkVersion := rfl
    language := .inr ⟨rfl, rfl⟩
    eventType := ⟨rfl, typed⟩
    channel := .inl ⟨rfl, rfl⟩
    stepName := rfl
    nodeName := rfl
    taskName := rfl
    toolName := rfl
    input := rfl
    output := rfl
    delta := rfl
    messages := rfl
    error := rfl
    metadata := rfl
    tags := rfl
    parentCommitIds := .inr ⟨rfl, List.not_mem_nil⟩
    timestampMs := .inl ⟨rfl, rfl⟩ }

/-- What an adapter is given passes its own checks: whole ids without a secret and metadata that is JSON, next to a clock
whose readings fit into 63 bits, and an interpreter that recurses a few levels. -/
structure Orderly (world : AdapterWorld Obj Exc) (base : NexusAdapterBase Obj) (threadId : String) : Prop where
  deep : 2 < world.interpreter.recursionLimit
  clock : ∀ n, 0 < (world.ambient n).now ∧ (world.ambient n).now ≤ 9223372036854775807 ∧
    world.interpreter.prints (world.ambient n).now = true
  framework : base.frameworkName ∈ frameworks
  ids : ∀ text ∈ [base.runId, threadId, base.agentId], IsId text ∧ Secretless text
  version : (base.adapterVersion world).isOk = true
  metadata : ∀ entry ∈ base.metadata, entry.2.Jsonable world.interpreter (world.interpreter.recursionLimit - 2)

/-- An event of JSON data can be recorded, whenever it is built. -/
theorem Orderly.recordable (orderly : Orderly world base threadId) (typed : arguments.eventType ∈ eventTypes)
    (data : ∀ member ∈ arguments.data, member.2.Jsonable world.interpreter (world.interpreter.recursionLimit - 1))
    (metadata : ∀ entry ∈ arguments.metadata,
      entry.2.Jsonable world.interpreter (world.interpreter.recursionLimit - 2)) (events : ℕ) :
    Recordable world base threadId arguments events := by
  have derived : base.deriveThreadId (some threadId) = threadId := by
    have full : threadId ≠ "" := by
      rintro rfl
      exact (orderly.ids "" (by simp)).1.1 rfl
    rw [deriveThreadId, present, Option.filter_some, if_pos (by simpa using full)]
    rfl
  obtain ⟨version, versioned⟩ := exists_eq_ok orderly.version
  obtain ⟨positive, fits, prints⟩ := orderly.clock events
  obtain ⟨fields, normalized, dataless, timed⟩ := @normalizeEvent_eventFields _ base threadId version
    arguments (world.ambient events) orderly.framework (fun text member => (orderly.ids text member).1) typed
  refine recordable_of_ids (derived.symm ▸ orderly.ids) ⟨positive, fits⟩ versioned ?_
  have merged : (base.mergedMetadata arguments.metadata).Jsonable world.interpreter
      (world.interpreter.recursionLimit - 1) := by
    have room : world.interpreter.recursionLimit - 1 = world.interpreter.recursionLimit - 2 + 1 := by
      have deep := orderly.deep
      omega
    rw [room]
    refine .dict fun entry member => ?_
    rcases Value.mem_setEntries member with ⟨pair, inside, rfl⟩ | ⟨old, _⟩
    · exact ⟨pair.1, rfl, metadata pair inside⟩
    · obtain ⟨given, inside, rfl⟩ := List.mem_map.mp old
      exact ⟨given.1, rfl, orderly.metadata given inside⟩
  have converts : (converted world (arguments.data ++ [("metadata", base.mergedMetadata arguments.metadata)])
      fields).isOk = true := by
    refine isOk_converted ?_ dataless (timed ▸ prints) fun member inside => ?_
    · have deep := orderly.deep
      omega
    · rcases List.mem_append.mp inside with first | last
      · exact data member first
      · obtain rfl := List.mem_singleton.mp last
        exact merged
  rw [derived, normalized]
  exact congrArg some converts

end NexusAdapterBase

end Python

end AttowNexus
