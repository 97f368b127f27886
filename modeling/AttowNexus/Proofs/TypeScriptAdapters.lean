import AttowNexus.Library.Linked
import AttowNexus.Model.TypeScriptAdapters
import AttowNexus.Soundness.SdkAcceptance

/-! # What the TypeScript adapters record

An event passes its checks if the names in the options do, whatever its data and its parents are. Where nothing else
happens in between, its parent is the last commit on its thread, and it becomes the last commit itself.
-/

namespace AttowNexus

theorem IsId.ne_empty {text : String} (named : IsId text) : text ≠ "" := by
  rintro rfl
  exact named.1 rfl

namespace JsonMap

theorem get_append {key : String} (members more : JsonMap) :
    get key (members ++ more) = (get key members).or (get key more) := by
  rw [get, get, get, List.find?_append, Option.map_or]

theorem get_filter_keys {key : String} {p : String × Json → Bool} (members : JsonMap)
    (kept : ∀ value, p (key, value) = true) : get key (members.filter p) = get key members := by
  induction members with
  | nil => rfl
  | cons member rest ih =>
    rw [List.filter_cons, get_cons]
    split_ifs with passes same same
    · rw [get_cons, if_pos same]
    · rw [get_cons, if_neg same, ih]
    · obtain ⟨first, value⟩ := member
      obtain rfl : first = key := same
      exact absurd (kept value) passes
    · exact ih

end JsonMap

namespace TypeScript

open Checks NexusAdapterContext

variable {Obj : Type}

theorem ReadsOptional.eq_none {value : Option String} (reads : ReadsOptional none value) : value = none := by
  cases value with
  | none => rfl
  | some text => exact absurd reads.1 nofun

theorem ReadsOptional.eq_stepName {text : String} {value : Option String}
    (reads : ReadsOptional (some (.string text)) value) : value = if text = "" then none else some text := by
  cases value with
  | none =>
    rcases reads with wrong | empty
    · cases wrong
    · rw [if_pos (Json.string.inj (Option.some.inj empty))]
  | some other =>
    obtain rfl := Json.string.inj (Option.some.inj reads.1)
    rw [if_neg reads.2]

theorem readsOptional_stepName (text : String) :
    ReadsOptional (some (.string text)) (if text = "" then none else some text) := by
  split
  · rename_i empty
    exact .inr (congrArg (fun text => some (Json.string text)) empty)
  · exact ⟨rfl, ‹_›⟩

theorem getD_null_eq_null {α : Type} {wrap : α → Json} {value : Option α} (proper : ∀ a, wrap a ≠ .null)
    (absent : Json.null = (value.map wrap).getD .null) : value = none := by
  cases value with
  | none => rfl
  | some a => exact absurd absent.symm (proper a)

def ClientCall.isCheckpoint : ClientCall → Bool
  | .registerAgent .. => false
  | .checkpoint .. => true

/-- The commit id of an answer -/
def Reply.commitId : Reply Obj → Option String
  | .rejected _ => none
  | .resolved commitId => commitId

namespace NexusAdapterContext

variable {world : AdapterWorld Obj} {context : NexusAdapterContextOptions Obj} {s t : ContextState}
  {version threadId : String} {parents : List String} {input : EventInput Obj}

/-- What the checks of an event ask of the options and of the thread -/
structure Named (context : NexusAdapterContextOptions Obj) (version threadId : String) : Prop where
  version : version ≠ ""
  runId : IsId context.runId
  threadId : IsId threadId
  agentId : IsId context.agentId
  framework : context.frameworkName ∈ frameworks
  tags : "" ∉ context.tags

/-- The clock shows an integer, which is positive. -/
def Clocked (numbers : DoubleFormat) (ambient : SdkAmbient) : Prop :=
  numbers.isInteger (.posInt ambient.now) = true ∧ numbers.isPositive (.posInt ambient.now) = true

section Building

variable {numbers : DoubleFormat} {ambient : SdkAmbient}

/-- The event that is read -/
def readFields (ambient : SdkAmbient) (context : NexusAdapterContextOptions Obj) (version threadId : String)
    (parents : List String) (input : EventInput Obj) : UniversalAgentEvent where
  schemaVersion := "nexus.universal.v1"
  sdkName := "@nexus-ipc/sdk"
  sdkVersion := "0.1.0"
  adapterName := context.frameworkName
  adapterVersion := version
  eventId := "evt_" ++ String.ofList (ambient.randomId.map fun digit => Nat.digitChar digit.val)
  runId := context.runId
  threadId := threadId
  agentId := context.agentId
  framework := context.frameworkName
  frameworkVersion := none
  language := "typescript"
  eventType := input.eventType
  channel := ""
  stepName := if input.stepName = "" then none else some input.stepName
  nodeName := none
  taskName := none
  toolName := none
  input := none
  output := none
  delta := none
  messages := none
  error := none
  metadata := []
  tags := context.tags
  parentCommitIds := parents
  timestampMs := .posInt ambient.now

/-- The event with its channel -/
def builtFields (ambient : SdkAmbient) (context : NexusAdapterContextOptions Obj) (version threadId : String)
    (parents : List String) (input : EventInput Obj) : UniversalAgentEvent :=
  let event := readFields ambient context version threadId parents input
  { event with channel := channelForEvent event }

theorem generatedId (ambient : SdkAmbient) :
    IsId ("evt_" ++ String.ofList (ambient.randomId.map fun digit => Nat.digitChar digit.val)) := by
  refine (generated_id fun c member => ?_).1
  obtain ⟨digit, _, rfl⟩ := List.mem_map.mp member
  exact digitChar_mem digit digit.isLt

theorem reads_eventFields_iff {event : UniversalAgentEvent} :
    Reads numbers ambient (eventFields context version threadId parents input) event ↔
      (version ≠ "" ∧ context.runId ≠ "" ∧ threadId ≠ "" ∧ context.agentId ≠ "" ∧ context.frameworkName ≠ "" ∧
        input.eventType ∈ eventTypes ∧ "" ∉ context.tags ∧ "" ∉ parents ∧
        numbers.isInteger (.posInt ambient.now) = true) ∧
          event = readFields ambient context version threadId parents input := by
  have text : ∀ {given value : String}, some (Json.string given) = some (.string value) → value = given :=
    fun same => (Json.string.inj (Option.some.inj same)).symm
  have list : ∀ {given value : List String}, Python.ReadsParents (some (.array (given.map .string))) value →
      value = given ∧ "" ∉ given := by
    rintro given value (⟨wrong, _⟩ | ⟨same, named⟩)
    · cases wrong
    · obtain rfl := Python.UniversalAgentEvent.map_string_injective (Option.some.inj same)
      exact ⟨rfl, named⟩
  constructor
  · intro reads
    obtain ⟨tags, tagged⟩ := list reads.tags
    obtain ⟨parents, parented⟩ := list reads.parentCommitIds
    have version := text reads.adapterVersion.1
    have runId := text reads.runId.1
    have threadId := text reads.threadId.1
    have agentId := text reads.agentId.1
    have framework := text reads.framework.1
    have eventType := text reads.eventType.1
    have timestamp := (Json.number.inj (Option.some.inj reads.timestampMs.1)).symm
    obtain ⟨channel, given, channelled⟩ := reads.channel
    refine ⟨⟨version ▸ reads.adapterVersion.2, runId ▸ reads.runId.2, threadId ▸ reads.threadId.2,
      agentId ▸ reads.agentId.2, framework ▸ reads.framework.2, eventType ▸ reads.eventType.2, tagged, parented,
      timestamp ▸ reads.timestampMs.2⟩, ?_⟩
    exact UniversalAgentEvent.ext (text reads.schemaVersion.1) (text reads.sdkName.1) (text reads.sdkVersion.1)
      (text reads.adapterName.1) version (text reads.eventId.1) runId threadId agentId framework
      reads.frameworkVersion.eq_none (text reads.language.1) eventType (channelled.trans (given.eq_none ▸ rfl))
      reads.stepName.eq_stepName reads.nodeName.eq_none reads.taskName.eq_none reads.toolName.eq_none reads.input.symm
      reads.output.symm reads.delta.symm
      (getD_null_eq_null (fun items => (nofun : Json.array items ≠ .null)) reads.messages)
      (getD_null_eq_null (fun members => (nofun : Json.object members ≠ .null)) reads.error)
      (reads.metadata.elim And.right nofun) tags parents timestamp
  · rintro ⟨⟨version, runId, threadId, agentId, framework, eventType, tagged, parented, timestamp⟩, rfl⟩
    have known : "nexus.universal.v1" ≠ "" ∧ "@nexus-ipc/sdk" ≠ "" ∧ "0.1.0" ≠ "" ∧ "typescript" ≠ "" := by decide
    exact ⟨⟨rfl, known.1⟩, ⟨rfl, known.2.1⟩, ⟨rfl, known.2.2.1⟩, ⟨rfl, framework⟩, ⟨rfl, version⟩,
      ⟨rfl, (generatedId ambient).ne_empty⟩, ⟨rfl, runId⟩, ⟨rfl, threadId⟩, ⟨rfl, agentId⟩, ⟨rfl, framework⟩, .inl rfl,
      ⟨rfl, known.2.2.2⟩, ⟨rfl, eventType⟩, ⟨none, .inl rfl, rfl⟩, readsOptional_stepName _, .inl rfl, .inl rfl,
      .inl rfl, rfl, rfl, rfl, rfl, rfl, .inl ⟨rfl, rfl⟩, .inr ⟨rfl, tagged⟩, .inr ⟨rfl, parented⟩, ⟨rfl, timestamp⟩⟩

theorem normalizeEvent_eventFields_iff {fields : UniversalAgentEvent} :
    normalizeEvent numbers ambient (eventFields context version threadId parents input) = .ok fields ↔
      (Named context version threadId ∧ input.eventType ∈ eventTypes ∧ "" ∉ parents ∧ Clocked numbers ambient) ∧
        fields = builtFields ambient context version threadId parents input := by
  simp only [normalizeEvent_eq_ok_iff, reads_eventFields_iff]
  constructor
  · rintro ⟨_, ⟨⟨version, _, _, _, _, typed, tagged, parented, whole⟩, rfl⟩, rfl, valid⟩
    exact ⟨⟨⟨version, valid.runId, valid.threadId, valid.agentId, valid.framework, tagged⟩, typed, parented, whole,
      valid.timestampMs.2⟩, rfl⟩
  · rintro ⟨⟨named, typed, parented, clocked⟩, rfl⟩
    have framed : context.frameworkName ≠ "" := by
      intro empty
      exact absurd (empty ▸ named.framework) (by decide)
    refine ⟨_, ⟨⟨named.version, named.runId.ne_empty, named.threadId.ne_empty, named.agentId.ne_empty, framed, typed,
      named.tags, parented, clocked.1⟩, rfl⟩, rfl, ?_⟩
    refine ⟨rfl, generatedId ambient, named.runId, named.threadId, named.agentId, named.framework, ?_, clocked⟩
    change IsChannel (channelForEvent (readFields ambient context version threadId parents input))
    have bare : (readFields ambient context version threadId parents input).channel = "" := rfl
    rw [channelForEvent_eq, if_pos bare]
    exact (isChannel_derivedChannel_iff named.framework named.runId.name named.threadId.name).mpr clean_empty.named

theorem empty_notMem_lastParents : "" ∉ s.lastParents threadId := by
  intro member
  rw [ContextState.lastParents, Option.mem_toList] at member
  obtain ⟨commitId, _, empty⟩ := Option.map_eq_some_iff.mp member
  exact commitId.property empty

/-- An event is built from the options, the thread and the last commit on it. -/
theorem event_eq_ok_iff {built : AdapterEvent Obj} : event world context threadId input s = (.ok built, t) ↔
    ∃ version, (adapterVersion world context = .ok version ∧ Named context version threadId ∧
      input.eventType ∈ eventTypes ∧ Clocked world.numbers (world.ambient s.events)) ∧
        built = ⟨builtFields (world.ambient s.events) context version threadId (s.lastParents threadId) input,
          input.data ++ [("metadata", .record context.metadata)]⟩ ∧ t = { s with events := s.events + 1 } := by
  rw [event, Fallible.bind_of_ok (Fallible.get_eq_iff.2 ⟨rfl, rfl⟩)]
  simp only [Fallible.bind_eq_ok_iff, Fallible.lift_eq_iff, Fallible.modify_eq_iff, Fallible.pure_eq_iff]
  constructor
  · rintro ⟨version, m, ⟨given, rfl⟩, fields, n, ⟨made, rfl⟩, _, u, ⟨_, rfl⟩, same, rfl⟩
    obtain ⟨⟨named, typed, _, clocked⟩, rfl⟩ := normalizeEvent_eventFields_iff.1 (mapError_eq_ok_iff.1 made.symm)
    exact ⟨version, ⟨given.symm, named, typed, clocked⟩, Except.ok.inj same, rfl⟩
  · rintro ⟨version, ⟨given, named, typed, clocked⟩, rfl, rfl⟩
    refine ⟨version, s, ⟨given.symm, rfl⟩, _, s, ⟨?_, rfl⟩, (), _, ⟨trivial, rfl⟩, rfl, rfl⟩
    exact (mapError_eq_ok_iff.2 (normalizeEvent_eventFields_iff.2
      ⟨⟨named, typed, empty_notMem_lastParents, clocked⟩, rfl⟩)).symm

end Building

section Recording

/-- An event that the client was sent, with the commit that it has become -/
structure RecordedEvent where
  eventType : Option Json
  output : Option Json
  parents : List String
  commitId : Option String

/-- The events among these calls, which come after the others -/
def recordedEvents (client : List ClientCall → Reply Obj) : List ClientCall → List ClientCall → List RecordedEvent
  | _, [] => []
  | before, .registerAgent agentId runId threadId framework language capabilities metadata :: rest =>
      let call := ClientCall.registerAgent agentId runId threadId framework language capabilities metadata
      recordedEvents client (before ++ [call]) rest
  | before, .checkpoint channel agentId runId threadId state summary tags metadata parents :: rest =>
      let call := ClientCall.checkpoint channel agentId runId threadId state summary tags metadata parents
      ⟨JsonMap.get "event_type" state, JsonMap.get "output" state, parents, (client (before ++ [call])).commitId⟩ ::
        recordedEvents client (before ++ [call]) rest

theorem recordedEvents_append {client : List ClientCall → Reply Obj} {before made more : List ClientCall} :
    recordedEvents client before (made ++ more) =
      recordedEvents client before made ++ recordedEvents client (before ++ made) more := by
  induction made generalizing before with
  | nil => rw [List.append_nil]; rfl
  | cons call made ih =>
    cases call <;> simp only [List.cons_append, recordedEvents, ih, List.append_assoc, List.nil_append]

/-- The events that are recorded on the thread from one state to another -/
structure Records (client : List ClientCall → Reply Obj) (threadId : String) (s : ContextState)
    (events : List RecordedEvent) (t : ContextState) : Prop where
  calls : ∃ made, t.calls = s.calls ++ made ∧ recordedEvents client s.calls made = events
  linked : Linked (·.parents) (·.commitId) (s.lastParents threadId) events (t.lastParents threadId)

namespace Records

variable {client : List ClientCall → Reply Obj} {u : ContextState} {events more : List RecordedEvent}

theorem refl (s : ContextState) : Records client threadId s [] s := ⟨⟨[], (List.append_nil _).symm, rfl⟩, rfl⟩

theorem trans (first : Records client threadId s events t) (second : Records client threadId t more u) :
    Records client threadId s (events ++ more) u := by
  obtain ⟨⟨made, grown, rfl⟩, linked⟩ := first
  obtain ⟨⟨further, again, rfl⟩, linked'⟩ := second
  refine ⟨⟨made ++ further, by rw [again, grown, List.append_assoc], ?_⟩, linked.append linked'⟩
  rw [recordedEvents_append, ← grown]

end Records

/-- Each checkpoint is answered with a commit. -/
def Answers (client : List ClientCall → Reply Obj) : Prop :=
  ∀ calls call, call.isCheckpoint = true → ∃ commitId ≠ "", client (calls ++ [call]) = .resolved (some commitId)

/-- Nothing else happens while a call is awaited. -/
def Alone (world : AdapterWorld Obj) : Prop := ∀ s, world.meanwhile s = s

theorem call_of_error {raised : Thrown Obj} :
    call world context (.error raised) s = (warn world context raised, s) := rfl

/-- The state after a call depends only on what the client is called with. -/
theorem call_state (alone : Alone world) {request : ClientCall} :
    (call world context (.ok request) s).2 = { s with calls := s.calls ++ [request] } := by
  rw [call]
  rw [alone]
  split
  · rfl
  · rfl

theorem call_of_resolved (alone : Alone world) {request : ClientCall} {commitId : Option String}
    (answered : world.client (s.calls ++ [request]) = .resolved commitId) :
    call world context (.ok request) s = (.ok (commitIdOf commitId), { s with calls := s.calls ++ [request] }) := by
  rw [call]
  rw [answered, alone]

theorem registerCall_registers {request : ClientCall} (made : registerCall world context threadId = .ok request)
    (before : List ClientCall) : recordedEvents world.client before [request] = [] := by
  obtain ⟨metadata, _, same⟩ := bind_eq_ok_iff.1 made
  obtain rfl := Except.ok.inj same
  rfl

theorem register_performs {u : ContextState} (alone : Alone world)
    (run : register world context threadId s = (.ok (), u)) :
    threadId ∈ u.registeredThreads ∧ u.lastCommitByThread = s.lastCommitByThread ∧
      Records world.client threadId s [] u := by
  rw [register, Fallible.bind_of_ok (Fallible.get_eq_iff.2 ⟨rfl, rfl⟩)] at run
  by_cases known : threadId ∈ s.registeredThreads
  · rw [if_pos known] at run
    obtain ⟨_, rfl⟩ := Fallible.pure_eq_iff.1 run
    exact ⟨known, rfl, .refl u⟩
  · rw [if_neg known] at run
    obtain ⟨_, m, called, run⟩ := Fallible.bind_eq_ok_iff.1 run
    obtain ⟨_, rfl⟩ := Fallible.modify_eq_iff.1 run
    refine ⟨List.mem_cons_self, ?_⟩
    cases made : registerCall world context threadId with
    | error raised =>
      rw [made, call_of_error] at called
      obtain ⟨_, rfl⟩ := Prod.mk.inj called
      exact ⟨rfl, ⟨[], (List.append_nil _).symm, rfl⟩, rfl⟩
    | ok request =>
      have after : (call world context (registerCall world context threadId) s).2 =
          { s with calls := s.calls ++ [request] } := by
        rw [made, call_state alone]
      rw [called] at after
      subst after
      exact ⟨rfl, ⟨[request], rfl, registerCall_registers made _⟩, rfl⟩

/-- The state of the client when the event has got its commit -/
theorem checkpointEvent_records {event : AdapterEvent Obj} {state : JsonMap} {u : ContextState}
    (alone : Alone world) (registers : register world context event.fields.threadId s = (.ok (), u))
    (parented : event.fields.parentCommitIds = s.lastParents event.fields.threadId)
    (sends : checkpointPayload world event = .ok state)
    (answered : Answers world.client) :
    ∃ commitId t, checkpointEvent world context event s = (.ok [commitId], t) ∧
      event.fields.threadId ∈ t.registeredThreads ∧ Records world.client event.fields.threadId s
        [⟨JsonMap.get "event_type" state, JsonMap.get "output" state, event.fields.parentCommitIds, some commitId⟩]
        t := by
  obtain ⟨registered, kept, records⟩ := register_performs alone registers
  have last : u.lastParents event.fields.threadId = s.lastParents event.fields.threadId := by
    rw [ContextState.lastParents, kept, ContextState.lastParents]
  have own : withLastParents u event = event := by
    rw [withLastParents]
    split
    · rw [last, ← parented]
    · rfl
  obtain ⟨request, made, kind, fields⟩ : ∃ request, checkpointCall world context event = .ok request ∧
      request.isCheckpoint = true ∧ ∀ before, recordedEvents world.client before [request] = [⟨JsonMap.get "event_type" state,
        JsonMap.get "output" state, event.fields.parentCommitIds, (world.client (before ++ [request])).commitId⟩] := by
    refine ⟨_, bind_eq_ok_iff.2 ⟨state, sends, rfl⟩, rfl, fun before => rfl⟩
  obtain ⟨commitId, named, answer⟩ := answered u.calls request kind
  have called : call world context (.ok request) u = _ := call_of_resolved alone answer
  have kept : commitIdOf (some commitId) = some ⟨commitId, named⟩ := dif_pos named
  refine ⟨commitId, { u with
    calls := u.calls ++ [request]
    lastCommitByThread := u.lastCommitByThread.insert event.fields.threadId ⟨commitId, named⟩ }, ?_, registered, ?_⟩
  · rw [checkpointEvent, Fallible.bind_of_ok registers, Fallible.bind_of_ok (Fallible.get_eq_iff.2 ⟨rfl, rfl⟩), own,
      made, Fallible.bind_of_ok called, kept]
    rfl
  · refine records.trans ⟨⟨[request], rfl, ?_⟩, ?_⟩
    · rw [fields, answer, Reply.commitId]
    · refine ⟨parented.trans last.symm, commitId, rfl, ?_⟩
      rw [Linked, ContextState.lastParents, Finmap.lookup_insert]
      rfl

/-- `JSON.parse(JSON.stringify(..))` of the data of an event -/
def copies (runtime : Runtime Obj) (data : List (String × EventData Obj)) :
    Except (Thrown Obj) (List (String × Option Json)) :=
  data.mapM fun (name, value) => (value.clone runtime).map fun json => (name, json)

/-- What an event is sent with of its data -/
def sentData (engine : RegexEngine) (data : List (String × Option Json)) : JsonMap :=
  data.filterMap fun (name, json) => json.map fun json => (name, Sdk.redactValue engine json)

theorem exists_checkpointPayload {event : AdapterEvent Obj} {data : List (String × Option Json)}
    (copied : copies world.runtime event.data = .ok data) : ∃ state, checkpointPayload world event = .ok state :=
  ⟨_, bind_eq_ok_iff.2 ⟨data, copied, rfl⟩⟩

/-- The payload of an event without outputs of its own -/
theorem get_checkpointPayload {event : AdapterEvent Obj} {state : JsonMap} {data : List (String × Option Json)}
    (copied : copies world.runtime event.data = .ok data) (sends : checkpointPayload world event = .ok state)
    (typed : event.fields.eventType ∈ eventTypes) (bare : event.fields.output = none) :
    JsonMap.get "event_type" state = some (.string event.fields.eventType) ∧
      JsonMap.get "output" state = JsonMap.get "output" (sentData world.engine data) := by
  obtain ⟨_, copied', same⟩ := bind_eq_ok_iff.1 sends
  obtain rfl := Except.ok.inj (copied'.symm.trans copied)
  obtain rfl := Except.ok.inj same
  constructor
  · rw [JsonMap.get_append, JsonMap.get_filter_keys _ fun _ => decide_eq_true (by decide : "event_type" ≠ "metadata"),
      get_eventToCheckpointPayload (by decide : ("event_type", "eventType") ∈ payloadProperties),
      get_properties (by simp [UniversalAgentEvent.entries] :
        ("eventType", some (.string event.fields.eventType)) ∈ event.fields.entries)]
    have known : event.fields.eventType ∈ "nexus.universal.v1" :: (frameworks ++ eventTypes) :=
      List.mem_cons_of_mem _ (List.mem_append_right _ typed)
    exact congrArg (fun text => some (Json.string text)) (redactText_of_known known)
  · rw [JsonMap.get_append, JsonMap.get_filter_keys _ fun _ => decide_eq_true (by decide : "output" ≠ "metadata"),
      get_eventToCheckpointPayload (by decide : ("output", "output") ∈ payloadProperties),
      get_properties (by simp [UniversalAgentEvent.entries, bare] : ("output", none) ∈ event.fields.entries)]
    rfl

/-- Awaiting an event that passes the checks, once its thread is registered -/
theorem record_records (input : EventInput Obj) {u : ContextState} {data : List (String × Option Json)}
    (alone : Alone world)
    (answered : Answers world.client)
    (given : adapterVersion world context = .ok version) (named : Named context version threadId)
    (typed : input.eventType ∈ eventTypes) (clocked : Clocked world.numbers (world.ambient s.events))
    (registers : register world context threadId { s with events := s.events + 1 } = (.ok (), u))
    (copied : copies world.runtime (input.data ++ [("metadata", .record context.metadata)]) = .ok data) :
    ∃ commitId t, record world context threadId (.ok input) s = (.ok [commitId], t) ∧
      threadId ∈ t.registeredThreads ∧ Records world.client threadId s [⟨some (.string input.eventType),
        JsonMap.get "output" (sentData world.engine data), s.lastParents threadId, some commitId⟩] t := by
  have built := event_eq_ok_iff.2 ⟨version, ⟨given, named, typed, clocked⟩, rfl, rfl⟩
  obtain ⟨state, sends⟩ := @exists_checkpointPayload Obj world ⟨builtFields (world.ambient s.events) context version
    threadId (s.lastParents threadId) input, input.data ++ [("metadata", .record context.metadata)]⟩ data copied
  obtain ⟨commitId, t, checkpoints, registered, records⟩ := checkpointEvent_records alone registers rfl sends answered
  obtain ⟨eventType, output⟩ := get_checkpointPayload copied sends typed rfl
  rw [eventType, output] at records
  refine ⟨commitId, t, ?_, registered, records.calls, records.linked⟩
  rw [record, Fallible.lift_ok_bind, Fallible.bind_of_ok built]
  exact checkpoints

end Recording

end NexusAdapterContext

end TypeScript

end AttowNexus
