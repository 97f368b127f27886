import AttowNexus.Model.PythonEvents

/-! # Events of the TypeScript SDK

`universal.ts`, on JSON data. A missing property is `undefined`. Numbers are doubles, so what is written back may not
be the number that was read; what is assumed of them is that integers up to 2^53 are kept.
-/

namespace AttowNexus

/-- The numbers of the language, as far as JSON data shows them. -/
structure DoubleFormat where
  /-- `Number.isInteger` of what `JSON.parse` reads -/
  isInteger : JsonNumber → Bool
  /-- Whether it is greater than 0 -/
  isPositive : JsonNumber → Bool
  /-- What `JSON.stringify` writes for it -/
  rewrite : JsonNumber → Json
  isInteger_posInt : ∀ n ≤ 9007199254740992, isInteger (.posInt n) = true
  isPositive_posInt : ∀ n ≤ 9007199254740992, isPositive (.posInt n) = decide (0 < n)
  rewrite_posInt : ∀ n ≤ 9007199254740992, rewrite (.posInt n) = .number (.posInt n)

/-- Doubles that keep the integers they are given. -/
def DoubleFormat.plain : DoubleFormat where
  isInteger
    | .float _ => false
    | _ => true
  isPositive
    | .posInt n => decide (0 < n)
    | _ => false
  rewrite := .number
  isInteger_posInt _ _ := rfl
  isPositive_posInt _ _ := rfl
  rewrite_posInt _ _ := rfl

namespace TypeScript

@[ext]
structure UniversalAgentEvent where
  schemaVersion : String
  sdkName : String
  sdkVersion : String
  adapterName : String
  adapterVersion : String
  eventId : String
  runId : String
  threadId : String
  agentId : String
  framework : String
  frameworkVersion : Option String
  language : String
  eventType : String
  channel : String
  stepName : Option String
  nodeName : Option String
  taskName : Option String
  toolName : Option String
  input : Option Json
  output : Option Json
  delta : Option Json
  messages : Option (List Json)
  error : Option JsonMap
  metadata : JsonMap
  tags : List String
  parentCommitIds : List String
  timestampMs : JsonNumber

/-- `??` -/
def orElse (value fallback : Option Json) : Option Json :=
  match value with
  | none => fallback
  | some .null => fallback
  | some value => some value

def stringValue (value : Option Json) (field : String) (fallback : Option String) : Except String String :=
  match orElse value (fallback.map .string) with
  | some (.string resolved) =>
      if resolved = "" then .error ("UniversalAgentEvent." ++ field ++ " is required") else .ok resolved
  | _ => .error ("UniversalAgentEvent." ++ field ++ " is required")

def optionalString (value : Option Json) : Except String (Option String) :=
  match value with
  | none => .ok none
  | some .null => .ok none
  | some (.string text) => .ok (if text = "" then none else some text)
  | some _ => .error "optional string fields must be strings when provided"

def eventTypeValue (value : Option Json) : Except String String :=
  match value with
  | some (.string text) =>
      if eventTypes.contains text then .ok text
      else .error ("event_type must be one of " ++ ", ".intercalate eventTypes)
  | _ => .error ("event_type must be one of " ++ ", ".intercalate eventTypes)

def recordValue (value : Option Json) (field : String) (fallback : JsonMap) : Except String JsonMap :=
  match value with
  | none => .ok fallback
  | some .null => .ok fallback
  | some (.object members) => .ok members
  | some _ => .error (field ++ " must be an object")

def optionalRecord (value : Option Json) (field : String) : Except String (Option JsonMap) :=
  match value with
  | none => .ok none
  | some .null => .ok none
  | some value => (recordValue (some value) field []).map some

def optionalMessages (value : Option Json) : Except String (Option (List Json)) :=
  match value with
  | none => .ok none
  | some .null => .ok none
  | some (.array items) => .ok (some items)
  | some _ => .error "messages must be an array when provided"

def stringArray (value : Option Json) (field : String) (fallback : List String) : Except String (List String) :=
  match value with
  | none => .ok fallback
  | some .null => .ok fallback
  | some (.array items) =>
      if items.all fun item => item.asStr.any (· ≠ "") then .ok (items.map fun item => item.asStr.getD "")
      else .error (field ++ " must be an array of strings")
  | some _ => .error (field ++ " must be an array of strings")

variable (engine : RegexEngine) (numbers : DoubleFormat)

def integerValue (value : Option Json) (field : String) (fallback : ℕ) : Except String JsonNumber :=
  match orElse value (some (.number (.posInt fallback))) with
  | some (.number resolved) =>
      if numbers.isInteger resolved then .ok resolved
      else .error (field ++ " must be an integer Unix timestamp in milliseconds")
  | _ => .error (field ++ " must be an integer Unix timestamp in milliseconds")

def channelForEvent (event : UniversalAgentEvent) : String :=
  if event.channel ≠ "" then event.channel
  else if event.toolName.any (· ≠ "") then "tool:" ++ event.runId ++ ":" ++ event.toolName.getD ""
  else if event.eventType = "run_start" ∨ event.eventType = "run_end" then
    "framework:" ++ event.framework ++ ":" ++ event.runId
  else if event.eventType ∈ ["step_end", "node_end", "task_end", "state_checkpoint"] then
    "state:" ++ event.runId ++ ":" ++ event.threadId
  else "events:" ++ event.runId ++ ":" ++ event.threadId

/-- The checks of one id in `validateEvent` -/
def validateId (field value : String) : Except String Unit :=
  if value = "" then .error ("UniversalAgentEvent." ++ field ++ " is required")
  else if isMatch idRe value = false then .error ("UniversalAgentEvent." ++ field ++ " contains invalid characters")
  else .ok ()

def validateEvent (event : UniversalAgentEvent) : Except String Unit := do
  if event.schemaVersion ≠ "nexus.universal.v1" then
    .error "UniversalAgentEvent.schema_version must be nexus.universal.v1"
  else do
    validateId "event_id" event.eventId
    validateId "run_id" event.runId
    validateId "thread_id" event.threadId
    validateId "agent_id" event.agentId
    if frameworks.contains event.framework = false then
      .error ("UniversalAgentEvent.framework must be one of " ++ ", ".intercalate frameworks)
    else if isMatch channelRe event.channel = false then .error "channel must match allowed Nexus channel pattern"
    else if numbers.isInteger event.timestampMs = false ∨ numbers.isPositive event.timestampMs = false then
      .error "timestamp_ms must be an integer Unix timestamp in milliseconds"
    else .ok ()

/-- The part of `normalizeEvent` in front of its last checks -/
def readEvent (ambient : SdkAmbient) (input : JsonMap) : Except String UniversalAgentEvent := do
  let read camel snake := orElse (input.get camel) (input.get snake)
  let schemaVersion ← stringValue (read "schemaVersion" "schema_version") "schema_version" (some "nexus.universal.v1")
  let sdkName ← stringValue (read "sdkName" "sdk_name") "sdk_name" (some "@nexus-ipc/sdk")
  let sdkVersion ← stringValue (read "sdkVersion" "sdk_version") "sdk_version" (some "0.1.0")
  let adapterName ← stringValue (read "adapterName" "adapter_name") "adapter_name" (some "generic")
  let adapterVersion ← stringValue (read "adapterVersion" "adapter_version") "adapter_version" (some "0.1.0")
  let eventId ← stringValue (read "eventId" "event_id") "event_id"
    (some ("evt_" ++ String.ofList (ambient.randomId.map fun digit => Nat.digitChar digit.val)))
  let runId ← stringValue (read "runId" "run_id") "run_id" none
  let threadId ← stringValue (read "threadId" "thread_id") "thread_id" none
  let agentId ← stringValue (read "agentId" "agent_id") "agent_id" none
  let framework ← stringValue (input.get "framework") "framework" none
  let frameworkVersion ← optionalString (read "frameworkVersion" "framework_version")
  let language ← stringValue (input.get "language") "language" (some "typescript")
  let eventType ← eventTypeValue (read "eventType" "event_type")
  let channel ← optionalString (input.get "channel")
  let stepName ← optionalString (read "stepName" "step_name")
  let nodeName ← optionalString (read "nodeName" "node_name")
  let taskName ← optionalString (read "taskName" "task_name")
  let toolName ← optionalString (read "toolName" "tool_name")
  let messages ← optionalMessages (input.get "messages")
  let error ← optionalRecord (input.get "error") "error"
  let metadata ← recordValue (input.get "metadata") "metadata" []
  let tags ← stringArray (input.get "tags") "tags" []
  let parentCommitIds ← stringArray (read "parentCommitIds" "parent_commit_ids") "parent_commit_ids" []
  let timestampMs ← integerValue numbers (read "timestampMs" "timestamp_ms") "timestamp_ms" ambient.now
  .ok ⟨schemaVersion, sdkName, sdkVersion, adapterName, adapterVersion, eventId, runId, threadId, agentId, framework,
    frameworkVersion, language, eventType, channel.getD "", stepName, nodeName, taskName, toolName, input.get "input",
    input.get "output", input.get "delta", messages, error, metadata, tags, parentCommitIds, timestampMs⟩

def normalizeEvent (ambient : SdkAmbient) (input : JsonMap) : Except String UniversalAgentEvent := do
  let event ← readEvent numbers ambient input
  let event := { event with channel := channelForEvent event }
  validateEvent numbers event
  .ok event

mutual

/-- `JSON.parse(JSON.stringify(value))` -/
def clone : Json → Json
  | .object members => .object (cloneMembers members)
  | .array items => .array (cloneItems items)
  | .number value => numbers.rewrite value
  | .string text => .string text
  | .bool flag => .bool flag
  | .null => .null

def cloneItems : List Json → List Json
  | [] => []
  | item :: rest => clone item :: cloneItems rest

def cloneMembers : List (String × Json) → List (String × Json)
  | [] => []
  | (key, child) :: rest => (key, clone child) :: cloneMembers rest

end

/-- The properties of an event, some of which may be `undefined` -/
def UniversalAgentEvent.entries (event : UniversalAgentEvent) : List (String × Option Json) :=
  [("schemaVersion", some (.string event.schemaVersion)), ("sdkName", some (.string event.sdkName)),
    ("sdkVersion", some (.string event.sdkVersion)), ("adapterName", some (.string event.adapterName)),
    ("adapterVersion", some (.string event.adapterVersion)), ("eventId", some (.string event.eventId)),
    ("runId", some (.string event.runId)), ("threadId", some (.string event.threadId)),
    ("agentId", some (.string event.agentId)), ("framework", some (.string event.framework)),
    ("frameworkVersion", event.frameworkVersion.map .string), ("language", some (.string event.language)),
    ("eventType", some (.string event.eventType)), ("channel", some (.string event.channel)),
    ("stepName", event.stepName.map .string), ("nodeName", event.nodeName.map .string),
    ("taskName", event.taskName.map .string), ("toolName", event.toolName.map .string), ("input", event.input),
    ("output", event.output), ("delta", event.delta), ("messages", event.messages.map .array),
    ("error", event.error.map .object), ("metadata", some (.object event.metadata)),
    ("tags", some (.array (event.tags.map .string))),
    ("parentCommitIds", some (.array (event.parentCommitIds.map .string))),
    ("timestampMs", some (.number event.timestampMs))]

/-- The properties of an event that are not `undefined` -/
def UniversalAgentEvent.properties (event : UniversalAgentEvent) : JsonMap :=
  event.entries.filterMap fun (key, value) => value.map (Prod.mk key)

/-- `redact(event).value` -/
def redactEvent (event : UniversalAgentEvent) : JsonMap :=
  Sdk.redactMembers engine (cloneMembers numbers event.properties)

/-- The properties of a payload, each with the property of the event that it comes from; the last ten are left out where
they are `undefined`. -/
def payloadProperties : List (String × String) :=
  [("schema_version", "schemaVersion"), ("sdk_name", "sdkName"), ("sdk_version", "sdkVersion"),
    ("adapter_name", "adapterName"), ("adapter_version", "adapterVersion"), ("event_id", "eventId"), ("run_id", "runId"),
    ("thread_id", "threadId"), ("agent_id", "agentId"), ("framework", "framework"), ("language", "language"),
    ("event_type", "eventType"), ("channel", "channel"), ("metadata", "metadata"), ("tags", "tags"),
    ("parent_commit_ids", "parentCommitIds"), ("timestamp_ms", "timestampMs"),
    ("framework_version", "frameworkVersion"), ("step_name", "stepName"), ("node_name", "nodeName"),
    ("task_name", "taskName"), ("tool_name", "toolName"), ("input", "input"), ("output", "output"), ("delta", "delta"),
    ("messages", "messages"), ("error", "error")]

def eventToCheckpointPayload (event : UniversalAgentEvent) : JsonMap :=
  let clean := redactEvent engine numbers event
  payloadProperties.filterMap fun (snake, camel) => (clean.get camel).map (Prod.mk snake)

end TypeScript

end AttowNexus
