import AttowNexus.Model.External
import AttowNexus.Model.SdkRedaction
import AttowNexus.Model.UniversalEvent

/-! # Events of the Python SDK

`universal.py`, on JSON data. A pydantic model checks its fields one by one and keeps the defaults of those that are not
given without checking them; of the errors it collects, the first stands for all. `None` is the null of JSON, and
a true `timestamp_ms` is the integer 1.
-/

namespace AttowNexus

/-- What a call of an SDK takes from its environment. -/
structure SdkAmbient where
  /-- `uuid.uuid4()` -/
  eventUuid : Uuid
  /-- The digits of `randomId()`, in base 16 -/
  randomId : List (Fin 16)
  /-- `int(time.time() * 1000)`, `Date.now()` -/
  now : ℕ

namespace Python

open Regex

/-- `pattern.match`: the end anchor may stand before a last newline. -/
def isMatch (regex : Regex) (text : String) : Bool := matchesLine .ascii regex text.toList

inductive FieldError where
  /-- An error of pydantic itself -/
  | invalid (field : String)
  /-- The `ValueError` of a validator -/
  | value (field message : String)
deriving DecidableEq, Repr

@[ext]
structure UniversalAgentEvent where
  schemaVersion : String
  sdkName : String
  sdkVersion : String
  adapterName : String
  adapterVersion : String
  eventId : String
  runId : String
  threadId : String
  agentId : String
  framework : String
  frameworkVersion : Option String
  language : String
  eventType : String
  channel : String
  stepName : Option String
  nodeName : Option String
  taskName : Option String
  toolName : Option String
  input : Json
  output : Json
  delta : Json
  messages : Option (List Json)
  error : Option JsonMap
  metadata : JsonMap
  tags : List String
  parentCommitIds : List String
  timestampMs : ℕ

section Validators

/-- A validator of a string gives the message of its error. -/
abbrev Validator := String → Option String

def validSchemaVersion : Validator := fun value =>
  if value ≠ "nexus.universal.v1" then some "UniversalAgentEvent.schema_version must be nexus.universal.v1" else none

def requiredId (field : String) : Validator := fun value =>
  if value = "" then some ("UniversalAgentEvent." ++ field ++ " is required")
  else if isMatch idRe value = false then some ("UniversalAgentEvent." ++ field ++ " contains invalid characters")
  else none

def validFramework : Validator := fun value =>
  if frameworks.contains value = false then
    some ("UniversalAgentEvent.framework must be one of " ++ ", ".intercalate frameworks)
  else none

def validChannel : Validator := fun value =>
  if value ≠ "" ∧ isMatch channelRe value = false then some "channel must match allowed Nexus channel pattern" else none

/-- A field of type `str` -/
def strField (given : Option Json) (field : String) (default : Option String) (validator : Validator) :
    Except FieldError String :=
  match given with
  | none =>
      match default with
      | none => .error (.invalid field)
      | some value => .ok value
  | some (.string value) =>
      match validator value with
      | none => .ok value
      | some message => .error (.value field message)
  | some _ => .error (.invalid field)

/-- A field of type `Literal[..]` -/
def literalField (given : Option Json) (field : String) (allowed : List String) : Except FieldError String :=
  match given with
  | some (.string value) => if allowed.contains value then .ok value else .error (.invalid field)
  | _ => .error (.invalid field)

/-- A field of type `str | None` -/
def optionalStrField (given : Option Json) (field : String) : Except FieldError (Option String) :=
  match given with
  | none => .ok none
  | some .null => .ok none
  | some (.string value) => .ok (some value)
  | some _ => .error (.invalid field)

/-- A field of type `list[Any] | None` -/
def optionalListField (given : Option Json) (field : String) : Except FieldError (Option (List Json)) :=
  match given with
  | none => .ok none
  | some .null => .ok none
  | some (.array items) => .ok (some items)
  | some _ => .error (.invalid field)

/-- A field of type `dict[str, Any] | None` -/
def optionalDictField (given : Option Json) (field : String) : Except FieldError (Option JsonMap) :=
  match given with
  | none => .ok none
  | some .null => .ok none
  | some (.object members) => .ok (some members)
  | some _ => .error (.invalid field)

/-- A field of type `dict[str, Any]` that starts empty -/
def dictField (given : Option Json) (field : String) : Except FieldError JsonMap :=
  match given with
  | none => .ok []
  | some (.object members) => .ok members
  | some _ => .error (.invalid field)

/-- A field of type `list[str]` that starts empty -/
def strListField (given : Option Json) (field : String) : Except FieldError (List String) :=
  match given with
  | none => .ok []
  | some (.array items) =>
      if items.all fun item => item.asStr.isSome then .ok (items.map fun item => item.asStr.getD "")
      else .error (.invalid field)
  | some _ => .error (.invalid field)

/-- `parent_commit_ids`, with its validator in front -/
def validParentCommitIds (given : Option Json) : Except FieldError (List String) :=
  match given with
  | some .null => .ok []
  | some (.array items) =>
      if items.all fun item => item.asStr.any (· ≠ "") then strListField given "parent_commit_ids"
      else .error (.value "parent_commit_ids" "parent_commit_ids must be an array of commit ID strings")
  | some _ => .error (.value "parent_commit_ids" "parent_commit_ids must be an array of commit ID strings")
  | none => .ok []

/-- `timestamp_ms`, with its validator in front: a `bool` is an `int`. -/
def validTimestampMs (given : Option Json) (now : ℕ) : Except FieldError ℕ :=
  match given with
  | none => .ok now
  | some (.bool true) => .ok 1
  | some (.number (.posInt value)) =>
      if 0 < value then .ok value
      else .error (.value "timestamp_ms" "timestamp_ms must be an integer Unix timestamp in milliseconds")
  | some _ => .error (.value "timestamp_ms" "timestamp_ms must be an integer Unix timestamp in milliseconds")

end Validators

namespace UniversalAgentEvent

/-- `UniversalAgentEvent(**kwargs)` and `model_validate` -/
def modelValidate (ambient : SdkAmbient) (data : JsonMap) : Except FieldError UniversalAgentEvent := do
  let anyStr : Validator := fun _ => none
  let schemaVersion ← strField (data.get "schema_version") "schema_version" (some "nexus.universal.v1") validSchemaVersion
  let sdkName ← strField (data.get "sdk_name") "sdk_name" (some "nexus-ipc") anyStr
  let sdkVersion ← strField (data.get "sdk_version") "sdk_version" (some "0.1.0") anyStr
  let adapterName ← strField (data.get "adapter_name") "adapter_name" (some "generic") anyStr
  let adapterVersion ← strField (data.get "adapter_version") "adapter_version" (some "0.1.0") anyStr
  let eventId ← strField (data.get "event_id") "event_id" (some (newId "evt" ambient.eventUuid)) (requiredId "event_id")
  let runId ← strField (data.get "run_id") "run_id" none (requiredId "run_id")
  let threadId ← strField (data.get "thread_id") "thread_id" none (requiredId "thread_id")
  let agentId ← strField (data.get "agent_id") "agent_id" none (requiredId "agent_id")
  let framework ← strField (data.get "framework") "framework" none validFramework
  let frameworkVersion ← optionalStrField (data.get "framework_version") "framework_version"
  let language ← strField (data.get "language") "language" (some "python") anyStr
  let eventType ← literalField (data.get "event_type") "event_type" eventTypes
  let channel ← strField (data.get "channel") "channel" (some "") validChannel
  let stepName ← optionalStrField (data.get "step_name") "step_name"
  let nodeName ← optionalStrField (data.get "node_name") "node_name"
  let taskName ← optionalStrField (data.get "task_name") "task_name"
  let toolName ← optionalStrField (data.get "tool_name") "tool_name"
  let input := (data.get "input").getD .null
  let output := (data.get "output").getD .null
  let delta := (data.get "delta").getD .null
  let messages ← optionalListField (data.get "messages") "messages"
  let error ← optionalDictField (data.get "error") "error"
  let metadata ← dictField (data.get "metadata") "metadata"
  let tags ← strListField (data.get "tags") "tags"
  let parentCommitIds ← validParentCommitIds (data.get "parent_commit_ids")
  let timestampMs ← validTimestampMs (data.get "timestamp_ms") ambient.now
  .ok ⟨schemaVersion, sdkName, sdkVersion, adapterName, adapterVersion, eventId, runId, threadId, agentId, framework,
    frameworkVersion, language, eventType, channel, stepName, nodeName, taskName, toolName, input, output, delta, messages,
    error, metadata, tags, parentCommitIds, timestampMs⟩

/-- A string, or `None` -/
def ofOptionalStr (value : Option String) : Json := (value.map .string).getD .null

/-- `model_dump` -/
def modelDump (event : UniversalAgentEvent) : JsonMap :=
  [("schema_version", .string event.schemaVersion), ("sdk_name", .string event.sdkName),
    ("sdk_version", .string event.sdkVersion), ("adapter_name", .string event.adapterName),
    ("adapter_version", .string event.adapterVersion), ("event_id", .string event.eventId),
    ("run_id", .string event.runId), ("thread_id", .string event.threadId), ("agent_id", .string event.agentId),
    ("framework", .string event.framework), ("framework_version", ofOptionalStr event.frameworkVersion),
    ("language", .string event.language), ("event_type", .string event.eventType), ("channel", .string event.channel),
    ("step_name", ofOptionalStr event.stepName), ("node_name", ofOptionalStr event.nodeName),
    ("task_name", ofOptionalStr event.taskName), ("tool_name", ofOptionalStr event.toolName), ("input", event.input),
    ("output", event.output), ("delta", event.delta), ("messages", (event.messages.map .array).getD .null),
    ("error", (event.error.map .object).getD .null), ("metadata", .object event.metadata),
    ("tags", .array (event.tags.map .string)), ("parent_commit_ids", .array (event.parentCommitIds.map .string)),
    ("timestamp_ms", .number (.posInt event.timestampMs))]

/-- `model_dump(exclude_none=True)`: a field that is `None` is left out. -/
def modelDumpExcludeNone (event : UniversalAgentEvent) : JsonMap :=
  event.modelDump.filter fun member => !member.2.isNull

end UniversalAgentEvent

/-- The string under a key, as `str(data[key])` gives it for a string -/
def textAt (data : JsonMap) (key : String) : String := ((data.get key).bind (·.asStr)).getD ""

def channelForEvent (data : JsonMap) : String :=
  let runId := textAt data "run_id"
  if textAt data "channel" ≠ "" then textAt data "channel"
  else if textAt data "tool_name" ≠ "" then "tool:" ++ runId ++ ":" ++ textAt data "tool_name"
  else if textAt data "event_type" ∈ ["run_start", "run_end"] then
    "framework:" ++ textAt data "framework" ++ ":" ++ runId
  else if textAt data "event_type" ∈ ["step_end", "node_end", "task_end", "state_checkpoint"] then
    "state:" ++ runId ++ ":" ++ textAt data "thread_id"
  else "events:" ++ runId ++ ":" ++ textAt data "thread_id"

variable (engine : RegexEngine) (ambient : SdkAmbient)

def normalizeEvent (kwargs : JsonMap) : Except FieldError UniversalAgentEvent := do
  let event ← UniversalAgentEvent.modelValidate ambient kwargs
  .ok (if event.channel = "" then { event with channel := channelForEvent event.modelDump } else event)

def redactEvent (event : UniversalAgentEvent) : Except FieldError UniversalAgentEvent :=
  UniversalAgentEvent.modelValidate ambient (Sdk.redactMembers engine event.modelDump)

/-- What `event_to_checkpoint_payload` makes of an event whose data is JSON, which `safe_jsonable` leaves as it is. Events
with data of any kind are in `SdkEvents`. -/
def eventToJsonPayload (event : UniversalAgentEvent) : Except FieldError JsonMap := do
  let clean ← redactEvent engine ambient event
  .ok clean.modelDumpExcludeNone

end Python

end AttowNexus
