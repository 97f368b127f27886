import AttowNexus.Library.Regex.Anchored
import AttowNexus.Model.Json
import Mathlib.Tactic.Common

/-! # Universal events at the daemon

The part of `http/api.rs` that reads a universal agent event. The fields are checked in a fixed order, and the first
one that fails gives the message of the refusal.
-/

namespace AttowNexus

open Regex

inductive StatusCode where
  | badRequest
deriving DecidableEq, Repr, Inhabited

/-- The error type of the handlers -/
abbrev Refusal := StatusCode × String

/-- `ID_RE`, without its anchors -/
def idRe : Regex :=
  plus (oneOf [('A', 'Z'), ('a', 'z'), ('0', '9'), ('_', '_'), ('.', '.'), (':', ':'), ('-', '-')])

/-- `CHANNEL_RE`, without its anchors -/
def channelRe : Regex :=
  all [oneOf [('a', 'z')], star (oneOf [('a', 'z'), ('0', '9'), ('_', '_')]), char ':',
    plus (oneOf [('A', 'Z'), ('a', 'z'), ('0', '9'), ('_', '_'), ('.', '.'), (':', ':'), ('-', '-'), ('*', '*')])]

/-- `is_match` of an anchored pattern. The classes name their characters, so no table is asked. -/
def isMatch (regex : Regex) (text : String) : Bool := matchesWhole Alphabet.ascii regex text.toList

/-- The frameworks that an event may come from -/
def frameworks : List String :=
  ["autogen", "crewai", "custom", "generic", "langgraph", "microsoft-agent-framework", "vercel-ai"]

def eventTypes : List String :=
  ["run_start", "run_end", "step_start", "step_end", "node_start", "node_end", "task_start", "task_end", "tool_start",
    "tool_end", "stream_delta", "message_delta", "state_checkpoint", "error", "custom"]

structure UniversalEventBody where
  runId : String
  threadId : String
  agentId : String
  framework : String
  eventType : String
  channel : String
  tags : List String
  parentCommitIds : List String
  metadata : Json

namespace Json

/-- `as_str` -/
def asStr : Json → Option String
  | .string text => some text
  | _ => none

def isNull : Json → Bool
  | .null => true
  | _ => false

/-- `as_object` -/
def asObject : Json → Option JsonMap
  | .object members => some members
  | _ => none

end Json

/-- `Number::as_i64` -/
def JsonNumber.asI64 : JsonNumber → Option ℤ
  | .posInt value => if value ≤ 9223372036854775807 then some value else none
  | .negInt value => some value
  | .float _ => none

def requiredString (object : JsonMap) (field display : String) : Except Refusal String :=
  match object.get field with
  | some (.string value) => if value ≠ "" then .ok value else .error (.badRequest, display ++ " is required")
  | _ => .error (.badRequest, display ++ " is required")

/-- A required string that has to pass a check. -/
def requiredChecked (allowed : String → Bool) (object : JsonMap) (field message : String) : Except Refusal String := do
  let value ← requiredString object field ("UniversalAgentEvent." ++ field)
  if allowed value = false then .error (.badRequest, message) else .ok value

def requiredId (object : JsonMap) (field : String) : Except Refusal String :=
  requiredChecked (isMatch idRe) object field ("UniversalAgentEvent." ++ field ++ " contains invalid characters")

def optionalStringArray (value : Option Json) (field : String) : Except Refusal (List String) :=
  match value with
  | none => .ok []
  | some (.array values) =>
      if values.all fun item => item.asStr.isSome then .ok (values.map fun item => item.asStr.getD "")
      else .error (.badRequest, field ++ " must be an array of commit ID strings")
  | some _ => .error (.badRequest, field ++ " must be an array of commit ID strings")

/-- The check of `timestamp_ms` -/
def requiredTimestamp (value : Option Json) : Except Refusal Unit :=
  match value with
  | some (.number number) =>
      if number.asI64.any (0 < ·) then .ok ()
      else .error (.badRequest, "timestamp_ms must be an integer Unix timestamp in milliseconds")
  | _ => .error (.badRequest, "timestamp_ms must be an integer Unix timestamp in milliseconds")

namespace UniversalEventBody

def tryFromValue (value : Json) : Except Refusal UniversalEventBody :=
  match value.asObject with
  | none => .error (.badRequest, "UniversalAgentEvent must be a JSON object")
  | some object => do
      let _ ← requiredChecked (· = "nexus.universal.v1") object "schema_version"
        "UniversalAgentEvent.schema_version must be nexus.universal.v1"
      let runId ← requiredId object "run_id"
      let threadId ← requiredId object "thread_id"
      let agentId ← requiredId object "agent_id"
      let _ ← requiredId object "event_id"
      let framework ← requiredChecked frameworks.contains object "framework"
        "UniversalAgentEvent.framework must be one of autogen, crewai, custom, generic, langgraph, microsoft-agent-framework, vercel-ai"
      let eventType ← requiredChecked eventTypes.contains object "event_type"
        "UniversalAgentEvent.event_type is not supported by nexus.universal.v1"
      let channel ← requiredChecked (isMatch channelRe) object "channel"
        "channel must match allowed Nexus channel pattern"
      requiredTimestamp (object.get "timestamp_ms")
      let tags ← optionalStringArray (object.get "tags") "tags"
      let parentCommitIds ← optionalStringArray (object.get "parent_commit_ids") "parent_commit_ids"
      let metadata := (object.get "metadata").getD (.object [])
      if metadata.asObject.isNone then .error (.badRequest, "metadata must be an object")
      else .ok ⟨runId, threadId, agentId, framework, eventType, channel, tags, parentCommitIds, metadata⟩

end UniversalEventBody

def validateUniversalEvent (value : Json) : Except Refusal Unit :=
  (UniversalEventBody.tryFromValue value).map fun _ => ()

end AttowNexus
