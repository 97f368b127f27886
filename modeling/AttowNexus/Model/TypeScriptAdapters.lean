import AttowNexus.Library.Fallible
import AttowNexus.Model.DagIndex
import AttowNexus.Model.TypeScriptEvents

/-! # The base of the TypeScript adapters

`adapters/base.ts`. Whatever is thrown in a guarded call is written to the console, as a string. What other calls of the
same context do while one is awaited may be anything. The user data of an event is kept apart from its other fields, as
values of the language.
-/

namespace AttowNexus

namespace TypeScript

/-- A value, as far as the adapters look into it -/
inductive Value (Obj : Type) where
  | undefined
  | null
  | text (text : String)
  | other (name : Obj)
deriving DecidableEq, Repr

/-- What can be thrown: an `Error` that the SDK makes, or any value -/
inductive Thrown (Obj : Type) where
  | error (message : String)
  | value (value : Value Obj)
deriving DecidableEq, Repr

structure Runtime (Obj : Type) where
  /-- `String(value)` -/
  toString : Obj → Except (Thrown Obj) String
  /-- What `JSON.parse(JSON.stringify(..))` makes of a property with this value, if it keeps it -/
  clone : Obj → Except (Thrown Obj) (Option Json)
  /-- The name and the message of an `Error` -/
  asError : Obj → Except (Thrown Obj) (Option (Value Obj × Value Obj))
  /-- A function on an argument -/
  call : Value Obj → Value Obj → Except (Thrown Obj) (Value Obj)

/-- User data in an event: a value, or an object that the adapter makes of values -/
inductive EventData (Obj : Type) where
  | value (value : Value Obj)
  | record (entries : List (String × Value Obj))

inductive ClientCall where
  | registerAgent (agentId runId threadId framework language : String) (capabilities : List String)
      (metadata : List (String × String))
  | checkpoint (channel agentId runId threadId : String) (state : JsonMap) (summary : String) (tags : List String)
      (metadata : List (String × String)) (parentCommitIds : List String)

/-- What comes of a call. A commit id that is empty counts as none. -/
inductive Reply (Obj : Type) where
  | rejected (raised : Thrown Obj)
  | resolved (commitId : Option String)

/-- A commit id that is not empty -/
abbrev CommitId := { commitId : String // commitId ≠ "" }

structure ContextState where
  registeredThreads : List String
  lastCommitByThread : HashMap String CommitId
  calls : List ClientCall
  /-- How many events were built so far -/
  events : ℕ

/-- What an adapter runs in -/
structure AdapterWorld (Obj : Type) where
  runtime : Runtime Obj
  engine : RegexEngine
  numbers : DoubleFormat
  /-- The clock and the ids for each event -/
  ambient : ℕ → SdkAmbient
  /-- The answer to the last of these calls -/
  client : List ClientCall → Reply Obj
  /-- What else happens until a call is answered -/
  meanwhile : ContextState → ContextState

structure NexusAdapterContextOptions (Obj : Type) where
  frameworkName : String
  runId : String
  agentId : String
  threadId : Option String
  failOpen : Bool
  /-- With the name of the framework in front -/
  tags : List String
  metadata : List (String × Value Obj)

/-- An event with the fields that hold user data -/
structure AdapterEvent (Obj : Type) where
  fields : UniversalAgentEvent
  data : List (String × EventData Obj)

/-- The input of `event`, whose thread is given apart -/
structure EventInput (Obj : Type) where
  eventType : String
  stepName : String
  /-- `input`, `output` or `error` -/
  data : List (String × EventData Obj)

abbrev Adapter (Obj α : Type) := Fallible ContextState (Thrown Obj) α

section Values

variable {Obj : Type} (runtime : Runtime Obj)

/-- `String(value)` -/
def Value.print : Value Obj → Except (Thrown Obj) String
  | .undefined => .ok "undefined"
  | .null => .ok "null"
  | .text content => .ok content
  | .other name => runtime.toString name

/-- `String(error)` -/
def Thrown.print : Thrown Obj → Except (Thrown Obj) String
  | .error message => .ok ("Error: " ++ message)
  | .value thrown => thrown.print runtime

/-- `value ?? fallback` -/
def Value.orElse (fallback : Value Obj) : Value Obj → Value Obj
  | .undefined => fallback
  | .null => fallback
  | value => value

def Value.clone : Value Obj → Except (Thrown Obj) (Option Json)
  | .undefined => .ok none
  | .null => .ok (some .null)
  | .text content => .ok (some (.string content))
  | .other name => runtime.clone name

def EventData.clone : EventData Obj → Except (Thrown Obj) (Option Json)
  | .value given => given.clone runtime
  | .record entries => do
      let members ← entries.mapM fun (key, child) => (child.clone runtime).map fun json => json.map fun json => (key, json)
      .ok (some (.object (members.filterMap id)))

end Values

def defaultThreadId (runId framework : String) : String := runId ++ ":main:" ++ framework

/-- `result?.commitId`, where it counts -/
def commitIdOf (commitId : Option String) : Option CommitId :=
  commitId.bind fun text => if named : text ≠ "" then some ⟨text, named⟩ else none

/-- `lastCommitByThread.get(threadId)`, as a list of parents -/
def ContextState.lastParents (threadId : String) (s : ContextState) : List String :=
  ((s.lastCommitByThread.lookup threadId).map (·.val)).toList

namespace NexusAdapterContext

variable {Obj : Type} (world : AdapterWorld Obj) (context : NexusAdapterContextOptions Obj)

def deriveThreadId (threadId : Option String) : String :=
  (threadId.or context.threadId).getD (defaultThreadId context.runId context.frameworkName)

/-- The `catch` of `call` -/
def warn (raised : Thrown Obj) : Except (Thrown Obj) (Option CommitId) :=
  if context.failOpen then (raised.print world.runtime).map fun _ => none else .error raised

/-- `call`, with the commit id of the result. The arguments of the client are made in the guarded function. -/
def call (request : Except (Thrown Obj) ClientCall) : Adapter Obj (Option CommitId) := fun s =>
  match request with
  | .error raised => (warn world context raised, s)
  | .ok request =>
      let after := world.meanwhile { s with calls := s.calls ++ [request] }
      match world.client (s.calls ++ [request]) with
      | .rejected raised => (warn world context raised, after)
      | .resolved commitId => (.ok (commitIdOf commitId), after)

/-- The call of `registerAgent`, with the metadata as strings -/
def registerCall (threadId : String) : Except (Thrown Obj) ClientCall := do
  let entries := context.metadata.filter fun entry => entry.1 ≠ "adapter"
  let metadata ← entries.mapM fun (key, value) => (value.print world.runtime).map fun text => (key, text)
  .ok (.registerAgent context.agentId context.runId threadId context.frameworkName "typescript"
    [context.frameworkName, "universal-events"] (metadata ++ [("adapter", "public-surface-wrapper")]))

def register (threadId : String) : Adapter Obj Unit := do
  let s ← Fallible.get
  if threadId ∈ s.registeredThreads then pure ()
  else do
    let _ ← call world context (registerCall world context threadId)
    Fallible.modify fun s => { s with registeredThreads := threadId :: s.registeredThreads }

/-- `eventToCheckpointPayload`, with the user data -/
def checkpointPayload (event : AdapterEvent Obj) : Except (Thrown Obj) JsonMap := do
  let data ← event.data.mapM fun (name, value) => (value.clone world.runtime).map fun json => (name, json)
  -- the metadata is among the data
  let fields := (eventToCheckpointPayload world.engine world.numbers event.fields).filter fun member => member.1 ≠ "metadata"
  .ok (fields ++ data.filterMap fun (name, json) => json.map fun json => (name, Sdk.redactValue world.engine json))

/-- The call of `checkpoint` -/
def checkpointCall (event : AdapterEvent Obj) : Except (Thrown Obj) ClientCall := do
  let state ← checkpointPayload world event
  .ok (.checkpoint event.fields.channel context.agentId context.runId event.fields.threadId state
    (context.frameworkName ++ " " ++ event.fields.eventType)
    (context.tags ++ [event.fields.eventType] ++ event.fields.tags) [("universal_event", "true")]
    event.fields.parentCommitIds)

/-- The parents that an event is sent with -/
def withLastParents (s : ContextState) (event : AdapterEvent Obj) : AdapterEvent Obj :=
  if event.fields.parentCommitIds = [] then
    { event with fields := { event.fields with parentCommitIds := s.lastParents event.fields.threadId } }
  else event

def checkpointEvent (event : AdapterEvent Obj) : Adapter Obj (List String) := do
  let threadId := event.fields.threadId
  register world context threadId
  let s ← Fallible.get
  let event := withLastParents s event
  let commitId ← call world context (checkpointCall world context event)
  match commitId with
  | some commitId => do
      Fallible.modify fun s => { s with lastCommitByThread := s.lastCommitByThread.insert threadId commitId }
      pure [commitId.val]
  | none => pure event.fields.parentCommitIds

/-- The input of `normalizeEvent`, apart from the properties that hold user data -/
def eventFields (adapterVersion threadId : String) (parents : List String) (input : EventInput Obj) : JsonMap :=
  [("adapterName", .string context.frameworkName), ("adapterVersion", .string adapterVersion),
    ("runId", .string context.runId), ("threadId", .string threadId), ("agentId", .string context.agentId),
    ("framework", .string context.frameworkName), ("language", .string "typescript"),
    ("eventType", .string input.eventType), ("tags", .array (context.tags.map .string)),
    ("parentCommitIds", .array (parents.map .string)), ("stepName", .string input.stepName)]

/-- `String(metadata.adapter_version ?? "0.1.0")` -/
def adapterVersion : Except (Thrown Obj) String :=
  let given := (context.metadata.find? fun entry => entry.1 = "adapter_version").map (·.2)
  ((given.getD .undefined).orElse (.text "0.1.0")).print world.runtime

def event (threadId : String) (input : EventInput Obj) : Adapter Obj (AdapterEvent Obj) := do
  let s ← Fallible.get
  let version ← Fallible.lift (adapterVersion world context)
  let fields ← Fallible.lift ((normalizeEvent world.numbers (world.ambient s.events)
    (eventFields context version threadId (s.lastParents threadId) input)).mapError .error)
  Fallible.modify fun s => { s with events := s.events + 1 }
  pure ⟨fields, input.data ++ [("metadata", .record context.metadata)]⟩

/-- `await context.checkpointEvent(context.event(..))`, with data that is made before -/
def record (threadId : String) (input : Except (Thrown Obj) (EventInput Obj)) : Adapter Obj (List String) := do
  let input ← Fallible.lift input
  let event ← event world context threadId input
  checkpointEvent world context event

end NexusAdapterContext

end TypeScript

end AttowNexus
