import AttowNexus.Library.Fallible
import AttowNexus.Model.DagIndex
import AttowNexus.Model.PythonValues

/-! # The base of the Python adapters

`adapters/base.py`. An adapter keeps the threads that it registered and the last commit of each thread. What the client
answers may depend on all calls so far; the calls and their answers are kept in a log. The fields of an event that hold
what the user gave are kept apart from the others, as Python values.
-/

namespace AttowNexus

namespace Python

/-- A call of the client, with what the adapter passes -/
inductive ClientCall (Obj : Type) where
  | registerAgent (agentId runId threadId : String) (capabilities : List String) (framework language : String)
      (metadata : List (Value Obj × Value Obj))
  | checkpoint (agentId runId threadId channel : String) (state : Value Obj) (summary : String) (tags : List String)
      (metadata : List (Value Obj × Value Obj)) (parentCommitIds : List String)

/-- What comes of a call: an exception, or a result with this commit id (which is empty where there is none) -/
inductive Reply (Exc : Type) where
  | raised (exception : Exc)
  | returned (commitId : String)
deriving DecidableEq, Repr

structure NexusAdapterBase (Obj : Type) where
  frameworkName : String
  language : String
  runId : String
  agentId : String
  threadId : Option String
  failOpen : Bool
  tags : List String
  metadata : List (String × Value Obj)

structure AdapterState (Obj Exc : Type) where
  registeredThreads : List String
  lastCommitIdByThread : HashMap String String
  calls : List (ClientCall Obj × Reply Exc)
  /-- How many events were built so far -/
  events : ℕ

/-- What an adapter runs in. The exceptions are those that `except Exception` catches. -/
structure AdapterWorld (Obj Exc : Type) where
  interpreter : Interpreter Obj Exc
  engine : RegexEngine
  /-- The clock and the ids for each event -/
  ambient : ℕ → SdkAmbient
  /-- The answer to the last of these calls -/
  client : List (ClientCall Obj) → Reply Exc

/-- An event with the fields that hold user data -/
structure AdapterEvent (Obj : Type) where
  fields : UniversalAgentEvent
  data : List (String × Value Obj)

/-- The keyword arguments of `event`. Of the fields with user data one is given at most, besides the metadata. -/
structure EventArguments (Obj : Type) where
  eventType : String
  stepName : Option String
  taskName : Option String
  /-- `input`, `output` or `error` -/
  data : List (String × Value Obj)
  parentCommitIds : Option (List String)
  metadata : List (String × Value Obj)

def defaultThreadId (runId framework : String) : String := runId ++ ":main:" ++ framework

/-- A string that is not empty, if there is one -/
def present (text : Option String) : Option String := text.filter (· ≠ "")

abbrev Adapter (Obj Exc α : Type) := Fallible (AdapterState Obj Exc) (Exn Exc) α

namespace NexusAdapterBase

variable {Obj Exc : Type} (world : AdapterWorld Obj Exc) (base : NexusAdapterBase Obj)

def initial : AdapterState Obj Exc := ⟨[], ∅, [], 0⟩

def deriveThreadId (explicitThreadId : Option String) : String :=
  ((present explicitThreadId).or (present base.threadId)).getD (defaultThreadId base.runId base.frameworkName)

/-- `_call`, with the commit id of the result. An exception of the client is an `Exception`; one that is only a
`BaseException`, such as `KeyboardInterrupt`, passes every handler and is left out. -/
def call (request : ClientCall Obj) : Adapter Obj Exc (Option String) := fun s =>
  let reply := world.client (s.calls.map (·.1) ++ [request])
  let after := { s with calls := s.calls ++ [(request, reply)] }
  match reply with
  | .returned commitId => (.ok (present (some commitId)), after)
  | .raised exception => (if base.failOpen then .ok none else .error (.client exception), after)

def register (threadId : Option String) : Adapter Obj Exc Unit := do
  let resolved := base.deriveThreadId threadId
  let s ← Fallible.get
  if resolved ∈ s.registeredThreads then pure ()
  else do
    let _ ← base.call world (.registerAgent base.agentId base.runId resolved [base.frameworkName, "universal-events"]
      base.frameworkName base.language (Value.setEntry "adapter" (.str "public-surface-wrapper") (Value.textEntries base.metadata)))
    Fallible.modify fun s => { s with registeredThreads := resolved :: s.registeredThreads }

/-- `self._last_commit_id_by_thread.get(thread_id)`, as a list of parents -/
def lastParents (threadId : String) (s : AdapterState Obj Exc) : List String :=
  (present (s.lastCommitIdByThread.lookup threadId)).toList

/-- `redact_event` and `event_to_checkpoint_payload`: the whole event is redacted before it is validated again. -/
def checkpointPayload (ambient : SdkAmbient) (event : AdapterEvent Obj) : Except (Exn Exc) (Value Obj) := do
  let interpreter := world.interpreter
  event.data.forM fun member => Value.deepcopy interpreter interpreter.recursionLimit [] member.2
  let data ← Value.redact interpreter world.engine interpreter.recursionLimit (Value.ofEntries event.data)
  let clean ← (redactEvent world.engine ambient event.fields).mapError .validationError
  -- the metadata is among the data
  let dumped := Value.ofMembers (clean.modelDumpExcludeNone.filter fun member => member.1 ≠ "metadata")
  let dumped := match data with
    | .dict entries => dumped ++ entries
    | _ => dumped
  Value.safeJsonable interpreter interpreter.recursionLimit (.dict dumped)

def checkpointEvent (event : AdapterEvent Obj) : Adapter Obj Exc (List String) := do
  let threadId := event.fields.threadId
  base.register world (some threadId)
  let s ← Fallible.get
  let parents := if event.fields.parentCommitIds = [] then lastParents threadId s else event.fields.parentCommitIds
  let event : AdapterEvent Obj := { event with fields := { event.fields with parentCommitIds := parents } }
  let state ← Fallible.lift (checkpointPayload world (world.ambient s.events) event)
  let commitId ← base.call world (.checkpoint base.agentId base.runId threadId
    (channelForEvent event.fields.modelDump) state (base.frameworkName ++ " " ++ event.fields.eventType)
    (base.tags ++ [event.fields.eventType] ++ event.fields.tags)
    (Value.setEntry "universal_event" (.str "true") (Value.textEntries base.metadata)) parents)
  match commitId with
  | some commitId => do
      Fallible.modify fun s => { s with lastCommitIdByThread := s.lastCommitIdByThread.insert threadId commitId }
      pure [commitId]
  | none => pure parents

/-- The keyword arguments of `normalize_event`, apart from those that hold user data -/
def eventFields (adapterVersion threadId : String) (parents : List String) (arguments : EventArguments Obj) : JsonMap :=
  [("adapter_name", .string base.frameworkName), ("adapter_version", .string adapterVersion),
    ("run_id", .string base.runId), ("thread_id", .string threadId), ("agent_id", .string base.agentId),
    ("framework", .string base.frameworkName), ("language", .string base.language),
    ("event_type", .string arguments.eventType), ("tags", .array (base.tags.map .string)),
    ("parent_commit_ids", .array (parents.map .string)),
    ("step_name", UniversalAgentEvent.ofOptionalStr arguments.stepName),
    ("task_name", UniversalAgentEvent.ofOptionalStr arguments.taskName)]

/-- `str(self.metadata.get("adapter_version", "0.1.0"))` -/
def adapterVersion : Except (Exn Exc) String :=
  Value.print world.interpreter ((Value.entry "adapter_version" (Value.textEntries base.metadata)).getD (.str "0.1.0"))

/-- `{**self.metadata, **metadata}` -/
def mergedMetadata (metadata : List (String × Value Obj)) : Value Obj :=
  .dict (metadata.foldl (fun entries (key, value) => Value.setEntry key value entries) (Value.textEntries base.metadata))

def event (threadId : Option String) (arguments : EventArguments Obj) : Adapter Obj Exc (AdapterEvent Obj) := do
  let resolved := base.deriveThreadId threadId
  let s ← Fallible.get
  let parents := arguments.parentCommitIds.getD (lastParents resolved s)
  let version ← Fallible.lift (base.adapterVersion world)
  let fields ← Fallible.lift
    ((normalizeEvent (world.ambient s.events) (base.eventFields version resolved parents arguments)).mapError
      .validationError)
  Fallible.modify fun s => { s with events := s.events + 1 }
  pure ⟨fields, arguments.data ++ [("metadata", base.mergedMetadata arguments.metadata)]⟩

/-- `self.checkpoint_event(self.event(..))` -/
def record (threadId : Option String) (arguments : EventArguments Obj) : Adapter Obj Exc (List String) := do
  let event ← base.event world threadId arguments
  base.checkpointEvent world event

end NexusAdapterBase

/-- The wrapped call, as the adapter sees it: it fires callbacks, which may raise into it, and ends. -/
inductive WrappedCall (Obj Exc Callback : Type) where
  | returned (result : Value Obj)
  | raised (exception : Exc)
  | fires (callback : Callback) (goesOn : Except (Exn Exc) Unit → WrappedCall Obj Exc Callback)

namespace WrappedCall

variable {Obj Exc Callback σ : Type}

/-- The call runs with handlers for its callbacks. -/
def run (handle : Callback → Fallible σ (Exn Exc) Unit) : WrappedCall Obj Exc Callback → Fallible σ (Exn Exc) (Value Obj)
  | .returned result => pure result
  | .raised exception => Fallible.fail (.wrapped exception)
  | .fires callback goesOn => fun s =>
      match handle callback s with
      | (outcome, t) => run handle (goesOn outcome) t

end WrappedCall

end Python

end AttowNexus
