import AttowNexus.Model.PythonAdapters

/-! # The LangGraph adapter

`adapters/langgraph.py`: `invoke` and the callback handler that it puts into the configuration. The handler itself is
not shown in the configuration; the prepared call says whether it is there.
-/

namespace AttowNexus

namespace Python

/-- What a graph can call on the handler -/
inductive ChainCallback (Obj Exc : Type) where
  | onChainStart (serialized inputs : Value Obj)
  | onChainEnd (outputs : Value Obj)
  | onChainError (error : Exc)

/-- What `invoke` of the wrapped graph does with an input and a configuration. A graph may keep a state of its own, so
this is given with each call. -/
abbrev Graph (Obj Exc : Type) :=
  Value Obj → List (Value Obj × Value Obj) → WrappedCall Obj Exc (ChainCallback Obj Exc)

structure NexusLangGraphProxy (Obj : Type) where
  base : NexusAdapterBase Obj
  captureInputs : Bool
  captureOutputs : Bool
  captureErrors : Bool

structure PreparedCall (Obj : Type) where
  config : List (Value Obj × Value Obj)
  threadId : String
  /-- The handler is among the callbacks. -/
  attached : Bool

variable {Obj Exc : Type} (world : AdapterWorld Obj Exc)

/-- The value that an event gets -/
def captured (capture : Bool) (value : Value Obj) : Except (Exn Exc) (Value Obj) :=
  if capture then Value.safeJsonable world.interpreter world.interpreter.recursionLimit value
  else .ok (.str "[not captured]")

/-- `{"type": type(exc).__name__, "message": str(exc)}` -/
def errorFields (exception : Exn Exc) : Except (Exn Exc) (Value Obj) := do
  let (name, message) ← Value.ofMethod (world.interpreter.describe exception)
  .ok (Value.ofEntries [("type", .str name), ("message", .str message)])

section Config

variable (interpreter : Interpreter Obj Exc)

/-- `_copy_config` -/
def copyConfig (config : Option (List (Value Obj × Value Obj))) : Except (Exn Exc) (List (Value Obj × Value Obj)) :=
  match config with
  | none => .ok []
  | some config => do
      Value.deepcopy interpreter interpreter.recursionLimit [] (.dict config)
      .ok config

/-- `_derive_thread_id` -/
def configThreadId (base : NexusAdapterBase Obj) (config : List (Value Obj × Value Obj)) : Except (Exn Exc) String := do
  let explicit := (present base.threadId).getD (defaultThreadId base.runId base.frameworkName)
  match ((Value.entry "configurable" config).bind (·.asDict interpreter)).bind (Value.entry "thread_id") with
  | none => .ok explicit
  | some threadId => do
      let given ← threadId.truthy interpreter
      if given then threadId.print interpreter else .ok explicit

/-- `_ensure_configurable_thread_id` -/
def ensureConfigurableThreadId (threadId : String) (config : List (Value Obj × Value Obj)) :
    List (Value Obj × Value Obj) :=
  let configurable := ((Value.entry "configurable" config).bind (·.asDict interpreter)).getD []
  let configurable := if (Value.entry "thread_id" configurable).isSome then configurable
    else Value.setEntry "thread_id" (.str threadId) configurable
  Value.setEntry "configurable" (.dict configurable) config

/-- `dict(next_config.get("metadata") or {})` -/
def configMetadata (config : List (Value Obj × Value Obj)) : Except (Exn Exc) (List (Value Obj × Value Obj)) :=
  match Value.entry "metadata" config with
  | none => .ok []
  | some metadata => do
      let given ← metadata.truthy interpreter
      if given = false then .ok []
      else
        match metadata.asDict interpreter with
        | some entries => .ok entries
        | none => Value.ofMethod (interpreter.mapping metadata)

/-- `_merge_callbacks`: whether the handler is added -/
def mergesCallbacks (config : List (Value Obj × Value Obj)) : Bool :=
  match (Value.entry "callbacks" config).map (Value.resolve interpreter) with
  | none => true
  | some .none => true
  | some (.list _) => true
  | some (.tuple _) => true
  | some _ => false

end Config

namespace NexusLangGraphProxy

variable (proxy : NexusLangGraphProxy Obj)

/-- The configuration of the wrapped call -/
def preparedConfig (method : String) (config : Option (List (Value Obj × Value Obj))) :
    Except (Exn Exc) (PreparedCall Obj) := do
  let interpreter := world.interpreter
  let nextConfig ← copyConfig interpreter config
  let threadId ← configThreadId interpreter proxy.base nextConfig
  let nextConfig := ensureConfigurableThreadId interpreter threadId nextConfig
  let metadata ← configMetadata interpreter nextConfig
  let metadata := Value.setEntry "nexus_run_id" (.str proxy.base.runId) metadata
  let metadata := Value.setEntry "nexus_agent_id" (.str proxy.base.agentId) metadata
  let metadata := Value.setEntry "nexus_thread_id" (.str threadId) metadata
  let metadata := Value.setEntry "nexus_method" (.str method) metadata
  let nextConfig := Value.setEntry "metadata" (.dict metadata) nextConfig
  .ok ⟨nextConfig, threadId, mergesCallbacks interpreter nextConfig⟩

def prepareCall (method : String) (config : Option (List (Value Obj × Value Obj))) :
    Adapter Obj Exc (PreparedCall Obj) := do
  let prepared ← Fallible.lift (proxy.preparedConfig world method config)
  proxy.base.register world (some prepared.threadId)
  pure prepared

/-- The events of a call say which step of the run they belong to. -/
def stepArguments (eventType method : String) (data : List (String × Value Obj)) (parents : Option (List String)) :
    EventArguments Obj :=
  ⟨eventType, some method, none, data, parents, [("method", .str method)]⟩

def checkpointStart (method : String) (inputState : Value Obj) (threadId : String) : Adapter Obj Exc (List String) := do
  let input ← Fallible.lift (captured world proxy.captureInputs inputState)
  let parents ← proxy.base.record world (some threadId) (stepArguments "run_start" method [("input", input)] none)
  let input ← Fallible.lift (captured world proxy.captureInputs inputState)
  proxy.base.record world (some threadId) (stepArguments "step_start" method [("input", input)] (some parents))

def checkpointEnd (method : String) (outputState : Value Obj) (threadId : String) (parents : List String) :
    Adapter Obj Exc (List String) := do
  let output ← Fallible.lift (captured world proxy.captureOutputs outputState)
  let stepParents ← proxy.base.record world (some threadId)
    (stepArguments "step_end" method [("output", output)] (some parents))
  let output ← Fallible.lift (captured world proxy.captureOutputs outputState)
  proxy.base.record world (some threadId) (stepArguments "run_end" method [("output", output)] (some stepParents))

def checkpointError (method : String) (exception : Exn Exc) (threadId : String) (parents : List String) :
    Adapter Obj Exc (List String) :=
  if proxy.captureErrors = false then pure parents
  else do
    let error ← Fallible.lift (errorFields world exception)
    proxy.base.record world (some threadId) (stepArguments "error" method [("error", error)] (some parents))

/-- What a callback records -/
def callbackArguments : ChainCallback Obj Exc → Except (Exn Exc) (EventArguments Obj)
  | .onChainStart serialized inputs => do
      let input ← captured world true inputs
      let summary ← Value.summarizePayload world.interpreter serialized
      .ok ⟨"node_start", none, none, [("input", input)], none, [("serialized", summary), ("callback", .str "on_chain_start")]⟩
  | .onChainEnd outputs => do
      let output ← captured world true outputs
      .ok ⟨"node_end", none, none, [("output", output)], none, [("callback", .str "on_chain_end")]⟩
  | .onChainError error => do
      let error ← errorFields world (.wrapped error)
      .ok ⟨"error", none, none, [("error", error)], none, [("callback", .str "on_chain_error")]⟩

/-- `NexusCallbackHandler` -/
def handle (prepared : PreparedCall Obj) (callback : ChainCallback Obj Exc) : Adapter Obj Exc Unit :=
  if prepared.attached = false then pure ()
  else do
    let arguments ← Fallible.lift (callbackArguments world callback)
    let _ ← proxy.base.record world (some prepared.threadId) arguments
    pure ()

def invoke (wrappedGraph : Graph Obj Exc) (input : Value Obj) (config : Option (List (Value Obj × Value Obj))) :
    Adapter Obj Exc (Value Obj) := do
  let prepared ← proxy.prepareCall world "invoke" config
  let parents ← proxy.checkpointStart world "invoke" input prepared.threadId
  let result ← Fallible.reraising ((wrappedGraph input prepared.config).run (proxy.handle world prepared))
    fun exception => proxy.checkpointError world "invoke" exception prepared.threadId parents
  let _ ← proxy.checkpointEnd world "invoke" result prepared.threadId parents
  pure result

end NexusLangGraphProxy

end Python

end AttowNexus
