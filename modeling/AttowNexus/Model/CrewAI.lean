import AttowNexus.Model.LangGraph

/-! # The CrewAI adapter

`adapters/crewai.py`: `kickoff` and the step callback that is put around the one of the crew. What the callback of the
crew does is part of the wrapped call.
-/

namespace AttowNexus

namespace Python

/-- The arguments of a step -/
structure StepCallback (Obj : Type) where
  args : List (Value Obj)
  kwargs : List (String × Value Obj)

/-- What `kickoff` of the wrapped crew does with its arguments, in one call -/
abbrev Crew (Obj Exc : Type) := List (Value Obj) → List (String × Value Obj) → WrappedCall Obj Exc (StepCallback Obj)

structure NexusCrewAIProxy (Obj : Type) where
  base : NexusAdapterBase Obj
  captureInputs : Bool
  captureOutputs : Bool
  captureErrors : Bool
  /-- Steps are captured, and the crew has a step callback. -/
  attached : Bool

namespace NexusCrewAIProxy

variable {Obj Exc : Type} (world : AdapterWorld Obj Exc) (proxy : NexusCrewAIProxy Obj)

/-- `{"args": args, "kwargs": kwargs}` -/
def callArguments (args : List (Value Obj)) (kwargs : List (String × Value Obj)) : Value Obj :=
  Value.ofEntries [("args", .tuple args), ("kwargs", Value.ofEntries kwargs)]

/-- The events of a call name its method as their task. -/
def taskArguments (eventType method : String) (data : List (String × Value Obj)) (parents : Option (List String)) :
    EventArguments Obj :=
  ⟨eventType, none, some method, data, parents, [("method", .str method)]⟩

/-- `composed_step_callback`, up to the callback of the crew -/
def composedStepCallback (step : StepCallback Obj) : Adapter Obj Exc Unit :=
  if proxy.attached = false then pure ()
  else do
    let threadId := proxy.base.deriveThreadId none
    let output ← Fallible.lift (captured world true (callArguments step.args step.kwargs))
    let _ ← proxy.base.record world (some threadId)
      ⟨"task_end", none, some "crew_step", [("output", output)], none, [("source", .str "step_callback")]⟩
    pure ()

def checkpointStart (method threadId : String) (args : List (Value Obj)) (kwargs : List (String × Value Obj)) :
    Adapter Obj Exc (List String) := do
  let input ← Fallible.lift (captured world proxy.captureInputs (callArguments args kwargs))
  proxy.base.record world (some threadId) (taskArguments "run_start" method [("input", input)] none)

/-- `[latest_parent] if latest_parent else parents` -/
def latestParents (threadId : String) (parents : List String) (s : AdapterState Obj Exc) : List String :=
  if NexusAdapterBase.lastParents threadId s = [] then parents else NexusAdapterBase.lastParents threadId s

def checkpointEnd (method threadId : String) (result : Value Obj) (parents : List String) :
    Adapter Obj Exc (List String) := do
  let s ← Fallible.get
  let output ← Fallible.lift (captured world proxy.captureOutputs result)
  proxy.base.record world (some threadId)
    (taskArguments "run_end" method [("output", output)] (some (latestParents threadId parents s)))

def checkpointError (method : String) (exception : Exn Exc) (threadId : String) (parents : List String) :
    Adapter Obj Exc (List String) :=
  if proxy.captureErrors = false then pure parents
  else do
    let s ← Fallible.get
    let error ← Fallible.lift (errorFields world exception)
    proxy.base.record world (some threadId)
      (taskArguments "error" method [("error", error)] (some (latestParents threadId parents s)))

/-- `_run_sync` -/
def runSync (method : String) (func : Crew Obj Exc) (args : List (Value Obj)) (kwargs : List (String × Value Obj)) :
    Adapter Obj Exc (Value Obj) := do
  let threadId := proxy.base.deriveThreadId none
  proxy.base.register world (some threadId)
  let parents ← proxy.checkpointStart world method threadId args kwargs
  let body : Adapter Obj Exc (Value Obj) := do
    Fallible.lift (Value.deepcopy world.interpreter world.interpreter.recursionLimit [] (Value.ofEntries kwargs))
    (func args kwargs).run (proxy.composedStepCallback world)
  let result ← Fallible.reraising body fun exception => proxy.checkpointError world method exception threadId parents
  let _ ← proxy.checkpointEnd world method threadId result parents
  pure result

def kickoff (wrappedCrew : Crew Obj Exc) (args : List (Value Obj)) (kwargs : List (String × Value Obj)) :
    Adapter Obj Exc (Value Obj) :=
  proxy.runSync world "kickoff" wrappedCrew args kwargs

end NexusCrewAIProxy

end Python

end AttowNexus
