import AttowNexus.Library.Fallible
import AttowNexus.Model.TypeScriptAdapters

/-! # The generic adapter

`adapters/generic.ts`: a step between two calls of the client. The client and the step share a world in which either
may do anything; the calls that the wrapper makes are kept beside it.
-/

namespace AttowNexus

namespace TypeScript

structure AgentStepOptions where
  agentId : String
  runId : String
  channel : String

/-- The state of a checkpoint: an object that the step returns, or one that the wrapper makes -/
inductive StepState (Obj : Type) where
  | object (name : Obj)
  | record (entries : List (String × Value Obj))
deriving DecidableEq, Repr

inductive StepCall (Obj : Type) where
  | publishDelta (channel agentId runId : String) (delta : List (String × Value Obj)) (durable : Bool)
  | checkpoint (agentId runId channel : String) (state : StepState Obj) (summary : String)
deriving DecidableEq, Repr

structure StepWorld (Obj σ : Type) where
  /-- `typeof value === "object"` -/
  isObject : Obj → Bool
  /-- The name of an `Error` -/
  errorName : Obj → Except (Thrown Obj) (Option (Value Obj))
  client : StepCall Obj → Fallible σ (Thrown Obj) Unit

/-- The world, and the calls of the wrapper so far -/
structure StepTrace (Obj σ : Type) where
  world : σ
  calls : List (StepCall Obj)

variable {Obj σ : Type} (world : StepWorld Obj σ) (options : AgentStepOptions)

namespace AgentStep

/-- A call of the client, which is awaited -/
def send (call : StepCall Obj) : Fallible (StepTrace Obj σ) (Thrown Obj) Unit := fun s =>
  let (outcome, after) := world.client call s.world
  (outcome, ⟨after, s.calls ++ [call]⟩)

/-- `error instanceof Error ? error.name : "Error"` -/
def errorName : Thrown Obj → Except (Thrown Obj) (Value Obj)
  | .error _ => .ok (.text "Error")
  | .value (.other name) => (world.errorName name).map fun name => name.getD (.text "Error")
  | .value _ => .ok (.text "Error")

/-- The state of the checkpoint of a result -/
def resultState : Value Obj → StepState Obj
  | .other name => if world.isObject name then .object name else .record [("result", .other name)]
  | result => .record [("result", result)]

def inputCall (state : Value Obj) : StepCall Obj :=
  .publishDelta options.channel options.agentId options.runId [("phase", .text "input"), ("state", state)] false

def completedCall (result : Value Obj) : StepCall Obj :=
  .checkpoint options.agentId options.runId options.channel (resultState world result) "Wrapped agent step completed"

def failedCall (name : Value Obj) : StepCall Obj :=
  .checkpoint options.agentId options.runId options.channel (.record [("error", name)]) "Wrapped agent step failed"

/-- `wrapAgentStep` -/
def wrapAgentStep (step : Value Obj → Fallible σ (Thrown Obj) (Value Obj)) (state : Value Obj) :
    Fallible (StepTrace Obj σ) (Thrown Obj) (Value Obj) := do
  send world (inputCall options state)
  Fallible.reraising
    (do
      let result ← Fallible.zoom (·.world) (fun after s => { s with world := after }) (step state)
      send world (completedCall world options result)
      pure result)
    fun error => do
      let name ← Fallible.lift (errorName world error)
      send world (failedCall options name)

end AgentStep

end TypeScript

end AttowNexus
