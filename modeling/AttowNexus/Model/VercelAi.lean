import AttowNexus.Model.TypeScriptAdapters

/-! # The Vercel AI adapter

`adapters/vercel-ai.ts`: `generateText`, which waits for its events. The options of a call are properties that may have a
getter. The base function is given the composed callbacks, and may do with them what it wants.
-/

namespace AttowNexus

namespace TypeScript

open NexusAdapterContext

structure NexusAISDKAdapterOptions (Obj : Type) where
  context : NexusAdapterContextOptions Obj
  captureInputs : Bool
  captureOutputs : Bool

/-- The properties of the options of a call, with what comes of reading each -/
abbrev InputOptions (Obj : Type) := List (String × Except (Thrown Obj) (Value Obj))

inductive AICallback where
  | onStepFinish
  | onFinish
  | onError
deriving DecidableEq, Repr

/-- The options that the base function gets, with the callbacks of the user that are inside the composed ones -/
structure WrappedOptions (Obj : Type) where
  properties : List (String × Value Obj)
  original : AICallback → Value Obj

/-- The base function. It gets the composed callbacks besides the options. -/
abbrev BaseFunction (Obj : Type) :=
  WrappedOptions Obj → (AICallback → Value Obj → Adapter Obj (Value Obj)) → Adapter Obj (Value Obj)

/-- What a base function does with the composed callbacks: it awaits some, goes on with what comes of each, and returns
or throws. -/
inductive BaseRun (Obj : Type) where
  | returned (result : Value Obj)
  | threw (raised : Thrown Obj)
  | fires (callback : AICallback) (value : Value Obj) (goesOn : Except (Thrown Obj) (Value Obj) → BaseRun Obj)

namespace BaseRun

variable {Obj : Type} (composed : AICallback → Value Obj → Adapter Obj (Value Obj))

def run : BaseRun Obj → Adapter Obj (Value Obj)
  | .returned result => pure result
  | .threw raised => Fallible.fail raised
  | .fires callback value goesOn => fun s => run (goesOn (composed callback value s).1) (composed callback value s).2

/-- The callbacks that are awaited, with their arguments -/
def fired : BaseRun Obj → ContextState → List (AICallback × Value Obj)
  | .returned _, _ => []
  | .threw _, _ => []
  | .fires callback value goesOn, s =>
      (callback, value) :: fired (goesOn (composed callback value s).1) (composed callback value s).2

end BaseRun

/-- The base function that behaves like this -/
def BaseFunction.ofRun {Obj : Type} (behaviour : WrappedOptions Obj → BaseRun Obj) : BaseFunction Obj :=
  fun wrapped composed => (behaviour wrapped).run composed

variable {Obj : Type} (world : AdapterWorld Obj) (options : NexusAISDKAdapterOptions Obj)

namespace InputOptions

/-- `inputOptions[name]` -/
def property (inputOptions : InputOptions Obj) (name : String) : Except (Thrown Obj) (Value Obj) :=
  ((inputOptions.find? fun entry => entry.1 = name).map (·.2)).getD (.ok .undefined)

/-- `optionalString(inputOptions.threadId ?? inputOptions.thread_id)` -/
def threadId (runtime : Runtime Obj) (inputOptions : InputOptions Obj) : Except (Thrown Obj) (Option String) := do
  let camel ← inputOptions.property "threadId"
  let given ← match camel with
    | .undefined => inputOptions.property "thread_id"
    | .null => inputOptions.property "thread_id"
    | given => .ok given
  match given with
  | .undefined => .ok none
  | .null => .ok none
  | .text "" => .ok none
  | given => (given.print runtime).map some

/-- The properties of these options, each of which is read -/
def spread (inputOptions : InputOptions Obj) : Except (Thrown Obj) (List (String × Value Obj)) :=
  inputOptions.mapM fun (name, read) => read.map fun value => (name, value)

/-- `boundedOptions` -/
def boundedOptions (inputOptions : InputOptions Obj) : Except (Thrown Obj) (List (String × Value Obj)) := do
  let apart := ["model", "onStepFinish", "onFinish", "onError"]
  apart.forM fun name => (inputOptions.property name).map fun _ => ()
  spread (inputOptions.filter fun entry => entry.1 ∉ apart)

/-- `composeCallbacks`, without the composed callbacks themselves -/
def composeCallbacks (inputOptions : InputOptions Obj) : Except (Thrown Obj) (WrappedOptions Obj) := do
  let onStepFinish ← inputOptions.property "onStepFinish"
  let onFinish ← inputOptions.property "onFinish"
  let onError ← inputOptions.property "onError"
  let properties ← inputOptions.spread
  .ok ⟨properties, fun
    | .onStepFinish => onStepFinish
    | .onFinish => onFinish
    | .onError => onError⟩

end InputOptions

namespace NexusAISDKAdapter

/-- The event at the start of a call -/
def startEvent (stepName : String) (inputOptions : InputOptions Obj) : Except (Thrown Obj) (EventInput Obj) := do
  let input ← if options.captureInputs = false then .ok (.value (.text "[not captured]"))
    else inputOptions.boundedOptions.map .record
  .ok ⟨"run_start", stepName, [("input", input)]⟩

/-- An event with a result -/
def outputEvent (eventType stepName : String) (result : Value Obj) : EventInput Obj :=
  ⟨eventType, stepName,
    [("output", .value (if options.captureOutputs = false then .text "[not captured]" else result))]⟩

/-- `errorEvent` -/
def errorEvent (stepName : String) (error : Thrown Obj) : Except (Thrown Obj) (EventInput Obj) := do
  let ofString (printed : Except (Thrown Obj) String) : Except (Thrown Obj) (Value Obj × Value Obj) :=
    printed.map fun message => (.text "Error", .text message)
  let (type, message) ← match error with
    | .error message => .ok (.text "Error", .text message)
    | .value (.other name) => do
        match ← world.runtime.asError name with
        | some fields => .ok fields
        | none => ofString (world.runtime.toString name)
    | .value given => ofString (given.print world.runtime)
  .ok ⟨"error", stepName, [("error", .record [("type", type), ("message", message)])]⟩

/-- What a composed callback records -/
def callbackEvent (stepName : String) (callback : AICallback) (value : Value Obj) : Except (Thrown Obj) (EventInput Obj) :=
  match callback with
  | .onStepFinish => .ok (outputEvent options "step_end" stepName value)
  | .onFinish => .ok (outputEvent options "run_end" stepName value)
  | .onError => errorEvent world stepName (.value value)

/-- A composed callback: the one of the user is called first. -/
def composed (wrapped : WrappedOptions Obj) (threadId stepName : String) (callback : AICallback) (value : Value Obj) :
    Adapter Obj (Value Obj) := do
  let originalResult ← Fallible.lift (match wrapped.original callback with
    | .undefined => .ok .undefined
    | .null => .ok .undefined
    | function => world.runtime.call function value)
  let _ ← record world options.context threadId (callbackEvent world options stepName callback value)
  pure originalResult

/-- A call up to the base function: its thread and its options -/
def started (inputOptions : InputOptions Obj) : Adapter Obj (String × WrappedOptions Obj) := do
  let given ← Fallible.lift (inputOptions.threadId world.runtime)
  let threadId := deriveThreadId options.context given
  let _ ← record world options.context threadId (startEvent options "generateText" inputOptions)
  let wrapped ← Fallible.lift inputOptions.composeCallbacks
  pure (threadId, wrapped)

/-- The base function in a call -/
def calledBase (baseGenerateText : BaseFunction Obj) (threadId : String) (wrapped : WrappedOptions Obj) :
    Adapter Obj (Value Obj) :=
  baseGenerateText wrapped (composed world options wrapped threadId "generateText")

/-- `generateTextWithNexus`. A failure of the last event is caught with the error of the base function. -/
def generateText (baseGenerateText : BaseFunction Obj) (inputOptions : InputOptions Obj) : Adapter Obj (Value Obj) := do
  let (threadId, wrapped) ← started world options inputOptions
  Fallible.reraising
    (do
      let result ← calledBase world options baseGenerateText threadId wrapped
      let _ ← record world options.context threadId (.ok (outputEvent options "run_end" "generateText" result))
      pure result)
    fun error => record world options.context threadId (errorEvent world "generateText" error)

end NexusAISDKAdapter

end TypeScript

end AttowNexus
