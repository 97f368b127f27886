import AttowNexus.Model.VercelAi

/-! # streamText

`instrumentStreamText` in `adapters/vercel-ai.ts`, which does not wait for its events. A call of it and a callback run
up to the first `await` of their event at once. What an event waits for may be answered in any order, but not while a
base function runs.
-/

namespace AttowNexus

namespace TypeScript

open NexusAdapterContext NexusAISDKAdapter

/-- How far a `checkpointEvent` has got -/
inductive Stage (Obj : Type) where
  /-- The client is asked to register the thread. -/
  | registering
  /-- `register` has come to its end, which is awaited. -/
  | registered (outcome : Except (Thrown Obj) Unit)
  /-- The client is sent the event, and may have answered. -/
  | sent (answer : Option (Reply Obj))
  /-- It ended before the client was sent the event. -/
  | unsent

/-- A `checkpointEvent` of a call -/
structure StreamRecord (Obj : Type) where
  call : ℕ
  event : AdapterEvent Obj
  stage : Stage Obj

/-- A call of `streamTextWithNexus` -/
structure StreamCall (Obj : Type) where
  threadId : String
  wrapped : Except (Thrown Obj) (WrappedOptions Obj)
  /-- Whether the base function runs -/
  running : Bool

structure StreamState (Obj : Type) where
  context : ContextState
  calls : List (StreamCall Obj)
  records : List (StreamRecord Obj)

inductive StreamAction (Obj : Type) where
  | start (inputOptions : InputOptions Obj)
  | fire (call : ℕ) (callback : AICallback) (value : Value Obj)
  | finish (call : ℕ) (outcome : Except (Thrown Obj) (Value Obj))
  | registered (record : ℕ) (answer : Reply Obj)
  | resume (record : ℕ)
  | answered (record : ℕ) (answer : Reply Obj)

abbrev Streaming (Obj α : Type) := Fallible (StreamState Obj) (Thrown Obj) α

variable {Obj : Type} (world : AdapterWorld Obj) (options : NexusAISDKAdapterOptions Obj)

/-- The commit id in the answer to an event -/
def StreamRecord.commitId (record : StreamRecord Obj) : Option CommitId :=
  match record.stage with
  | .sent (some (.resolved commitId)) => commitIdOf commitId
  | _ => none

namespace StreamState

/-- The context of a new adapter -/
def empty : StreamState Obj := ⟨⟨[], ∅, [], 0⟩, [], []⟩

/-- No base function runs. -/
def idle (s : StreamState Obj) : Bool := s.calls.all fun call => !call.running

end StreamState

namespace NexusAISDKAdapter

/-- `register`, up to its first `await` -/
def beginRegister (threadId : String) (s : ContextState) : Stage Obj × ContextState :=
  if threadId ∈ s.registeredThreads then (.registered (.ok ()), s)
  else
    match registerCall world options.context threadId with
    | .error raised => (.registered ((warn world options.context raised).map fun _ => ()), s)
    | .ok request => (.registering, { s with calls := s.calls ++ [request] })

/-- `context.checkpointEvent(context.event(..))`, up to its first `await` -/
def launch (call : ℕ) (threadId : String) (given : Except (Thrown Obj) (EventInput Obj)) : Streaming Obj Unit := do
  let input ← Fallible.lift given
  let event ← Fallible.zoom (·.context) (fun context s => { s with context := context })
    (event world options.context threadId input)
  Fallible.modify fun s =>
    let (stage, context) := beginRegister world options event.fields.threadId s.context
    { s with context := context, records := s.records ++ [⟨call, event, stage⟩] }

/-- `streamTextWithNexus`, up to the call of the base function -/
def streamText (inputOptions : InputOptions Obj) : Streaming Obj Unit := do
  let given ← Fallible.lift (inputOptions.threadId world.runtime)
  let threadId := deriveThreadId options.context given
  let s ← Fallible.get
  launch world options s.calls.length threadId (startEvent options "streamText" inputOptions)
  let wrapped := inputOptions.composeCallbacks
  Fallible.modify fun s => { s with calls := s.calls ++ [⟨threadId, wrapped, wrapped.isOk⟩] }

/-- A composed callback -/
def fire (call : ℕ) (callback : AICallback) (value : Value Obj) : Streaming Obj Unit := do
  let s ← Fallible.get
  match s.calls[call]? with
  | some ⟨threadId, .ok wrapped, _⟩ => do
      let _ ← Fallible.lift (match wrapped.original callback with
        | .undefined => .ok .undefined
        | .null => .ok .undefined
        | function => world.runtime.call function value)
      launch world options call threadId (callbackEvent world options "streamText" callback value)
  | _ => pure ()

/-- The base function returns or throws. -/
def finish (call : ℕ) (outcome : Except (Thrown Obj) (Value Obj)) : Streaming Obj Unit := do
  let s ← Fallible.get
  match s.calls[call]? with
  | some ⟨threadId, wrapped, true⟩ => do
      Fallible.modify fun s => { s with calls := s.calls.set call ⟨threadId, wrapped, false⟩ }
      match outcome with
      | .ok _ => pure ()
      | .error raised => launch world options call threadId (errorEvent world "streamText" raised)
  | _ => pure ()

/-- What `register` comes to when the client has answered -/
def registerOutcome : Reply Obj → Except (Thrown Obj) Unit
  | .rejected raised => (warn world options.context raised).map fun _ => ()
  | .resolved _ => .ok ()

/-- `checkpointEvent` from `register` to the next `await` -/
def afterRegister (outcome : Except (Thrown Obj) Unit) (record : StreamRecord Obj) (s : ContextState) :
    StreamRecord Obj × ContextState :=
  match outcome with
  | .error _ => ({ record with stage := .unsent }, s)
  | .ok () =>
      let s := { s with registeredThreads := record.event.fields.threadId :: s.registeredThreads }
      let event := withLastParents s record.event
      match checkpointCall world options.context event with
      | .error _ => ({ record with event := event, stage := .unsent }, s)
      | .ok request => ({ record with event := event, stage := .sent none }, { s with calls := s.calls ++ [request] })

/-- `checkpointEvent` when the client has answered -/
def afterAnswer (answer : Reply Obj) (record : StreamRecord Obj) (s : ContextState) : StreamRecord Obj × ContextState :=
  let record := { record with stage := .sent (some answer) }
  (record, match record.commitId with
    | some commitId =>
        { s with lastCommitByThread := s.lastCommitByThread.insert record.event.fields.threadId commitId }
    | none => s)

/-- An event that goes on, if this is what it waits for -/
def goesOn (action : StreamAction Obj) (record : StreamRecord Obj) (s : ContextState) :
    Option (StreamRecord Obj × ContextState) :=
  match action, record.stage with
  | .registered _ answer, .registering =>
      some (afterRegister world options (registerOutcome world options answer) record s)
  | .resume _, .registered outcome => some (afterRegister world options outcome record s)
  | .answered _ answer, .sent none => some (afterAnswer answer record s)
  | _, _ => none

def advance (action : StreamAction Obj) (index : ℕ) (s : StreamState Obj) : StreamState Obj :=
  if s.idle then
    match s.records[index]? with
    | none => s
    | some record =>
        match goesOn world options action record s.context with
        | none => s
        | some (record, context) => { s with context := context, records := s.records.set index record }
  else s

/-- An action. One that is not possible changes nothing. -/
def perform (action : StreamAction Obj) (s : StreamState Obj) : StreamState Obj :=
  match action with
  | .start inputOptions => (streamText world options inputOptions s).2
  | .fire call callback value => (fire world options call callback value s).2
  | .finish call outcome => (finish world options call outcome s).2
  | .registered index _ => advance world options action index s
  | .resume index => advance world options action index s
  | .answered index _ => advance world options action index s

/-- The state after these actions of a new adapter -/
def performAll (actions : List (StreamAction Obj)) : StreamState Obj :=
  actions.foldl (fun s action => perform world options action s) .empty

end NexusAISDKAdapter

end TypeScript

end AttowNexus
