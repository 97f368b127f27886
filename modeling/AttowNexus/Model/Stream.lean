import AttowNexus.Model.Bus
import AttowNexus.Model.System

/-! # The bidirectional stream

`open_stream` of `grpc/service.rs`: one answer for each client event. A request that fails ends the stream; other
clients may call the daemon between two events.
-/

namespace AttowNexus

open Fallible AppState

inductive ClientEvent where
  | heartbeat (agentId : String)
  | publishDelta (request : PublishDeltaRequest)
  | subscribe (request : SubscribeRequest)
  | unsubscribe (subscriberId : String)
  | checkpoint (request : PublishDeltaRequest)
  | recordToolStarted (toolCall : ToolCall)
  | recordToolFinished (toolResult : ToolResult)
  | recordSideEffect (sideEffect : ExternalSideEffect)
  | shutdown (reason : String)

/-- The answers of the stream -/
inductive ServerEvent where
  | ack (id message : String)
  | checkpointCommitted (commitId deltaId : String)
  | error (code message : String) (retryable : Bool)
deriving DecidableEq, Repr

section Answers

variable (deps : External) (config : Config) (ambient : Ambient)

/-- The answer to a publish and to a checkpoint -/
def publishOnStream (request : PublishDeltaRequest) : Fallible AppState Error ServerEvent := do
  let response ← publishDeltaInner deps config ambient request
  pure (.checkpointCommitted response.commitId response.deltaId)

/-- The body of the loop of `open_stream` -/
def answer : Option ClientEvent → Fallible AppState Error ServerEvent
  | some (.heartbeat agentId) => do
      heartbeat agentId
      pure (.ack agentId "heartbeat accepted")
  | some (.publishDelta request) => publishOnStream deps config ambient request
  | some (.checkpoint request) => publishOnStream deps config ambient request
  | some (.shutdown reason) => pure (.ack "shutdown" ("shutdown requested: " ++ reason))
  | some _ => pure (.ack "event" "event accepted")
  | none => pure (.error "empty_event" "client event did not contain an event" false)

end Answers

/-- The daemon and whether the stream is still open -/
structure StreamState where
  app : AppState
  isOpen : Bool

/-- An event on the stream with its outcome, or a call of another client -/
inductive StreamEvent where
  | client (event : Option ClientEvent) (ambient : Ambient) (outcome : Except Error ServerEvent)
  | other (event : Event)

inductive StreamStep (deps : External) (config : Config) : StreamState → StreamEvent → StreamState → Prop
  | client {s t : AppState} {event : Option ClientEvent} {ambient : Ambient} {outcome : Except Error ServerEvent}
      (answered : answer deps config ambient event s = (outcome, t)) :
      StreamStep deps config ⟨s, true⟩ (.client event ambient outcome) ⟨t, outcome.isOk⟩
  | other {s t : AppState} {event : Event} {isOpen : Bool} (step : Step deps config s event t) :
      StreamStep deps config ⟨s, isOpen⟩ (.other event) ⟨t, isOpen⟩

end AttowNexus
