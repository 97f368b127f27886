import AttowNexus.Model.LangGraph

/-! # Streams of the LangGraph adapter

`adapters/langgraph.py`: `stream`, whose consumer takes every chunk. The generator keeps its local variables next to the
state of the adapter, and what the consumer got so far.
-/

namespace AttowNexus

namespace Python

/-- What `stream` of the wrapped graph does: it yields chunks and fires callbacks, and ends. -/
inductive WrappedStream (Obj Exc Callback : Type) where
  | ended
  | raised (exception : Exc)
  | yields (chunk : Value Obj) (goesOn : WrappedStream Obj Exc Callback)
  | fires (callback : Callback) (goesOn : Except (Exn Exc) Unit → WrappedStream Obj Exc Callback)

abbrev StreamedGraph (Obj Exc : Type) :=
  Value Obj → List (Value Obj × Value Obj) → WrappedStream Obj Exc (ChainCallback Obj Exc)

/-- The proxy with its options for streams -/
structure NexusLangGraphStreams (Obj : Type) extends NexusLangGraphProxy Obj where
  captureStreamUpdates : Bool
  /-- `max(0, max_stream_events)` -/
  maxStreamEvents : ℕ

/-- `NexusLangGraphProxy`, with the number that is given -/
def NexusLangGraphStreams.ofOptions {Obj : Type} (proxy : NexusLangGraphProxy Obj) (captureStreamUpdates : Bool)
    (maxStreamEvents : ℤ) : NexusLangGraphStreams Obj :=
  { proxy with captureStreamUpdates, maxStreamEvents := (max 0 maxStreamEvents).toNat }

/-- The state of the adapter and the variables of the generator -/
structure GeneratorState (Obj Exc : Type) where
  adapter : AdapterState Obj Exc
  parents : List String
  lastChunk : Value Obj
  seen : ℕ
  skipped : ℕ
  /-- What the consumer got -/
  yielded : List (Value Obj)

abbrev Generator (Obj Exc α : Type) := Fallible (GeneratorState Obj Exc) (Exn Exc) α

namespace NexusLangGraphStreams

variable {Obj Exc : Type} (world : AdapterWorld Obj Exc) (proxy : NexusLangGraphStreams Obj)

/-- A part of the generator that has no variables of its own -/
def ofAdapter {α : Type} (x : Adapter Obj Exc α) : Generator Obj Exc α :=
  Fallible.zoom (·.adapter) (fun adapter s => { s with adapter }) x

/-- The last events of a stream say how many chunks there were. -/
def endArguments (eventType method : String) (output : Value Obj) (parents : List String) (seen skipped : ℕ) :
    EventArguments Obj :=
  ⟨eventType, some method, none, [("output", output)], some parents,
    [("method", .str method), ("stream_events_seen", .int seen), ("stream_events_skipped", .int skipped)]⟩

def checkpointStreamDelta (method : String) (chunk : Value Obj) (threadId : String) (parents : List String)
    (sequence : ℕ) : Adapter Obj Exc (List String) := do
  let chunk ← Fallible.lift (Value.safeJsonable world.interpreter world.interpreter.recursionLimit chunk)
  let delta := Value.ofEntries [("sequence", .int sequence), ("chunk", chunk)]
  proxy.base.record world (some threadId)
    (NexusLangGraphProxy.stepArguments "stream_delta" method [("delta", delta)] (some parents))

def checkpointStreamEnd (method : String) (lastChunk : Value Obj) (threadId : String) (parents : List String)
    (seen skipped : ℕ) : Adapter Obj Exc (List String) := do
  let output ← Fallible.lift (captured world proxy.captureOutputs lastChunk)
  let stepParents ← proxy.base.record world (some threadId) (endArguments "step_end" method output parents seen skipped)
  let output ← Fallible.lift (captured world proxy.captureOutputs lastChunk)
  proxy.base.record world (some threadId) (endArguments "run_end" method output stepParents seen skipped)

/-- The body of the loop in `generator` -/
def onChunk (threadId : String) (chunk : Value Obj) : Generator Obj Exc Unit := do
  Fallible.modify fun s => { s with lastChunk := chunk }
  let s ← Fallible.get
  if proxy.captureStreamUpdates ∧ s.seen < proxy.maxStreamEvents then do
    let parents ← ofAdapter (proxy.checkpointStreamDelta world "stream" chunk threadId s.parents s.seen)
    Fallible.modify fun s => { s with parents }
  else if proxy.captureStreamUpdates then Fallible.modify fun s => { s with skipped := s.skipped + 1 }
  else pure ()
  Fallible.modify fun s => { s with seen := s.seen + 1, yielded := s.yielded ++ [chunk] }

/-- The loop in `generator` -/
def consume (prepared : PreparedCall Obj) :
    WrappedStream Obj Exc (ChainCallback Obj Exc) → Generator Obj Exc Unit
  | .ended => pure ()
  | .raised exception => Fallible.fail (.wrapped exception)
  | .yields chunk goesOn => do
      proxy.onChunk world prepared.threadId chunk
      consume prepared goesOn
  | .fires callback goesOn => fun s =>
      match ofAdapter (proxy.handle world prepared callback) s with
      | (outcome, t) => consume prepared (goesOn outcome) t

/-- `stream`, consumed to its end -/
def stream (wrappedGraph : StreamedGraph Obj Exc) (input : Value Obj) (config : Option (List (Value Obj × Value Obj))) :
    Generator Obj Exc Unit := do
  let prepared ← ofAdapter (proxy.prepareCall world "stream" config)
  let parents ← ofAdapter (proxy.checkpointStart world "stream" input prepared.threadId)
  Fallible.modify fun s => { s with parents, lastChunk := .none, seen := 0, skipped := 0, yielded := [] }
  Fallible.reraising (proxy.consume world prepared (wrappedGraph input prepared.config))
    fun exception => do
      let s ← Fallible.get
      ofAdapter (proxy.checkpointError world "stream" exception prepared.threadId s.parents)
  let s ← Fallible.get
  let _ ← ofAdapter (proxy.checkpointStreamEnd world "stream" s.lastChunk prepared.threadId s.parents s.seen s.skipped)
  pure ()

end NexusLangGraphStreams

end Python

end AttowNexus
