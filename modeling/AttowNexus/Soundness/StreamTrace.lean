import AttowNexus.Library.Linked
import AttowNexus.Proofs.LangGraphStream
import AttowNexus.Soundness.JsonableEvents
import AttowNexus.Soundness.LangGraphAncestry

/-! # The events of a stream

A stream that is consumed to its end records its start, one event for each of the first chunks, and its end or its
failure. The number of chunks and how many of them got no event are in the last events.
-/

namespace AttowNexus

namespace Python

open Checks NexusAdapterBase

variable {Obj Exc : Type}

/-- A stream of these chunks, which fires no callbacks -/
def WrappedStream.ofChunks {Callback : Type} : List (Value Obj) → Option Exc → WrappedStream Obj Exc Callback
  | [], none => .ended
  | [], some exception => .raised exception
  | chunk :: rest, ending => .yields chunk (ofChunks rest ending)

/-- The events of a stream, with the numbers that they show -/
inductive StreamEvent where
  | runStart
  | stepStart
  | delta (sequence : ℕ)
  | stepEnd (seen skipped : ℕ)
  | runEnd (seen skipped : ℕ)
  | error
deriving DecidableEq, Repr

namespace StreamEvent

def eventType : StreamEvent → String
  | .runStart => "run_start"
  | .stepStart => "step_start"
  | .delta _ => "stream_delta"
  | .stepEnd _ _ => "step_end"
  | .runEnd _ _ => "run_end"
  | .error => "error"

/-- Where in the state the numbers are -/
def counters : StreamEvent → List (List String × ℕ)
  | .delta sequence => [(["delta", "sequence"], sequence)]
  | .stepEnd seen skipped =>
      [(["metadata", "stream_events_seen"], seen), (["metadata", "stream_events_skipped"], skipped)]
  | .runEnd seen skipped =>
      [(["metadata", "stream_events_seen"], seen), (["metadata", "stream_events_skipped"], skipped)]
  | _ => []

/-- The commit of an event, with its numbers in the state -/
structure ShownBy (frameworkName : String) (event : StreamEvent) (recorded : RecordedState Obj) : Prop where
  summary : recorded.commit.summary = frameworkName ++ " " ++ event.eventType
  counters : ∀ counter ∈ event.counters, recorded.state.intAt counter.1 = some (counter.2 : ℤ)

end StreamEvent

/-- The events of a stream of so many chunks -/
def streamTrace (captureErrors : Bool) (bound seen : ℕ) (ending : Option Exc) : List StreamEvent :=
  [.runStart, .stepStart] ++ (List.range (min seen bound)).map .delta ++
    match ending with
    | none => [.stepEnd seen (seen - min seen bound), .runEnd seen (seen - min seen bound)]
    | some _ => if captureErrors then [.error] else []

/-- The commits of these events are made one after the other, and each has the one before it for its only parent. -/
structure Traces (base : NexusAdapterBase Obj) (s : AdapterState Obj Exc) (parents : List String)
    (events : List StreamEvent) (t : AdapterState Obj Exc) (last : List String) : Prop where
  states : ∃ records, recordedStates t = recordedStates s ++ records ∧
    List.Forall₂ (StreamEvent.ShownBy base.frameworkName) events records ∧
      Linked (·.commit.parents) (fun recorded => some recorded.commit.commitId) parents records last
  events : t.events = s.events + events.length

namespace Traces

variable {base : NexusAdapterBase Obj} {s t u : AdapterState Obj Exc} {parents middle last : List String}
  {events more : List StreamEvent}

theorem refl (s : AdapterState Obj Exc) (parents : List String) : Traces base s parents [] s parents :=
  ⟨⟨[], (List.append_nil _).symm, .nil, .nil _⟩, rfl⟩

theorem trans (first : Traces base s parents events t middle) (second : Traces base t middle more u last) :
    Traces base s parents (events ++ more) u last := by
  obtain ⟨⟨records, grown, shown, linked⟩, count⟩ := first
  obtain ⟨⟨further, again, shown', linked'⟩, count'⟩ := second
  refine ⟨⟨records ++ further, ?_, List.rel_append shown shown', linked.append linked'⟩, ?_⟩
  · rw [again, grown, List.append_assoc]
  · rw [count', count, List.length_append, Nat.add_assoc]

end Traces

section Arguments

variable {base : NexusAdapterBase Obj} {arguments : EventArguments Obj} {event : StreamEvent}

/-- The arguments of an event, with its numbers among the data -/
structure ArgumentsOf (base : NexusAdapterBase Obj) (event : StreamEvent) (arguments : EventArguments Obj) : Prop where
  eventType : arguments.eventType = event.eventType
  counters : ∀ counter ∈ event.counters, ∃ name path, counter.1 = name :: path ∧
    (∀ key ∈ name :: path, Sdk.secretKey key = false) ∧ (name = "metadata" ∨ name = "delta") ∧
      Value.Shows (name :: path) counter.2
        (Value.ofEntries (arguments.data ++ [("metadata", base.mergedMetadata arguments.metadata)]))

theorem keyed_textEntries {P : Value Obj → Prop} {name : String} {pairs : List (String × Value Obj)}
    (has : ∃ pair ∈ pairs, pair.1 = name) (values : ∀ pair ∈ pairs, pair.1 = name → P pair.2) :
    Value.Keyed name P (Value.textEntries pairs) where
  texts entry member := by
    obtain ⟨pair, _, rfl⟩ := List.mem_map.mp member
    exact ⟨pair.1, rfl⟩
  exists_key := by
    obtain ⟨pair, inside, rfl⟩ := has
    exact ⟨_, List.mem_map_of_mem inside, rfl⟩
  values entry member key := by
    obtain ⟨pair, inside, rfl⟩ := List.mem_map.mp member
    exact values pair inside (Value.str.inj key)

theorem argumentsOf_delta {method : String} {chunk : Value Obj} {sequence : ℕ} (parents : Option (List String)) :
    ArgumentsOf base (.delta sequence) (NexusLangGraphProxy.stepArguments "stream_delta" method
      [("delta", Value.ofEntries [("sequence", .int sequence), ("chunk", chunk)])] parents) where
  eventType := rfl
  counters counter member := by
    obtain rfl := List.mem_singleton.mp member
    refine ⟨"delta", ["sequence"], rfl, by decide, .inr rfl, _, rfl,
      keyed_textEntries ⟨_, List.mem_cons_self, rfl⟩ ?_⟩
    rintro pair inside here
    rcases List.mem_cons.mp inside with rfl | later
    · refine ⟨_, rfl, keyed_textEntries ⟨_, List.mem_cons_self, rfl⟩ ?_⟩
      rintro pair inside here
      rcases List.mem_cons.mp inside with rfl | later
      · rfl
      · rw [List.mem_singleton.mp later] at here
        exact absurd here (by decide : "chunk" ≠ "sequence")
    · rw [List.mem_singleton.mp later] at here
      exact absurd here (by decide : "metadata" ≠ "delta")

theorem shows_metadata {name : String} {number : ℤ} {data metadata : List (String × Value Obj)}
    (apart : ∀ member ∈ data, member.1 ≠ "metadata") (has : ∃ pair ∈ metadata, pair.1 = name)
    (values : ∀ pair ∈ metadata, pair.1 = name → pair.2 = .int number) :
    Value.Shows ["metadata", name] number (Value.ofEntries (data ++ [("metadata", base.mergedMetadata metadata)])) := by
  refine ⟨_, rfl, keyed_textEntries ⟨_, List.mem_append_right _ (List.mem_singleton.mpr rfl), rfl⟩ ?_⟩
  rintro pair inside here
  rcases List.mem_append.mp inside with first | second
  · exact absurd here (apart pair first)
  · obtain rfl := List.mem_singleton.mp second
    refine ⟨_, rfl, Value.Keyed.of_setEntries (fun entry member => ?_) has values⟩
    obtain ⟨given, _, rfl⟩ := List.mem_map.mp member
    exact ⟨given.1, rfl⟩

theorem argumentsOf_end {eventType method : String} {output : Value Obj} (parents : List String) {seen skipped : ℕ}
    (ends : (event = .stepEnd seen skipped ∧ eventType = "step_end") ∨
      (event = .runEnd seen skipped ∧ eventType = "run_end")) :
    ArgumentsOf base event (NexusLangGraphStreams.endArguments eventType method output parents seen skipped) where
  eventType := by
    rcases ends with ⟨rfl, rfl⟩ | ⟨rfl, rfl⟩
    · rfl
    · rfl
  counters counter member := by
    have listed : counter ∈ [(["metadata", "stream_events_seen"], seen),
        (["metadata", "stream_events_skipped"], skipped)] := by
      rcases ends with ⟨rfl, _⟩ | ⟨rfl, _⟩
      · exact member
      · exact member
    have apart : ∀ member ∈ [("output", output)], member.1 ≠ "metadata" :=
      List.forall_mem_singleton.mpr (by decide : "output" ≠ "metadata")
    rcases List.mem_cons.mp listed with rfl | later
    · refine ⟨"metadata", ["stream_events_seen"], rfl, by decide, .inl rfl, shows_metadata apart ?_ ?_⟩
      · exact ⟨_, List.mem_cons_of_mem _ List.mem_cons_self, rfl⟩
      · simp [NexusLangGraphStreams.endArguments]
    · obtain rfl := List.mem_singleton.mp later
      refine ⟨"metadata", ["stream_events_skipped"], rfl, by decide, .inl rfl, shows_metadata apart ?_ ?_⟩
      · exact ⟨_, List.mem_cons_of_mem _ (List.mem_cons_of_mem _ List.mem_cons_self), rfl⟩
      · simp [NexusLangGraphStreams.endArguments]

end Arguments

section Recording

variable {world : AdapterWorld Obj Exc} {base : NexusAdapterBase Obj} {s : AdapterState Obj Exc} {threadId : String}
  {event : StreamEvent} {arguments : EventArguments Obj}

/-- Recording one event of a stream -/
theorem record_traces (succeeds : Succeeds world) (of : ArgumentsOf base event arguments)
    (named : "" ∉ arguments.parentCommitIds.getD []) (recordable : Recordable world base threadId arguments s.events) :
    ∃ commitId t, base.record world (some threadId) arguments s = (.ok [commitId], t) ∧ commitId ≠ "" ∧
      Traces base s (submittedParents (base.deriveThreadId (some threadId)) (arguments.parentCommitIds.getD []) s)
        [event] t [commitId] := by
  obtain ⟨commitId, t, state, run, nonempty, events, states, pays⟩ := record_adds succeeds named recordable
  refine ⟨commitId, t, run, nonempty,
    ⟨_, states, .cons ⟨?_, fun counter member => ?_⟩ .nil, .singleton rfl rfl⟩, events⟩
  · rw [of.eventType]
  · obtain ⟨name, path, same, plain, known, shows⟩ := of.counters counter member
    rw [same]
    exact (pays.shows plain known shows).intAt

/-- An event that names the commit of the one before it -/
theorem record_after {commitId : String} (succeeds : Succeeds world) (of : ArgumentsOf base event arguments)
    (given : arguments.parentCommitIds = some [commitId]) (nonempty : commitId ≠ "")
    (recordable : Recordable world base threadId arguments s.events) :
    ∃ next t, base.record world (some threadId) arguments s = (.ok [next], t) ∧ next ≠ "" ∧
      Traces base s [commitId] [event] t [next] := by
  have named : "" ∉ arguments.parentCommitIds.getD [] := by
    rw [given]
    exact fun member => nonempty (List.mem_singleton.mp member).symm
  obtain ⟨next, t, run, known, traces⟩ := record_traces succeeds of named recordable
  rw [given, Option.getD_some, submittedParents, if_neg (List.cons_ne_nil _ _)] at traces
  exact ⟨next, t, run, known, traces⟩

end Recording

namespace NexusLangGraphStreams

variable {world : AdapterWorld Obj Exc} {proxy : NexusLangGraphStreams Obj} {s : AdapterState Obj Exc}
  {threadId : String} {input : Value Obj}

/-- The events at the start of a stream -/
def startEvents (world : AdapterWorld Obj Exc) (proxy : NexusLangGraphStreams Obj) (input : Value Obj) :
    List (Conversion Obj Exc) :=
  ["run_start", "step_start"].map fun eventType => (captured world proxy.captureInputs input).map fun value =>
    NexusLangGraphProxy.stepArguments eventType "stream" [("input", value)] none

/-- The events of chunks -/
def deltaEvents (world : AdapterWorld Obj Exc) (chunks : List (Value Obj × ℕ)) : List (Conversion Obj Exc) :=
  chunks.map fun (chunk, sequence) =>
    (Value.safeJsonable world.interpreter world.interpreter.recursionLimit chunk).map fun chunk =>
      NexusLangGraphProxy.stepArguments "stream_delta" "stream"
        [("delta", Value.ofEntries [("sequence", .int sequence), ("chunk", chunk)])] none

/-- The events at the end of a stream, which may have failed -/
def endEvents (world : AdapterWorld Obj Exc) (proxy : NexusLangGraphStreams Obj) (lastChunk : Value Obj)
    (seen skipped : ℕ) : Option Exc → List (Conversion Obj Exc)
  | none => ["step_end", "run_end"].map fun eventType =>
      (captured world proxy.captureOutputs lastChunk).map fun value =>
        (endArguments eventType "stream" value [] seen skipped).bare
  | some exception =>
      if proxy.captureErrors = false then []
      else [(errorFields world (.wrapped exception)).map fun error =>
        NexusLangGraphProxy.stepArguments "error" "stream" [("error", error)] none]

theorem checkpointStart_traces (succeeds : Succeeds world)
    (recordable : AllRecordable world proxy.base threadId (startEvents world proxy input) s.events) :
    ∃ commitId t, proxy.checkpointStart world "stream" input threadId s = (.ok [commitId], t) ∧ commitId ≠ "" ∧
      Traces proxy.base s (lastParents (proxy.base.deriveThreadId (some threadId)) s) [.runStart, .stepStart] t
        [commitId] := by
  obtain ⟨⟨arguments, converted, first⟩, ⟨arguments', converted', second⟩, _⟩ := recordable
  obtain ⟨value, captures, rfl⟩ := map_eq_ok_iff.1 converted
  obtain ⟨value', captures', rfl⟩ := map_eq_ok_iff.1 converted'
  obtain rfl := Except.ok.inj (captures.symm.trans captures')
  have starts : ArgumentsOf proxy.base .runStart
      (NexusLangGraphProxy.stepArguments "run_start" "stream" [("input", value)] none) :=
    ⟨rfl, fun _ absent => absurd absent List.not_mem_nil⟩
  obtain ⟨commitId, m, run, nonempty, traces⟩ := record_traces succeeds starts List.not_mem_nil first
  have steps : ArgumentsOf proxy.base .stepStart
      (NexusLangGraphProxy.stepArguments "step_start" "stream" [("input", value)] (some [commitId])) :=
    ⟨rfl, fun _ absent => absurd absent List.not_mem_nil⟩
  obtain ⟨next, t, run', nonempty', traces'⟩ := record_after succeeds steps rfl nonempty (traces.events ▸ second)
  refine ⟨next, t, ?_, nonempty', traces.trans traces'⟩
  rw [NexusLangGraphProxy.checkpointStart, captures, Fallible.lift_ok_bind, Fallible.bind_of_ok run,
    Fallible.lift_ok_bind]
  exact run'

theorem checkpointStreamDelta_traces {chunk : Value Obj} {commitId : String} {sequence : ℕ} (succeeds : Succeeds world)
    (nonempty : commitId ≠ "")
    (recordable : AllRecordable world proxy.base threadId (deltaEvents world [(chunk, sequence)]) s.events) :
    ∃ next t, proxy.checkpointStreamDelta world "stream" chunk threadId [commitId] sequence s = (.ok [next], t) ∧
      next ≠ "" ∧ Traces proxy.base s [commitId] [.delta sequence] t [next] := by
  obtain ⟨⟨arguments, converted, recordable⟩, _⟩ := recordable
  obtain ⟨value, converts, rfl⟩ := map_eq_ok_iff.1 converted
  obtain ⟨next, t, run, known, traces⟩ := record_after succeeds
    (argumentsOf_delta (some [commitId])) rfl nonempty recordable
  refine ⟨next, t, ?_, known, traces⟩
  rw [checkpointStreamDelta, converts, Fallible.lift_ok_bind]
  exact run

theorem checkpointStreamEnd_traces {lastChunk : Value Obj} {commitId : String} {seen skipped : ℕ}
    (succeeds : Succeeds world) (nonempty : commitId ≠ "")
    (recordable : AllRecordable world proxy.base threadId
      (endEvents world proxy lastChunk seen skipped none) s.events) :
    ∃ next t, proxy.checkpointStreamEnd world "stream" lastChunk threadId [commitId] seen skipped s = (.ok [next], t) ∧
      Traces proxy.base s [commitId] [.stepEnd seen skipped, .runEnd seen skipped] t [next] := by
  obtain ⟨⟨arguments, converted, first⟩, ⟨arguments', converted', second⟩, _⟩ := recordable
  obtain ⟨value, captures, rfl⟩ := map_eq_ok_iff.1 converted
  obtain ⟨value', captures', rfl⟩ := map_eq_ok_iff.1 converted'
  obtain rfl := Except.ok.inj (captures.symm.trans captures')
  obtain ⟨step, m, run, known, traces⟩ := record_after succeeds
    (argumentsOf_end [commitId] (.inl ⟨rfl, rfl⟩)) rfl nonempty first
  obtain ⟨next, t, run', _, traces'⟩ := record_after succeeds
    (argumentsOf_end [step] (.inr ⟨rfl, rfl⟩)) rfl known (traces.events ▸ second)
  refine ⟨next, t, ?_, traces.trans traces'⟩
  rw [checkpointStreamEnd, captures, Fallible.lift_ok_bind, Fallible.bind_of_ok run, Fallible.lift_ok_bind]
  exact run'

theorem checkpointError_traces {exception : Exc} {commitId : String} {seen skipped : ℕ} {lastChunk : Value Obj}
    (succeeds : Succeeds world) (nonempty : commitId ≠ "")
    (recordable : AllRecordable world proxy.base threadId
      (endEvents world proxy lastChunk seen skipped (some exception)) s.events) :
    ∃ given last t, proxy.checkpointError world "stream" (.wrapped exception) threadId [commitId] s = (.ok given, t) ∧
      Traces proxy.base s [commitId] (if proxy.captureErrors then [.error] else []) t last := by
  rw [NexusLangGraphProxy.checkpointError]
  cases captures : proxy.captureErrors with
  | false => exact ⟨_, _, s, rfl, .refl s _⟩
  | true =>
    rw [endEvents, if_neg (by rw [captures]; rintro ⟨⟩)] at recordable
    obtain ⟨⟨arguments, converted, recordable⟩, _⟩ := recordable
    obtain ⟨fields, described, rfl⟩ := map_eq_ok_iff.1 converted
    have errs : ArgumentsOf proxy.base .error
        (NexusLangGraphProxy.stepArguments "error" "stream" [("error", fields)] (some [commitId])) :=
      ⟨rfl, fun _ absent => absurd absent List.not_mem_nil⟩
    obtain ⟨next, t, run, _, traces⟩ := record_after succeeds errs rfl nonempty recordable
    refine ⟨[next], [next], t, ?_, traces⟩
    rw [if_neg (by rintro ⟨⟩), described, Fallible.lift_ok_bind]
    exact run

section Loop

variable {g : GeneratorState Obj Exc} {commitId : String}

theorem ofAdapter_of {α : Type} {x : Adapter Obj Exc α} {outcome : Except (Exn Exc) α} {m : AdapterState Obj Exc}
    (run : x g.adapter = (outcome, m)) : ofAdapter x g = (outcome, { g with adapter := m }) :=
  Fallible.zoom_eq_iff.2 ⟨m, run, rfl⟩

/-- One chunk: as long as there are events left it gets one, and it is yielded. -/
theorem onChunk_traces (chunk : Value Obj) (succeeds : Succeeds world) (captures : proxy.captureStreamUpdates = true)
    (parents : g.parents = [commitId]) (nonempty : commitId ≠ "")
    (recordable : g.seen < proxy.maxStreamEvents →
      AllRecordable world proxy.base threadId (deltaEvents world [(chunk, g.seen)]) g.adapter.events) :
    ∃ next t, proxy.onChunk world threadId chunk g = (.ok (), ⟨t, [next], chunk, g.seen + 1,
        g.skipped + (if g.seen < proxy.maxStreamEvents then 0 else 1), g.yielded ++ [chunk]⟩) ∧ next ≠ "" ∧
      Traces proxy.base g.adapter [commitId]
        (if g.seen < proxy.maxStreamEvents then [.delta g.seen] else []) t [next] := by
  have begun : (Fallible.modify fun s => { s with lastChunk := chunk } : Generator Obj Exc Unit) g =
      (.ok (), { g with lastChunk := chunk }) := rfl
  rw [onChunk, Fallible.bind_of_ok begun, Fallible.bind_of_ok (Fallible.get_eq_iff.2 ⟨rfl, rfl⟩)]
  by_cases room : g.seen < proxy.maxStreamEvents
  · obtain ⟨next, t, run, known, traces⟩ := checkpointStreamDelta_traces succeeds nonempty (recordable room)
    rw [if_pos room, if_pos room]
    refine ⟨next, t, ?_, known, traces⟩
    dsimp only
    rw [if_pos ⟨captures, room⟩, parents, Fallible.bind_of_ok
      (ofAdapter_of (g := ⟨g.adapter, [commitId], chunk, g.seen, g.skipped, g.yielded⟩) run)]
    rfl
  · rw [if_neg room, if_neg room]
    refine ⟨commitId, g.adapter, ?_, nonempty, .refl _ _⟩
    dsimp only
    rw [if_neg fun both => room both.2, if_pos captures, ← parents]
    rfl

/-- The whole loop, from any chunk on -/
theorem consume_traces (prepared : PreparedCall Obj) (ending : Option Exc) {chunks : List (Value Obj)}
    (succeeds : Succeeds world)
    (captures : proxy.captureStreamUpdates = true) (parents : g.parents = [commitId]) (nonempty : commitId ≠ "")
    (recordable : AllRecordable world proxy.base prepared.threadId
      (deltaEvents world ((chunks.take (proxy.maxStreamEvents - g.seen)).zipIdx g.seen)) g.adapter.events) :
    ∃ next t, proxy.consume world prepared (.ofChunks chunks ending) g = (match ending with
        | none => .ok ()
        | some exception => .error (.wrapped exception),
        ⟨t, [next], chunks.getLast?.getD g.lastChunk, g.seen + chunks.length,
          g.skipped + (chunks.length - min chunks.length (proxy.maxStreamEvents - g.seen)), g.yielded ++ chunks⟩) ∧
      next ≠ "" ∧ Traces proxy.base g.adapter [commitId]
        ((List.range' g.seen (min chunks.length (proxy.maxStreamEvents - g.seen))).map .delta) t [next] := by
  induction chunks generalizing g commitId with
  | nil =>
    refine ⟨commitId, g.adapter, ?_, nonempty, ?_⟩
    · cases ending with
      | none =>
        rw [List.append_nil, ← parents]
        rfl
      | some exception =>
        rw [List.append_nil, ← parents]
        rfl
    · rw [List.length_nil, Nat.zero_min]
      exact .refl _ _
  | cons chunk rest ih =>
    have goesOn : proxy.consume world prepared (.ofChunks (chunk :: rest) ending) g =
        (proxy.onChunk world prepared.threadId chunk >>= fun _ =>
          proxy.consume world prepared (.ofChunks rest ending)) g :=
      rfl
    rw [goesOn, List.getLast?_cons, Option.getD_some, List.length_cons]
    by_cases room : g.seen < proxy.maxStreamEvents
    · have left : proxy.maxStreamEvents - g.seen = proxy.maxStreamEvents - (g.seen + 1) + 1 := by omega
      rw [left, List.take_succ_cons, List.zipIdx_cons] at recordable
      obtain ⟨here, later⟩ := recordable
      obtain ⟨next, t, run, known, traces⟩ := onChunk_traces chunk succeeds captures parents nonempty fun _ =>
        ⟨here, trivial⟩
      rw [if_pos room] at traces run
      obtain ⟨next', t', run', known', traces'⟩ := ih (g := ⟨t, [next], chunk, g.seen + 1, g.skipped + 0,
        g.yielded ++ [chunk]⟩) rfl known (traces.events ▸ later)
      have count : min (rest.length + 1) (proxy.maxStreamEvents - g.seen) =
          min rest.length (proxy.maxStreamEvents - (g.seen + 1)) + 1 := by omega
      have skips : g.skipped + 0 + (rest.length - min rest.length (proxy.maxStreamEvents - (g.seen + 1))) =
          g.skipped + (rest.length + 1 - (min rest.length (proxy.maxStreamEvents - (g.seen + 1)) + 1)) := by omega
      have seen : g.seen + 1 + rest.length = g.seen + (rest.length + 1) := by omega
      dsimp only at run' traces'
      rw [skips, seen, List.append_assoc] at run'
      rw [count, List.range'_succ, List.map_cons]
      refine ⟨next', t', ?_, known', traces.trans traces'⟩
      rw [Fallible.bind_of_ok run, run']
      rfl
    · have none_ : proxy.maxStreamEvents - g.seen = 0 := by omega
      have none_' : proxy.maxStreamEvents - (g.seen + 1) = 0 := by omega
      obtain ⟨next, t, run, known, traces⟩ := onChunk_traces chunk succeeds captures parents nonempty fun few =>
        absurd few room
      rw [if_neg room] at traces run
      obtain ⟨next', t', run', known', traces'⟩ := ih (g := ⟨t, [next], chunk, g.seen + 1, g.skipped + 1,
        g.yielded ++ [chunk]⟩) rfl known (by rw [none_', List.take_zero]; exact trivial)
      have skips : g.skipped + 1 + (rest.length - min rest.length 0) =
          g.skipped + (rest.length + 1 - min (rest.length + 1) 0) := by omega
      have seen : g.seen + 1 + rest.length = g.seen + (rest.length + 1) := by omega
      dsimp only at run' traces'
      rw [none_', skips, seen, List.append_assoc] at run'
      rw [none_', Nat.min_zero] at traces'
      rw [none_, Nat.min_zero]
      refine ⟨next', t', ?_, known', traces.trans traces'⟩
      rw [Fallible.bind_of_ok run, run']
      rfl

end Loop

/-- The events that a stream can record -/
def streamEvents (world : AdapterWorld Obj Exc) (proxy : NexusLangGraphStreams Obj) (input : Value Obj)
    (chunks : List (Value Obj)) (ending : Option Exc) : List (Conversion Obj Exc) :=
  startEvents world proxy input ++ (deltaEvents world (chunks.take proxy.maxStreamEvents).zipIdx ++
    endEvents world proxy (chunks.getLast?.getD .none) chunks.length
      (chunks.length - min chunks.length proxy.maxStreamEvents) ending)

theorem traces_of_captures {graph : StreamedGraph Obj Exc} {config : Option (List (Value Obj × Value Obj))}
    {prepared : PreparedCall Obj} {chunks : List (Value Obj)} {ending : Option Exc} (succeeds : Succeeds world)
    (captures : proxy.captureStreamUpdates = true)
    (prepares : proxy.preparedConfig world "stream" config = .ok prepared)
    (streams : graph input prepared.config = .ofChunks chunks ending) (g : GeneratorState Obj Exc)
    (recordable : AllRecordable world proxy.base prepared.threadId (streamEvents world proxy input chunks ending)
      g.adapter.events) :
    ∃ t last, proxy.stream world graph input config g = (match ending with
        | none => .ok ()
        | some exception => .error (.wrapped exception), t) ∧ t.yielded = chunks ∧
      Traces proxy.base g.adapter (lastParents (proxy.base.deriveThreadId (some prepared.threadId)) g.adapter)
        (streamTrace proxy.captureErrors proxy.maxStreamEvents chunks.length ending) t.adapter last := by
  obtain ⟨first, recordable⟩ := allRecordable_append_iff.1 recordable
  obtain ⟨second, third⟩ := allRecordable_append_iff.1 recordable
  obtain ⟨m, registered, events, latest, states⟩ :=
    register_of_succeeds proxy.base succeeds (some prepared.threadId) g.adapter
  obtain ⟨commitId, m', begun, nonempty, opens⟩ := checkpointStart_traces (s := m) succeeds (events ▸ first)
  have quiet : Traces proxy.base g.adapter
      (lastParents (proxy.base.deriveThreadId (some prepared.threadId)) g.adapter) [] m
      (lastParents (proxy.base.deriveThreadId (some prepared.threadId)) m) := by
    rw [lastParents, lastParents, latest]
    exact ⟨⟨[], by rw [states, List.append_nil], .nil, .nil _⟩, events⟩
  have starts := quiet.trans opens
  have calls : proxy.prepareCall world "stream" config g.adapter = (.ok prepared, m) := by
    rw [NexusLangGraphProxy.prepareCall, prepares, Fallible.lift_ok_bind, Fallible.bind_of_ok registered]
    rfl
  rw [stream, Fallible.bind_of_ok (ofAdapter_of calls), Fallible.bind_of_ok (ofAdapter_of begun)]
  have assigned : (Fallible.modify fun s =>
      { s with parents := [commitId], lastChunk := .none, seen := 0, skipped := 0, yielded := [] }
      : Generator Obj Exc Unit) { g with adapter := m' } = (.ok (), ⟨m', [commitId], .none, 0, 0, []⟩) := rfl
  rw [Fallible.bind_of_ok assigned]
  have second : AllRecordable world proxy.base prepared.threadId
      (deltaEvents world ((chunks.take (proxy.maxStreamEvents - 0)).zipIdx 0)) m'.events := starts.events ▸ second
  obtain ⟨next, t, run, known, loops⟩ := consume_traces (g := ⟨m', [commitId], .none, 0, 0, []⟩) prepared ending
    succeeds captures rfl nonempty second
  dsimp only at run loops
  rw [Nat.sub_zero, Nat.zero_add, Nat.zero_add, List.nil_append, ← streams] at run
  rw [Nat.sub_zero, ← List.range_eq_range'] at loops
  have whole := starts.trans loops
  have count : t.events = g.adapter.events + (startEvents world proxy input : List (Conversion Obj Exc)).length +
      (deltaEvents world (chunks.take proxy.maxStreamEvents).zipIdx : List (Conversion Obj Exc)).length := by
    rw [whole.events, deltaEvents, List.length_map, List.length_zipIdx, List.length_take, List.length_append,
      List.length_map, List.length_range, Nat.min_comm, ← Nat.add_assoc]
    rfl
  rw [← count] at third
  have third : AllRecordable world proxy.base prepared.threadId (endEvents world proxy (chunks.getLast?.getD .none)
    chunks.length (chunks.length - min chunks.length proxy.maxStreamEvents) ending) t.events := third
  cases ending with
  | none =>
    obtain ⟨last, u, ended, ends⟩ := checkpointStreamEnd_traces succeeds known third
    refine ⟨⟨u, [next], chunks.getLast?.getD .none, chunks.length,
      chunks.length - min chunks.length proxy.maxStreamEvents, chunks⟩, [last], ?_, rfl, whole.trans ends⟩
    rw [Fallible.bind_of_ok (Fallible.reraising_of_ok run), Fallible.bind_of_ok (Fallible.get_eq_iff.2 ⟨rfl, rfl⟩)]
    exact Fallible.bind_of_ok (ofAdapter_of ended)
  | some exception =>
    obtain ⟨given, last, u, ended, ends⟩ := checkpointError_traces succeeds known third
    refine ⟨⟨u, [next], chunks.getLast?.getD .none, chunks.length,
      chunks.length - min chunks.length proxy.maxStreamEvents, chunks⟩, last, ?_, rfl, whole.trans ends⟩
    apply Fallible.bind_of_error
    refine Fallible.reraising_of_handled run (b := given) ?_
    rw [Fallible.bind_of_ok (Fallible.get_eq_iff.2 ⟨rfl, rfl⟩)]
    exact ofAdapter_of ended

section Data

variable {chunks : List (Value Obj)} {ending : Option Exc}

variable (world) in
/-- What a stream gives is JSON data: the input where it is captured, and the chunks. The number of chunks and an
exception that is recorded can be printed. -/
structure JsonStream (proxy : NexusLangGraphProxy Obj) (input : Value Obj) (chunks : List (Value Obj))
    (ending : Option Exc) : Prop where
  counts : ∀ count ≤ chunks.length, world.interpreter.prints count = true
  input : proxy.captureInputs = true → input.Jsonable world.interpreter (world.interpreter.recursionLimit - 2)
  chunks : ∀ chunk ∈ chunks, chunk.Jsonable world.interpreter (world.interpreter.recursionLimit - 2)
  described : proxy.captureErrors = true → ∀ exception, ending = some exception →
    (world.interpreter.describe (.wrapped exception)).isOk = true

theorem captured_jsonable {capture : Bool} {value : Value Obj} (deep : 2 < world.interpreter.recursionLimit)
    (given : capture = true → value.Jsonable world.interpreter (world.interpreter.recursionLimit - 2)) :
    ∃ kept : Value Obj, captured world capture value = .ok kept ∧
      kept.Jsonable world.interpreter (world.interpreter.recursionLimit - 1) := by
  cases capture with
  | false => exact ⟨_, rfl, .str _ (by omega)⟩
  | true =>
    obtain ⟨kept, run, jsonable⟩ := (given rfl).safeJsonable (by omega) (Nat.sub_le _ _)
    exact ⟨kept, run, jsonable.mono (by omega)⟩

theorem allRecordable_of_each {conversions : List (Conversion Obj Exc)}
    (each : ∀ conversion ∈ conversions, ∃ arguments, conversion = .ok arguments ∧
      ∀ events, Recordable world proxy.base threadId arguments events) (events : ℕ) :
    AllRecordable world proxy.base threadId conversions events := by
  induction conversions generalizing events with
  | nil => exact trivial
  | cons conversion rest ih =>
    obtain ⟨⟨arguments, converted, recordable⟩, later⟩ := List.forall_mem_cons.mp each
    exact ⟨⟨arguments, converted, recordable events⟩, ih later _⟩

variable (orderly : Orderly world proxy.base threadId)
  (stream : JsonStream world proxy.toNexusLangGraphProxy input chunks ending)
include orderly stream

theorem startEvents_recordable (events : ℕ) :
    AllRecordable world proxy.base threadId (startEvents world proxy input) events := by
  have deep := orderly.deep
  obtain ⟨kept, run, jsonable⟩ := captured_jsonable deep stream.input
  refine allRecordable_of_each (fun conversion member => ?_) events
  obtain ⟨eventType, named, rfl⟩ := List.mem_map.mp member
  refine ⟨_, map_eq_ok_iff.2 ⟨kept, run, rfl⟩, orderly.recordable ?_ ?_ ?_⟩
  · exact (by decide : ∀ eventType ∈ ["run_start", "step_start"], eventType ∈ eventTypes) eventType named
  · exact List.forall_mem_singleton.mpr jsonable
  · exact List.forall_mem_singleton.mpr (.str _ (by omega))

theorem deltaEvents_recordable (events : ℕ) : AllRecordable world proxy.base threadId
    (deltaEvents world (chunks.take proxy.maxStreamEvents).zipIdx) events := by
  have deep := orderly.deep
  refine allRecordable_of_each (fun conversion member => ?_) events
  obtain ⟨⟨chunk, sequence⟩, numbered, rfl⟩ := List.mem_map.mp member
  obtain ⟨below, same⟩ := List.mem_zipIdx' numbered
  have inside : chunk ∈ chunks := List.mem_of_mem_take (same ▸ List.getElem_mem below)
  obtain ⟨kept, run, jsonable⟩ := (stream.chunks _ inside).safeJsonable (by omega) (Nat.sub_le _ _)
  have count : sequence ≤ chunks.length := by
    rw [List.length_take] at below
    omega
  refine ⟨_, map_eq_ok_iff.2 ⟨kept, run, rfl⟩, orderly.recordable (by decide : "stream_delta" ∈ eventTypes) ?_ ?_⟩
  · have room : world.interpreter.recursionLimit - 1 = world.interpreter.recursionLimit - 2 + 1 := by omega
    rw [room]
    refine List.forall_mem_singleton.mpr (.ofEntries (List.forall_mem_cons.mpr ⟨?_, List.forall_mem_singleton.mpr jsonable⟩))
    exact .int (stream.counts sequence count) (by omega)
  · exact List.forall_mem_singleton.mpr (.str _ (by omega))

theorem endEvents_recordable (events : ℕ) : AllRecordable world proxy.base threadId
    (endEvents world proxy (chunks.getLast?.getD .none) chunks.length
      (chunks.length - min chunks.length proxy.maxStreamEvents) ending) events := by
  have deep := orderly.deep
  refine allRecordable_of_each (fun conversion member => ?_) events
  cases ending with
  | none =>
    have last : (chunks.getLast?.getD .none).Jsonable world.interpreter (world.interpreter.recursionLimit - 2) := by
      cases latest : chunks.getLast? with
      | none => exact .none (by omega)
      | some chunk => exact stream.chunks chunk (List.mem_of_getLast? latest)
    obtain ⟨kept, run, jsonable⟩ := @captured_jsonable _ _ world proxy.captureOutputs _ deep fun _ => last
    obtain ⟨eventType, named, rfl⟩ := List.mem_map.mp member
    refine ⟨_, map_eq_ok_iff.2 ⟨kept, run, rfl⟩, orderly.recordable ?_ ?_ ?_⟩
    · exact (by decide : ∀ eventType ∈ ["step_end", "run_end"], eventType ∈ eventTypes) eventType named
    · exact List.forall_mem_singleton.mpr jsonable
    · refine List.forall_mem_cons.mpr ⟨.str _ (by omega), List.forall_mem_cons.mpr ⟨.int ?_ (by omega), ?_⟩⟩
      · exact stream.counts _ le_rfl
      · exact List.forall_mem_singleton.mpr (.int (stream.counts _ (Nat.sub_le _ _)) (by omega))
  | some exception =>
    rw [endEvents] at member
    split_ifs at member with silent
    · exact absurd member List.not_mem_nil
    obtain rfl := List.mem_singleton.mp member
    have captures : proxy.captureErrors = true := by
      rwa [Bool.not_eq_false] at silent
    obtain ⟨⟨name, message⟩, described⟩ := exists_eq_ok (stream.described captures exception rfl)
    have fields : errorFields world (.wrapped exception) =
        .ok (Value.ofEntries [("type", .str name), ("message", .str message)]) := by
      rw [errorFields, described]
      rfl
    refine ⟨_, map_eq_ok_iff.2 ⟨_, fields, rfl⟩, orderly.recordable (by decide : "error" ∈ eventTypes) ?_ ?_⟩
    · have room : world.interpreter.recursionLimit - 1 = world.interpreter.recursionLimit - 2 + 1 := by omega
      rw [room]
      refine List.forall_mem_singleton.mpr (.ofEntries (List.forall_mem_cons.mpr ⟨.str _ (by omega), ?_⟩))
      exact List.forall_mem_singleton.mpr (.str _ (by omega))
    · exact List.forall_mem_singleton.mpr (.str _ (by omega))

/-- Every event of a stream of JSON data can be recorded. -/
theorem streamEvents_recordable (events : ℕ) :
    AllRecordable world proxy.base threadId (streamEvents world proxy input chunks ending) events :=
  allRecordable_append_iff.2 ⟨startEvents_recordable orderly stream events,
    allRecordable_append_iff.2 ⟨deltaEvents_recordable orderly stream _, endEvents_recordable orderly stream _⟩⟩

end Data

section Sample

open NexusLangGraphProxy

/-- Of a stream that goes through, the start and the first chunk can be recorded. -/
theorem recordable_of_stream {graph : StreamedGraph Obj Exc} {config : Option (List (Value Obj × Value Obj))}
    {prepared : PreparedCall Obj} {chunk : Value Obj} {g t : GeneratorState Obj Exc}
    (failOpen : proxy.base.failOpen = true) (captures : proxy.captureStreamUpdates = true)
    (room : 0 < proxy.maxStreamEvents) (prepares : proxy.preparedConfig world "stream" config = .ok prepared)
    (streams : graph input prepared.config = .ofChunks [chunk] none)
    (run : proxy.stream world graph input config g = (.ok (), t)) :
    (∃ value events, Recordable world proxy.base prepared.threadId
      (stepArguments "run_start" "stream" [("input", value)] none) events) ∧
    ∃ value parents events,
      Value.safeJsonable world.interpreter world.interpreter.recursionLimit chunk = .ok value ∧
        Recordable world proxy.base prepared.threadId (stepArguments "stream_delta" "stream"
          [("delta", Value.ofEntries [("sequence", .int 0), ("chunk", value)])] (some parents)) events := by
  obtain ⟨prepared', m, calls, run⟩ := Fallible.bind_eq_ok_iff.1 run
  obtain ⟨m', prepare, rfl⟩ := Fallible.zoom_eq_iff.1 calls
  obtain ⟨_, _, made, prepare⟩ := Fallible.bind_eq_ok_iff.1 prepare
  obtain ⟨same, rfl⟩ := Fallible.lift_eq_iff.1 made
  obtain rfl := Except.ok.inj (same.trans prepares)
  obtain ⟨_, _, _, prepare⟩ := Fallible.bind_eq_ok_iff.1 prepare
  obtain ⟨same, rfl⟩ := Fallible.pure_eq_iff.1 prepare
  obtain rfl := Except.ok.inj same
  obtain ⟨parents, _, begins, run⟩ := Fallible.bind_eq_ok_iff.1 run
  obtain ⟨n, started, rfl⟩ := Fallible.zoom_eq_iff.1 begins
  obtain ⟨value, _, _, started⟩ := Fallible.bind_eq_ok_iff.1 started
  obtain ⟨given, k, first, started⟩ := Fallible.bind_eq_ok_iff.1 started
  obtain ⟨recordable, _, named⟩ := (record_of_failOpen failOpen List.not_mem_nil).1 given k first
  obtain ⟨_, _, _, started⟩ := Fallible.bind_eq_ok_iff.1 started
  obtain ⟨_, _, named⟩ := (record_of_failOpen failOpen (by exact named)).1 parents n started
  refine ⟨⟨value, _, recordable⟩, ?_⟩
  obtain ⟨_, _, assigned, run⟩ := Fallible.bind_eq_ok_iff.1 run
  obtain ⟨_, rfl⟩ := Fallible.modify_eq_iff.1 assigned
  obtain ⟨_, _, looped, _⟩ := Fallible.bind_eq_ok_iff.1 run
  rcases Fallible.reraising_cases looped with ⟨_, looped, _⟩ | ⟨_, _, _, _, _, wrong⟩
  · rw [streams] at looped
    obtain ⟨_, _, body, _⟩ := Fallible.bind_eq_ok_iff.1 looped
    obtain ⟨_, _, assigned, body⟩ := Fallible.bind_eq_ok_iff.1 body
    obtain ⟨_, rfl⟩ := Fallible.modify_eq_iff.1 assigned
    obtain ⟨_, _, read, body⟩ := Fallible.bind_eq_ok_iff.1 body
    obtain ⟨same, rfl⟩ := Fallible.get_eq_iff.1 read
    obtain rfl := Except.ok.inj same
    dsimp only at body
    rw [if_pos ⟨captures, room⟩] at body
    obtain ⟨_, _, body, _⟩ := Fallible.bind_eq_ok_iff.1 body
    obtain ⟨_, delta, _⟩ := Fallible.zoom_eq_iff.1 body
    obtain ⟨kept, _, converts, recorded⟩ := Fallible.bind_eq_ok_iff.1 delta
    obtain ⟨made, rfl⟩ := Fallible.lift_eq_iff.1 converts
    exact ⟨kept, parents, _, made.symm, ((record_of_failOpen failOpen (by exact named)).1 _ _ recorded).1⟩
  · cases wrong

/-- An exception that cannot be described does not get out where it should be recorded. -/
theorem stream_of_undescribed {graph : StreamedGraph Obj Exc} {config : Option (List (Value Obj × Value Obj))}
    {prepared : PreparedCall Obj} {exception other : Exc} {g t : GeneratorState Obj Exc}
    (captures : proxy.captureErrors = true) (prepares : proxy.preparedConfig world "stream" config = .ok prepared)
    (streams : graph input prepared.config = .ofChunks [] (some exception))
    (undescribed : world.interpreter.describe (.wrapped exception) = .error other) :
    proxy.stream world graph input config g ≠ (.error (.wrapped exception), t) := by
  intro run
  have starts : Fallible.Raises Exn.Own (proxy.checkpointStart world "stream" input prepared.threadId) :=
    .bind (.lift (captured_own _ _)) fun _ => .bind (NexusAdapterBase.record_raises _ _) fun _ =>
      .bind (.lift (captured_own _ _)) fun _ => NexusAdapterBase.record_raises _ _
  have handled : ∀ s : AdapterState Obj Exc, ∀ parents,
      proxy.checkpointError world "stream" (.wrapped exception) prepared.threadId parents s = (.error (.method other), s) := by
    intro s parents
    rw [NexusLangGraphProxy.checkpointError, captures, if_neg (by rintro ⟨⟩), errorFields, undescribed]
    rfl
  rcases Fallible.bind_eq_error_iff.1 run with early | ⟨prepared', m, calls, run⟩
  · have prepare : Fallible.Raises Exn.Own (proxy.prepareCall world "stream" config) := by
      refine .bind (.lift fun raised wrong => ?_) fun _ => .bind (register_raises _) fun _ => .pure _
      rw [prepares] at wrong
      cases wrong
    exact Fallible.Raises.zoom prepare _ _ _ early exception rfl
  obtain ⟨m', prepare, rfl⟩ := Fallible.zoom_eq_iff.1 calls
  obtain ⟨_, _, made, prepare⟩ := Fallible.bind_eq_ok_iff.1 prepare
  obtain ⟨same, rfl⟩ := Fallible.lift_eq_iff.1 made
  obtain rfl := Except.ok.inj (same.trans prepares)
  obtain ⟨_, _, _, prepare⟩ := Fallible.bind_eq_ok_iff.1 prepare
  obtain ⟨same, rfl⟩ := Fallible.pure_eq_iff.1 prepare
  obtain rfl := Except.ok.inj same
  rcases Fallible.bind_eq_error_iff.1 run with early | ⟨parents, m, _, run⟩
  · exact Fallible.Raises.zoom starts _ _ _ early exception rfl
  rcases Fallible.bind_eq_error_iff.1 run with early | ⟨_, m, _, run⟩
  · cases (Fallible.modify_eq_iff.1 early).1
  rw [streams] at run
  have fails : Fallible.reraising (proxy.consume world prepared' (.ofChunks [] (some exception))) (fun exception => do
      let s ← Fallible.get
      ofAdapter (proxy.checkpointError world "stream" exception prepared'.threadId s.parents)) m =
        (.error (.method other), m) := by
    have raises : proxy.consume world prepared' (.ofChunks [] (some exception)) m = (.error (.wrapped exception), m) := rfl
    exact Fallible.reraising_of_failed raises (ofAdapter_of (handled m.adapter m.parents))
  rw [Fallible.bind_of_error fails] at run
  cases (Prod.mk.inj run).1

/-- A proxy that does not record errors -/
private def silent : NexusLangGraphProxy Unit := { bareProxy with captureErrors := false }

/-- A proxy of a run whose id looks like an access key -/
private def secretive : NexusLangGraphProxy Unit :=
  { bareProxy with base := { bareProxy.base with runId := "AKIA0000000000000000" } }

/-- A world in which exceptions cannot be described -/
private def mute : AdapterWorld Unit String :=
  { bareWorld counting with interpreter := { bareInterpreter with describe := fun _ => .error "no name" } }

private def begun : GeneratorState Unit String := ⟨initial, [], .none, 0, 0, []⟩

private def streaming (chunks : List (Value Unit)) (ending : Option String) : StreamedGraph Unit String :=
  fun _ _ => .ofChunks chunks ending

private theorem sample_ids : ∀ text ∈ ["r", "t", "a"], IsId text ∧ Secretless text := by
  have checked : ∀ text ∈ ["r", "t", "a"], AttowNexus.isMatch idRe text = true ∧ secretless text = true := by
    decide
  exact fun text member => ⟨isMatch_idRe.1 (checked text member).1, secretless_of_check (checked text member).2⟩

private theorem sample_orderly {world : AdapterWorld Unit String} {proxy : NexusLangGraphProxy Unit}
    (inside : world = bareWorld counting ∨ world = mute) (same : proxy.base = bareProxy.base) :
    Orderly world proxy.base "t" := by
  have now : 0 < 1 ∧ 1 ≤ 9223372036854775807 := by decide
  rw [same]
  rcases inside with rfl | rfl
  · exact ⟨by decide, fun _ => ⟨now.1, now.2, rfl⟩, by decide, sample_ids, rfl, fun _ absent => absurd absent List.not_mem_nil⟩
  · exact ⟨by decide, fun _ => ⟨now.1, now.2, rfl⟩, by decide, sample_ids, rfl, fun _ absent => absurd absent List.not_mem_nil⟩

private theorem sample_stream {world : AdapterWorld Unit String} {proxy : NexusLangGraphProxy Unit}
    {chunks : List (Value Unit)} {ending : Option String} (inside : world.interpreter.prints = bareInterpreter.prints)
    (limit : world.interpreter.recursionLimit = 20)
    (each : ∀ chunk ∈ chunks, chunk.Jsonable world.interpreter (world.interpreter.recursionLimit - 2))
    (described : proxy.captureErrors = true → ∀ exception, ending = some exception →
      (world.interpreter.describe (.wrapped exception)).isOk = true) :
    JsonStream world proxy (.int 1) chunks ending := by
  refine ⟨fun count _ => ?_, fun _ => .int ?_ (by omega), each, described⟩
  · rw [inside]
    rfl
  · rw [inside]
    rfl

private theorem number_jsonable (number : ℤ) :
    (Value.int number : Value Unit).Jsonable bareInterpreter (bareInterpreter.recursionLimit - 2) :=
  .int rfl (by decide)

end Sample

end NexusLangGraphStreams

end Python

end AttowNexus
