import AttowNexus.Model.VercelAi
import AttowNexus.Proofs.TypeScriptAdapters

/-! # The events of a call of generateText

Each callback that the base function awaits records one event, and so does the end of the call. Both the callback at the
end of the call and the wrapper write the end of the run.
-/

namespace AttowNexus

namespace TypeScript

open Checks NexusAdapterContext NexusAISDKAdapter

variable {Obj : Type} {world : AdapterWorld Obj} {options : NexusAISDKAdapterOptions Obj} {s t m : ContextState}
  {inputOptions : InputOptions Obj} {threadId : String} {wrapped : WrappedOptions Obj}

/-- These callbacks are awaited one after the other. -/
inductive Awaits (composed : AICallback → Value Obj → Adapter Obj (Value Obj)) :
    List (AICallback × Value Obj) → ContextState → ContextState → Prop where
  | done {s : ContextState} : Awaits composed [] s s
  | fires {callback : AICallback} {value : Value Obj} {rest : List (AICallback × Value Obj)} {s m t : ContextState}
      {outcome : Except (Thrown Obj) (Value Obj)} (fired : composed callback value s = (outcome, m))
      (goesOn : Awaits composed rest m t) : Awaits composed ((callback, value) :: rest) s t

/-- What comes of the callback of the user, if there is one -/
def originalResult (world : AdapterWorld Obj) (wrapped : WrappedOptions Obj) (fired : AICallback × Value Obj) :
    Except (Thrown Obj) (Value Obj) :=
  match wrapped.original fired.1 with
  | .undefined => .ok .undefined
  | .null => .ok .undefined
  | function => world.runtime.call function fired.2

/-- The callback of the user returns, if there is one. -/
def returns (world : AdapterWorld Obj) (wrapped : WrappedOptions Obj) (fired : AICallback × Value Obj) : Bool :=
  (originalResult world wrapped fired).isOk

/-- What an event has for an output -/
def captured (options : NexusAISDKAdapterOptions Obj) (value : Value Obj) : Value Obj :=
  if options.captureOutputs = false then .text "[not captured]" else value

/-- What an event is sent with of an output -/
def sentOutput (world : AdapterWorld Obj) (options : NexusAISDKAdapterOptions Obj) (value : Value Obj) : Option Json :=
  ((captured options value).clone world.runtime).toOption.join.map (Sdk.redactValue world.engine)

/-- What a call sends can be copied, and the client answers with a commit. -/
structure CallsSucceed (world : AdapterWorld Obj) (options : NexusAISDKAdapterOptions Obj)
    (inputOptions : InputOptions Obj) (outputs : List (Value Obj)) : Prop where
  metadata : ((EventData.record options.context.metadata).clone world.runtime).isOk = true
  input : ∀ input, startEvent options "generateText" inputOptions = .ok input →
    ∀ entry ∈ input.data, (entry.2.clone world.runtime).isOk = true
  outputs : ∀ value ∈ outputs, ((captured options value).clone world.runtime).isOk = true
  answered : Answers world.client

/-- One `run_start`, one `step_end` for each step in their order and one `run_end`, each with the commit of the one
before it for its parent -/
structure WellFormedTrace (world : AdapterWorld Obj) (options : NexusAISDKAdapterOptions Obj) (steps : List (Value Obj))
    (result : Value Obj) (events : List RecordedEvent) : Prop where
  listed : events.map (fun event => (event.eventType, event.output)) =
    (some (.string "run_start"), none) ::
      (steps.map fun step => (some (.string "step_end"), sentOutput world options step)) ++
        [(some (.string "run_end"), sentOutput world options result)]
  parents : events.IsChain fun earlier later =>
    ∃ commitId, earlier.commitId = some commitId ∧ later.parents = [commitId]

/-- What a callback that returns records -/
def attempt (world : AdapterWorld Obj) (options : NexusAISDKAdapterOptions Obj) (fired : AICallback × Value Obj) :
    Option Json × Option Json :=
  (some (.string (match fired.1 with
    | .onStepFinish => "step_end"
    | .onFinish => "run_end"
    | .onError => "error")), sentOutput world options fired.2)

section Copies

variable {runtime : Runtime Obj} {value metadata : EventData Obj} {json other : Option Json}

theorem copies_pair (name : String) (copied : value.clone runtime = .ok json)
    (also : metadata.clone runtime = .ok other) :
    copies runtime ([(name, value)] ++ [("metadata", metadata)]) = .ok [(name, json), ("metadata", other)] := by
  rw [copies, List.singleton_append, List.mapM_cons, List.mapM_cons, List.mapM_nil]
  simp only [copied, also]
  rfl

theorem get_output_sentData (engine : RegexEngine) :
    JsonMap.get "output" (sentData engine [("output", json), ("metadata", other)]) =
      json.map (Sdk.redactValue engine) := by
  cases json with
  | some json => rfl
  | none =>
    cases other with
    | some other => rfl
    | none => rfl

theorem get_output_input (engine : RegexEngine) :
    JsonMap.get "output" (sentData engine [("input", json), ("metadata", other)]) = none := by
  cases json with
  | some json =>
    cases other with
    | some other => rfl
    | none => rfl
  | none =>
    cases other with
    | some other => rfl
    | none => rfl

end Copies

/-- What each event of a call has in common -/
structure Ongoing (world : AdapterWorld Obj) (options : NexusAISDKAdapterOptions Obj) (version threadId : String) :
    Prop where
  alone : Alone world
  clocked : ∀ n, Clocked world.numbers (world.ambient n)
  answered : Answers world.client
  given : adapterVersion world options.context = .ok version
  named : Named options.context version threadId
  metadata : ((EventData.record options.context.metadata).clone world.runtime).isOk = true

section Recording

variable {version : String}

theorem registers_of_mem (registered : threadId ∈ s.registeredThreads) :
    register world options.context threadId s = (.ok (), s) := by
  rw [register, Fallible.bind_of_ok (Fallible.get_eq_iff.2 ⟨rfl, rfl⟩), if_pos registered]
  rfl

/-- An event with an output -/
theorem output_records (stepName : String) {eventType : String} {value : Value Obj}
    (ongoing : Ongoing world options version threadId) (typed : eventType ∈ eventTypes)
    (registered : threadId ∈ s.registeredThreads)
    (copied : ((captured options value).clone world.runtime).isOk = true) :
    ∃ parents t, record world options.context threadId (.ok (outputEvent options eventType stepName value)) s =
        (.ok parents, t) ∧ threadId ∈ t.registeredThreads ∧
      ∃ event : RecordedEvent, Records world.client threadId s [event] t ∧
        (event.eventType, event.output) = (some (.string eventType), sentOutput world options value) := by
  obtain ⟨json, copied⟩ := exists_eq_ok copied
  obtain ⟨other, metadata⟩ := exists_eq_ok ongoing.metadata
  obtain ⟨commitId, t, run, registered, records⟩ := record_records (outputEvent options eventType stepName value)
    ongoing.alone ongoing.answered ongoing.given ongoing.named typed (ongoing.clocked _)
    (registers_of_mem registered) (copies_pair "output" (by exact copied) metadata)
  refine ⟨_, t, run, registered, _, records, ?_⟩
  rw [get_output_sentData, sentOutput, copied]
  rfl

/-- A composed callback records an event if the callback of the user returns, and nothing otherwise. -/
theorem composed_records (fired : AICallback × Value Obj) {outcome : Except (Thrown Obj) (Value Obj)}
    (ongoing : Ongoing world options version threadId) (step : fired.1 ≠ .onError)
    (registered : threadId ∈ s.registeredThreads)
    (copied : ((captured options fired.2).clone world.runtime).isOk = true)
    (run : composed world options wrapped threadId "generateText" fired.1 fired.2 s = (outcome, t)) :
    outcome = originalResult world wrapped fired ∧ threadId ∈ t.registeredThreads ∧
      ∃ events, Records world.client threadId s events t ∧
        events.map (fun event => (event.eventType, event.output)) =
          if returns world wrapped fired = true then [attempt world options fired] else [] := by
  have shape : composed world options wrapped threadId "generateText" fired.1 fired.2 = (do
      let originalResult ← Fallible.lift (originalResult world wrapped fired)
      let _ ← record world options.context threadId
        (callbackEvent world options "generateText" fired.1 fired.2)
      pure originalResult) := rfl
  rw [shape] at run
  rw [returns]
  cases called : originalResult world wrapped fired with
  | error raised =>
    rw [called, Fallible.bind_of_error (Fallible.lift_eq_iff.2 ⟨rfl, rfl⟩)] at run
    obtain ⟨rfl, rfl⟩ := Prod.mk.inj run
    exact ⟨rfl, registered, [], .refl _, rfl⟩
  | ok value =>
    obtain ⟨eventType, typed, same, fits⟩ : ∃ eventType, eventType ∈ eventTypes ∧
        callbackEvent world options "generateText" fired.1 fired.2 =
          .ok (outputEvent options eventType "generateText" fired.2) ∧
        attempt world options fired = (some (.string eventType), sentOutput world options fired.2) := by
      obtain ⟨callback, _⟩ := fired
      cases callback with
      | onStepFinish => exact ⟨"step_end", by decide, rfl, rfl⟩
      | onFinish => exact ⟨"run_end", by decide, rfl, rfl⟩
      | onError => exact absurd rfl step
    obtain ⟨parents, m, recorded, kept, event, records, fields⟩ :=
      output_records "generateText" ongoing typed registered copied
    rw [called, Fallible.lift_ok_bind, same, Fallible.bind_of_ok recorded] at run
    obtain ⟨rfl, rfl⟩ := Fallible.pure_eq_iff.1 run
    refine ⟨rfl, kept, [event], records, ?_⟩
    rw [fits, List.map_singleton, fields]
    rfl

/-- The events of the callbacks that are awaited -/
theorem awaits_records {fired : List (AICallback × Value Obj)} (ongoing : Ongoing world options version threadId)
    (awaits : Awaits (composed world options wrapped threadId "generateText") fired s t)
    (steps : ∀ callback ∈ fired, callback.1 ≠ .onError) (registered : threadId ∈ s.registeredThreads)
    (copied : ∀ callback ∈ fired, ((captured options callback.2).clone world.runtime).isOk = true) :
    threadId ∈ t.registeredThreads ∧ ∃ events, Records world.client threadId s events t ∧
      events.map (fun event => (event.eventType, event.output)) =
        (fired.filter (returns world wrapped)).map (attempt world options) := by
  induction awaits with
  | done => exact ⟨registered, [], .refl _, rfl⟩
  | @fires callback value rest s m t outcome run _ ih =>
    obtain ⟨step, steps⟩ := List.forall_mem_cons.mp steps
    obtain ⟨own, copied⟩ := List.forall_mem_cons.mp copied
    obtain ⟨_, kept, events, records, fields⟩ := composed_records (callback, value) ongoing step registered own run
    obtain ⟨kept, more, further, others⟩ := ih steps kept copied
    refine ⟨kept, events ++ more, records.trans further, ?_⟩
    rw [List.map_append, fields, others, List.filter_cons]
    split_ifs
    · rfl
    · rfl

theorem startEvent_eq {stepName : String} {input : EventInput Obj}
    (made : startEvent options stepName inputOptions = .ok input) :
    ∃ value, input = ⟨"run_start", stepName, [("input", value)]⟩ := by
  rw [startEvent] at made
  split_ifs at made
  · obtain ⟨value, _, same⟩ := bind_eq_ok_iff.1 made
    exact ⟨value, (Except.ok.inj same).symm⟩
  · obtain ⟨value, _, same⟩ := bind_eq_ok_iff.1 made
    exact ⟨value, (Except.ok.inj same).symm⟩

/-- A call that gets to the base function has recorded its start. -/
theorem started_records (alone : Alone world) (clocked : ∀ n, Clocked world.numbers (world.ambient n))
    {outputs : List (Value Obj)} (succeed : CallsSucceed world options inputOptions outputs)
    (start : started world options inputOptions s = (.ok (threadId, wrapped), m)) :
    (∃ version, Ongoing world options version threadId) ∧ threadId ∈ m.registeredThreads ∧
      ∃ event : RecordedEvent, Records world.client threadId s [event] m ∧
        (event.eventType, event.output) = (some (.string "run_start"), none) := by
  obtain ⟨given, s, read, goesOn⟩ := Fallible.bind_eq_ok_iff.1 start
  obtain ⟨_, rfl⟩ := Fallible.lift_eq_iff.1 read
  obtain ⟨parents, u, recorded, wraps⟩ := Fallible.bind_eq_ok_iff.1 goesOn
  obtain ⟨_, u, composes, ends⟩ := Fallible.bind_eq_ok_iff.1 wraps
  obtain ⟨_, rfl⟩ := Fallible.lift_eq_iff.1 composes
  obtain ⟨same, rfl⟩ := Fallible.pure_eq_iff.1 ends
  obtain ⟨rfl, rfl⟩ := Prod.mk.inj (Except.ok.inj same)
  obtain ⟨input, v, lifted, builds⟩ := Fallible.bind_eq_ok_iff.1 recorded
  obtain ⟨made, rfl⟩ := Fallible.lift_eq_iff.1 lifted
  obtain ⟨event, v, built, sends⟩ := Fallible.bind_eq_ok_iff.1 builds
  obtain ⟨version, ⟨versioned, named, typed, _⟩, rfl, rfl⟩ := event_eq_ok_iff.1 built
  obtain ⟨_, v, registers, _⟩ := Fallible.bind_eq_ok_iff.1 sends
  obtain ⟨value, rfl⟩ := startEvent_eq made.symm
  obtain ⟨json, copied⟩ := exists_eq_ok (succeed.input _ made.symm _ (List.mem_singleton.mpr rfl))
  obtain ⟨other, metadata⟩ := exists_eq_ok succeed.metadata
  obtain ⟨commitId, t, run, registered, records⟩ := record_records _ alone succeed.answered versioned named typed
    (clocked _) registers (copies_pair "input" copied metadata)
  rw [← made, run] at recorded
  obtain ⟨_, rfl⟩ := Prod.mk.inj recorded
  refine ⟨⟨version, alone, clocked, succeed.answered, versioned, named, succeed.metadata⟩, registered, _, records, ?_⟩
  rw [get_output_input]

/-- The events of a whole call: its start, one event for each callback that returns, and its end. -/
theorem generateText_records (alone : Alone world) (clocked : ∀ n, Clocked world.numbers (world.ambient n))
    {baseGenerateText : BaseFunction Obj} {fired : List (AICallback × Value Obj)} {result : Value Obj}
    (succeed : CallsSucceed world options inputOptions (result :: fired.map (·.2)))
    (start : started world options inputOptions s = (.ok (threadId, wrapped), m))
    (awaits : Awaits (composed world options wrapped threadId "generateText") fired m t)
    (steps : ∀ callback ∈ fired, callback.1 ≠ .onError)
    (returned : calledBase world options baseGenerateText threadId wrapped m = (.ok result, t)) :
    ∃ events u, generateText world options baseGenerateText inputOptions s = (.ok result, u) ∧
      Records world.client threadId s events u ∧ events.map (fun event => (event.eventType, event.output)) =
        (some (.string "run_start"), none) :: ((fired.filter (returns world wrapped)).map (attempt world options) ++
          [(some (.string "run_end"), sentOutput world options result)]) := by
  obtain ⟨⟨version, ongoing⟩, registered, first, opens, first_fields⟩ := started_records alone clocked succeed start
  obtain ⟨last, copied⟩ := List.forall_mem_cons.mp succeed.outputs
  obtain ⟨kept, events, records, fields⟩ := awaits_records ongoing awaits steps registered fun callback member =>
    copied _ (List.mem_map_of_mem member)
  obtain ⟨parents, u, recorded, _, ending, closes, ending_fields⟩ := output_records "generateText" ongoing
    (by decide : "run_end" ∈ eventTypes) kept last
  refine ⟨[first] ++ events ++ [ending], u, ?_, (opens.trans records).trans closes, ?_⟩
  · rw [generateText, Fallible.bind_of_ok start]
    apply Fallible.reraising_of_ok (t := u)
    rw [Fallible.bind_of_ok returned, Fallible.bind_of_ok recorded]
    rfl
  · rw [List.map_append, List.map_append, fields, List.map_singleton, List.map_singleton, first_fields, ending_fields]
    rfl

theorem eq_onStepFinish_of_attempt {callback other : AICallback × Value Obj} (step : other.1 = .onStepFinish)
    (alike : attempt world options other = attempt world options callback) : callback.1 = .onStepFinish := by
  have types := Option.some.inj (congrArg Prod.fst alike)
  rw [step] at types
  cases kind : callback.1 with
  | onStepFinish => rfl
  | onFinish =>
    rw [kind] at types
    exact absurd (Json.string.inj types) (by decide)
  | onError =>
    rw [kind] at types
    exact absurd (Json.string.inj types) (by decide)

/-- The trace of events is well formed just when the callbacks that record one are those at the end of a step. -/
theorem wellFormedTrace_iff (alone : Alone world) (clocked : ∀ n, Clocked world.numbers (world.ambient n))
    {baseGenerateText : BaseFunction Obj} {fired : List (AICallback × Value Obj)} {result : Value Obj}
    (succeed : CallsSucceed world options inputOptions (result :: fired.map (·.2)))
    (start : started world options inputOptions s = (.ok (threadId, wrapped), m))
    (awaits : Awaits (composed world options wrapped threadId "generateText") fired m t)
    (steps : ∀ callback ∈ fired, callback.1 ≠ .onError)
    (returned : calledBase world options baseGenerateText threadId wrapped m = (.ok result, t)) :
    WellFormedTrace world options ((fired.filter (·.1 = .onStepFinish)).map (·.2)) result
        (recordedEvents world.client s.calls
          ((generateText world options baseGenerateText inputOptions s).2.calls.drop s.calls.length)) ↔
      ∀ callback ∈ fired, callback.1 = .onStepFinish ↔ returns world wrapped callback = true := by
  obtain ⟨events, u, run, ⟨⟨made, grown, rfl⟩, linked⟩, fields⟩ :=
    generateText_records alone clocked succeed start awaits steps returned
  rw [run]
  dsimp only
  rw [grown, List.drop_left]
  have stepped : (((fired.filter (·.1 = .onStepFinish)).map (·.2)).map fun step =>
      (some (Json.string "step_end"), sentOutput world options step)) =
        (fired.filter (·.1 = .onStepFinish)).map (attempt world options) := by
    rw [List.map_map]
    refine List.map_congr_left fun callback member => ?_
    have step := of_decide_eq_true (List.mem_filter.mp member).2
    rw [attempt, step]
    rfl
  constructor
  · intro traced
    have same := traced.listed
    rw [fields, stepped, List.cons_append, List.cons.injEq, List.append_left_inj] at same
    have only : ∀ callback ∈ fired.filter (returns world wrapped), callback.1 = .onStepFinish := by
      intro callback member
      have listed := List.mem_map_of_mem (f := attempt world options) member
      obtain ⟨other, inside, alike⟩ := List.mem_map.mp (same.2 ▸ listed)
      have step := of_decide_eq_true (List.mem_filter.mp inside).2
      exact eq_onStepFinish_of_attempt step alike
    have part : (fired.filter (·.1 = .onStepFinish)).filter (returns world wrapped) =
        fired.filter (returns world wrapped) := by
      rw [List.filter_comm]
      exact List.filter_eq_self.mpr fun callback member => decide_eq_true (only callback member)
    have length := congrArg List.length same.2
    rw [List.length_map, List.length_map, ← part] at length
    have whole := part.symm.trans (List.filter_sublist.eq_of_length length)
    intro callback member
    constructor
    · intro step
      have inside : callback ∈ fired.filter (returns world wrapped) :=
        whole ▸ List.mem_filter.mpr ⟨member, decide_eq_true step⟩
      exact (List.mem_filter.mp inside).2
    · exact fun called => only callback (List.mem_filter.mpr ⟨member, called⟩)
  · intro exactly
    refine ⟨?_, linked.isChain⟩
    rw [fields, stepped, List.cons_append]
    congr 3
    refine List.filter_congr fun callback member => ?_
    rw [Bool.eq_iff_iff, decide_eq_true_iff]
    exact (exactly callback member).symm

end Recording

section Sample

/-- A client that answers every checkpoint with a commit of its own -/
private def prompt : AdapterWorld Empty where
  runtime := ⟨nofun, nofun, nofun, fun _ _ => .ok .undefined⟩
  engine := .plain
  numbers := .plain
  ambient _ := ⟨0, [], 1⟩
  client calls := .resolved (match calls.getLast? with
    | some (.checkpoint ..) => some (String.ofList ('c' :: Nat.toDigits 10 calls.length))
    | _ => none)
  meanwhile s := s

private def frontend : NexusAISDKAdapterOptions Empty where
  context := ⟨"vercel-ai", "run-1", "vercel-ai-frontend", none, true, ["vercel-ai"], []⟩
  captureInputs := true
  captureOutputs := true

/-- A base function that awaits one callback -/
private def firing (callback : AICallback) : BaseFunction Empty := fun _ composed => do
  let _ ← composed callback (.text "done")
  pure (.text "done")

private def fresh : ContextState := ⟨[], ∅, [], 0⟩

private theorem prompt_succeeds : CallsSucceed prompt frontend [] [.text "done", .text "done"] where
  metadata := rfl
  input input made entry member := by
    cases Except.ok.inj made
    obtain rfl := List.mem_singleton.mp member
    rfl
  outputs value member := by
    simp only [List.mem_cons, List.not_mem_nil, or_false, or_self] at member
    rw [member]
    rfl
  answered calls call checkpoint := by
    cases call with
    | registerAgent => cases checkpoint
    | checkpoint =>
      refine ⟨_, ?_, congrArg Reply.resolved (by rw [List.getLast?_concat])⟩
      intro same
      have digits := congrArg String.toList same
      rw [String.toList_ofList] at digits
      exact List.cons_ne_nil _ _ digits

private theorem original_eq (wrapped : WrappedOptions Empty) (fired : AICallback × Value Empty) :
    originalResult prompt wrapped fired = .ok .undefined := by
  rw [originalResult]
  cases wrapped.original fired.1 with
  | undefined => rfl
  | null => rfl
  | _ => rfl

private theorem clocked_prompt (n : ℕ) : Clocked prompt.numbers (prompt.ambient n) := ⟨rfl, rfl⟩

private theorem firing_runs (callback : AICallback) (step : callback ≠ .onError) :
    ∃ threadId wrapped m t, started prompt frontend [] fresh = (.ok (threadId, wrapped), m) ∧
      Awaits (composed prompt frontend wrapped threadId "generateText") [(callback, .text "done")] m t ∧
      calledBase prompt frontend (firing callback) threadId wrapped m = (.ok (.text "done"), t) := by
  obtain ⟨⟨threadId, wrapped⟩, start⟩ := Fallible.exists_ok
    (by decide : (started prompt frontend [] fresh).1.isOk = true)
  obtain ⟨⟨version, ongoing⟩, registered, _⟩ := started_records (fun _ => rfl) clocked_prompt prompt_succeeds start
  rcases run : composed prompt frontend wrapped threadId "generateText" callback (.text "done") _ with ⟨outcome, t⟩
  obtain ⟨rfl, _⟩ := composed_records (callback, .text "done") ongoing step registered rfl run
  refine ⟨threadId, wrapped, _, t, start, .fires run .done, ?_⟩
  rw [original_eq] at run
  rw [calledBase, firing, Fallible.bind_of_ok run]
  rfl

/-- One step gives one event between the start and the end of the run. -/
theorem wellFormedTrace_of_step : WellFormedTrace prompt frontend [.text "done"] (.text "done")
    (recordedEvents prompt.client [] (generateText prompt frontend (firing .onStepFinish) [] fresh).2.calls) := by
  obtain ⟨threadId, wrapped, m, t, start, awaits, returned⟩ := firing_runs .onStepFinish nofun
  exact (wellFormedTrace_iff (fun _ => rfl) clocked_prompt prompt_succeeds start awaits
    (List.forall_mem_singleton.mpr nofun) returned).mpr (List.forall_mem_singleton.mpr
      (iff_of_true rfl (congrArg Except.isOk (original_eq wrapped _))))

/-- With a callback at the end of the run, there are two ends of it. -/
theorem two_ends_of_onFinish :
    (generateText prompt frontend (firing .onFinish) [] fresh).1 = .ok (.text "done") ∧
      (recordedEvents prompt.client [] (generateText prompt frontend (firing .onFinish) [] fresh).2.calls).map
        (·.eventType) = [some (.string "run_start"), some (.string "run_end"), some (.string "run_end")] ∧
      ¬ WellFormedTrace prompt frontend [] (.text "done")
        (recordedEvents prompt.client [] (generateText prompt frontend (firing .onFinish) [] fresh).2.calls) := by
  obtain ⟨threadId, wrapped, m, t, start, awaits, returned⟩ := firing_runs .onFinish nofun
  obtain ⟨events, u, run, ⟨⟨made, grown, rfl⟩, linked⟩, fields⟩ := generateText_records (fun _ => rfl) clocked_prompt
    prompt_succeeds start awaits (List.forall_mem_singleton.mpr nofun) returned
  have called : returns prompt wrapped (.onFinish, .text "done") = true := congrArg Except.isOk (original_eq wrapped _)
  have three := fields
  rw [List.filter_cons_of_pos called, List.filter_nil] at three
  rw [run]
  dsimp only
  rw [grown]
  refine ⟨rfl, ?_, fun traced => ?_⟩
  · have types := congrArg (List.map Prod.fst) three
    rw [List.map_map] at types
    exact types
  · have lengths := congrArg List.length (three.symm.trans traced.listed)
    exact absurd lengths (by decide)

end Sample

end TypeScript

end AttowNexus
