import AttowNexus.Proofs.LangGraph
import AttowNexus.Proofs.Recording
import AttowNexus.Soundness.SdkAcceptance

/-! # When the LangGraph adapter does not show

Only the calls of the client are guarded. The configuration is prepared, and each event is checked and converted, outside
of that guard. So a call through the adapter comes to what the wrapped call comes to by itself as long as all of these
succeed.
-/

namespace AttowNexus

namespace Python

open Checks AdapterState NexusAdapterBase

variable {Obj Exc : Type}

namespace WrappedCall

variable {Callback σ : Type} {handle : Callback → Fallible σ (Exn Exc) Unit}

/-- What the call comes to when all callbacks return normally, as they do without an adapter -/
def alone : WrappedCall Obj Exc Callback → Except (Exn Exc) (Value Obj)
  | .returned result => .ok result
  | .raised exception => .error (.wrapped exception)
  | .fires _ goesOn => alone (goesOn (.ok ()))

/-- The callbacks that it fires then -/
def fired : WrappedCall Obj Exc Callback → List Callback
  | .returned _ => []
  | .raised _ => []
  | .fires callback goesOn => callback :: fired (goesOn (.ok ()))

/-- What the handlers answer to it in a run -/
def answers (handle : Callback → Fallible σ (Exn Exc) Unit) : WrappedCall Obj Exc Callback → σ → List (Except (Exn Exc) Unit)
  | .returned _, _ => []
  | .raised _, _ => []
  | .fires callback goesOn, s =>
      match handle callback s with
      | (outcome, t) => outcome :: answers handle (goesOn outcome) t

theorem run_fires {callback : Callback} {goesOn : Except (Exn Exc) Unit → WrappedCall Obj Exc Callback} {s : σ} :
    (WrappedCall.fires callback goesOn).run handle s =
      (goesOn (handle callback s).1).run handle (handle callback s).2 := rfl

theorem alone_cases (call : WrappedCall Obj Exc Callback) :
    (∃ result, call.alone = .ok result) ∨ ∃ exception, call.alone = .error (.wrapped exception) := by
  induction call with
  | returned result => exact .inl ⟨result, rfl⟩
  | raised exception => exact .inr ⟨exception, rfl⟩
  | fires callback goesOn ih => exact ih (.ok ())

end WrappedCall

namespace NexusLangGraphProxy

variable {world : AdapterWorld Obj Exc} {proxy : NexusLangGraphProxy Obj} {s t : AdapterState Obj Exc}

/-- The events at the start of a call -/
def startEvents (world : AdapterWorld Obj Exc) (proxy : NexusLangGraphProxy Obj) (input : Value Obj) :
    List (Conversion Obj Exc) :=
  ["run_start", "step_start"].map fun eventType =>
    (captured world proxy.captureInputs input).map fun value => stepArguments eventType "invoke" [("input", value)] none

/-- The events of the callbacks -/
def callbackEvents (world : AdapterWorld Obj Exc) (prepared : PreparedCall Obj) (callbacks : List (ChainCallback Obj Exc)) :
    List (Conversion Obj Exc) :=
  if prepared.attached = false then [] else callbacks.map (callbackArguments world)

/-- The events at the end of a call -/
def endEvents (world : AdapterWorld Obj Exc) (proxy : NexusLangGraphProxy Obj) :
    Except (Exn Exc) (Value Obj) → List (Conversion Obj Exc)
  | .ok result => ["step_end", "run_end"].map fun eventType =>
      (captured world proxy.captureOutputs result).map fun value => stepArguments eventType "invoke" [("output", value)] none
  | .error raised =>
      if proxy.captureErrors = false then []
      else [(errorFields world raised).map fun error => stepArguments "error" "invoke" [("error", error)] none]

/-- The configuration can be prepared, and all events of the call can be recorded. -/
def Contained (world : AdapterWorld Obj Exc) (proxy : NexusLangGraphProxy Obj) (graph : Graph Obj Exc) (input : Value Obj)
    (config : Option (List (Value Obj × Value Obj))) (events : ℕ) : Prop :=
  ∃ prepared, proxy.preparedConfig world "invoke" config = .ok prepared ∧
    AllRecordable world proxy.base prepared.threadId (startEvents world proxy input ++
      (callbackEvents world prepared (graph input prepared.config).fired ++
        endEvents world proxy (graph input prepared.config).alone)) events

/-- What the callbacks return to the graph in a call -/
def callbackAnswers (world : AdapterWorld Obj Exc) (proxy : NexusLangGraphProxy Obj) (graph : Graph Obj Exc)
    (input : Value Obj) (config : Option (List (Value Obj × Value Obj))) (s : AdapterState Obj Exc) :
    List (Except (Exn Exc) Unit) :=
  match (do
    let prepared ← proxy.prepareCall world "invoke" config
    let _ ← proxy.checkpointStart world "invoke" input prepared.threadId
    pure prepared) s with
  | (.ok prepared, m) => (graph input prepared.config).answers (proxy.handle world prepared) m
  | (.error _, _) => []

/-- The call comes to what the wrapped call comes to by itself, and nothing is raised into that. -/
structure Transparent (world : AdapterWorld Obj Exc) (proxy : NexusLangGraphProxy Obj) (graph : Graph Obj Exc)
    (input : Value Obj) (config : Option (List (Value Obj × Value Obj))) (s : AdapterState Obj Exc) : Prop where
  outcome : ∃ prepared, proxy.preparedConfig world "invoke" config = .ok prepared ∧
    (proxy.invoke world graph input config s).1 = (graph input prepared.config).alone
  callbacks : ∀ answer ∈ callbackAnswers world proxy graph input config s, answer = .ok ()

section Parts

variable {input result : Value Obj} {threadId : String} {parents : List String} {exception : Exn Exc}

theorem captured_own (capture : Bool) (value : Value Obj) : Refuses Exn.Own (captured world capture value) :=
  .ite (Value.safeJsonable_own _ _) (.ok _)

theorem errorFields_own (exception : Exn Exc) : Refuses Exn.Own (errorFields world exception) :=
  .bind (Value.ofMethod_own _) fun _ => .ok _

theorem callbackArguments_own (callback : ChainCallback Obj Exc) : Refuses Exn.Own (callbackArguments world callback) := by
  cases callback with
  | onChainStart serialized inputs =>
    exact .bind (captured_own _ _) fun _ => .bind (Value.summarizePayload_own _) fun _ => .ok _
  | onChainEnd outputs => exact .bind (captured_own _ _) fun _ => .ok _
  | onChainError error => exact .bind (errorFields_own _) fun _ => .ok _

theorem eventPair_performs {converted : Except (Exn Exc) (Value Obj)} {firstType secondType field : String}
    {explicit : Option (List String)} (failOpen : proxy.base.failOpen = true) (own : Refuses Exn.Own converted)
    (named : "" ∉ explicit.getD []) :
    Performs world proxy.base threadId ([firstType, secondType].map fun eventType =>
      converted.map fun value => stepArguments eventType "invoke" [(field, value)] none) (fun parents => "" ∉ parents)
      (eventPair world proxy converted firstType secondType field "invoke" threadId explicit) := by
  have first : Performs world proxy.base threadId [_] _ (Fallible.lift converted >>= fun value =>
      proxy.base.record world (some threadId) (stepArguments firstType "invoke" [(field, value)] explicit)) :=
    .record failOpen own fun _ _ => named
  have second : ∀ parents, "" ∉ parents → Performs world proxy.base threadId
      [converted.map fun value => stepArguments secondType "invoke" [(field, value)] none] (fun parents => "" ∉ parents)
      (Fallible.lift converted >>= fun value =>
        proxy.base.record world (some threadId) (stepArguments secondType "invoke" [(field, value)] (some parents))) := by
    intro parents named
    have records : Performs world proxy.base threadId [_] _ (Fallible.lift converted >>= fun value =>
        proxy.base.record world (some threadId) (stepArguments secondType "invoke" [(field, value)] (some parents))) :=
      .record failOpen own fun _ _ => named
    exact records
  have both := first.bind second
  rw [Fallible.bind_assoc] at both
  exact both

variable (failOpen : proxy.base.failOpen = true)

include failOpen in
theorem checkpointStart_performs : Performs world proxy.base threadId (startEvents world proxy input)
    (fun parents => "" ∉ parents) (proxy.checkpointStart world "invoke" input threadId) :=
  eventPair_performs failOpen (captured_own _ _) List.not_mem_nil

include failOpen in
theorem checkpointEnd_performs (named : "" ∉ parents) :
    Performs world proxy.base threadId (endEvents world proxy (.ok result)) (fun parents => "" ∉ parents)
      (proxy.checkpointEnd world "invoke" result threadId parents) :=
  eventPair_performs failOpen (captured_own _ _) named

include failOpen in
theorem checkpointError_performs (named : "" ∉ parents) :
    Performs world proxy.base threadId (endEvents world proxy (.error exception)) (fun parents => "" ∉ parents)
      (proxy.checkpointError world "invoke" exception threadId parents) := by
  rw [endEvents, checkpointError]
  split_ifs
  · exact .pure named
  · have records : Performs world proxy.base threadId [_] _ (Fallible.lift (errorFields world exception) >>= fun error =>
        proxy.base.record world (some threadId) (stepArguments "error" "invoke" [("error", error)] (some parents))) :=
      .record failOpen (errorFields_own _) fun _ _ => named
    exact records

include failOpen in
theorem handle_performs (prepared : PreparedCall Obj) (callback : ChainCallback Obj Exc) :
    Performs world proxy.base prepared.threadId (callbackEvents world prepared [callback]) (fun _ => True)
      (proxy.handle world prepared callback) := by
  rw [callbackEvents, handle]
  split_ifs
  · exact .pure trivial
  · have same : (callbackArguments world callback).map (fun arguments => arguments.bare) = callbackArguments world callback := by
      cases made : callbackArguments world callback with
      | error raised => rfl
      | ok arguments =>
        have parents := callbackArguments_parents made
        rw [Except.map, EventArguments.bare, ← parents]
    have records : Performs world proxy.base prepared.threadId [_] _ (Fallible.lift (callbackArguments world callback) >>=
        fun arguments => proxy.base.record world (some prepared.threadId) arguments) :=
      .record failOpen (callbackArguments_own _) fun arguments made => by
        rw [callbackArguments_parents made]
        exact List.not_mem_nil
    rw [same] at records
    have done : Performs world proxy.base prepared.threadId [] (fun _ => True) (pure () : Adapter Obj Exc Unit) :=
      .pure trivial
    have both := records.bind fun _ _ => done
    rw [Fallible.bind_assoc] at both
    exact both

end Parts

section Wrapped

variable {prepared : PreparedCall Obj}

theorem callbackEvents_cons (callback : ChainCallback Obj Exc) (rest : List (ChainCallback Obj Exc)) :
    callbackEvents world prepared (callback :: rest) =
      callbackEvents world prepared [callback] ++ callbackEvents world prepared rest := by
  rw [callbackEvents, callbackEvents, callbackEvents]
  split_ifs
  · rfl
  · exact List.map_cons

/-- All callbacks return normally exactly if their events can be recorded. -/
theorem answers_iff (failOpen : proxy.base.failOpen = true) (call : WrappedCall Obj Exc (ChainCallback Obj Exc)) :
    ∀ s : AdapterState Obj Exc, (∀ answer ∈ call.answers (proxy.handle world prepared) s, answer = .ok ()) ↔
      AllRecordable world proxy.base prepared.threadId (callbackEvents world prepared call.fired) s.events := by
  have none_ : ∀ events, AllRecordable world proxy.base prepared.threadId (callbackEvents world prepared []) events := by
    intro events
    rw [callbackEvents]
    split_ifs <;> trivial
  induction call with
  | returned result => exact fun s => iff_of_true nofun (none_ _)
  | raised exception => exact fun s => iff_of_true nofun (none_ _)
  | fires callback goesOn ih =>
    intro s
    have handles : Performs world proxy.base prepared.threadId _ _ (proxy.handle world prepared callback) :=
      handle_performs failOpen prepared callback
    rw [WrappedCall.fired, callbackEvents_cons, allRecordable_append_iff, WrappedCall.answers]
    rcases outcome : proxy.handle world prepared callback s with ⟨raised | ⟨⟩, t⟩
    · refine iff_of_false (fun normal => absurd (normal _ List.mem_cons_self) nofun) fun recordable => ?_
      obtain ⟨_, _, done⟩ := handles.goesOn s recordable.1
      exact absurd (outcome.symm.trans done) nofun
    · obtain ⟨recordable, events, _⟩ := handles.returned s () t outcome
      rw [← events, ← ih (.ok ()) t, List.forall_mem_cons]
      exact ⟨fun normal => ⟨recordable, normal.2⟩, fun both => ⟨rfl, both.2⟩⟩

/-- The wrapped call runs as by itself while its callbacks can be recorded. -/
theorem wrapped_run (failOpen : proxy.base.failOpen = true) (call : WrappedCall Obj Exc (ChainCallback Obj Exc)) :
    ∀ s : AdapterState Obj Exc,
      AllRecordable world proxy.base prepared.threadId (callbackEvents world prepared call.fired) s.events →
        ∃ t, call.run (proxy.handle world prepared) s = (call.alone, t) ∧
          t.events = s.events + (callbackEvents world prepared call.fired).length := by
  have none_ : (callbackEvents world prepared []).length = 0 := by
    rw [callbackEvents]
    split_ifs <;> rfl
  induction call with
  | returned result => exact fun s _ => ⟨s, rfl, by rw [WrappedCall.fired, none_, Nat.add_zero]⟩
  | raised exception => exact fun s _ => ⟨s, rfl, by rw [WrappedCall.fired, none_, Nat.add_zero]⟩
  | fires callback goesOn ih =>
    intro s recordable
    have handles : Performs world proxy.base prepared.threadId _ _ (proxy.handle world prepared callback) :=
      handle_performs failOpen prepared callback
    rw [WrappedCall.fired, callbackEvents_cons] at recordable ⊢
    obtain ⟨first, rest⟩ := allRecordable_append_iff.1 recordable
    obtain ⟨⟨⟩, m, done⟩ := handles.goesOn s first
    have events := (handles.returned s () m done).2.1
    rw [← events] at rest
    obtain ⟨t, run, later⟩ := ih (.ok ()) m rest
    refine ⟨t, ?_, ?_⟩
    · rw [WrappedCall.run_fires, done]
      exact run
    · rw [List.length_append]
      omega

theorem prepareCall_of_failOpen {config : Option (List (Value Obj × Value Obj))} (failOpen : proxy.base.failOpen = true)
    (prepares : proxy.preparedConfig world "invoke" config = .ok prepared) (s : AdapterState Obj Exc) :
    ∃ m, proxy.prepareCall world "invoke" config s = (.ok prepared, m) ∧ m.events = s.events := by
  obtain ⟨m, registered, events, _⟩ := register_of_failOpen world failOpen (some prepared.threadId) s
  refine ⟨m, ?_, events⟩
  rw [prepareCall, prepares, Fallible.lift_ok_bind, Fallible.bind_of_ok registered]
  rfl

end Wrapped

section Outcome

variable {graph : Graph Obj Exc} {input : Value Obj} {config : Option (List (Value Obj × Value Obj))}
  {prepared : PreparedCall Obj}

theorem invoke_of_start {m m' : AdapterState Obj Exc} {parents : List String}
    (prepares : proxy.prepareCall world "invoke" config s = (.ok prepared, m))
    (starts : proxy.checkpointStart world "invoke" input prepared.threadId m = (.ok parents, m')) :
    callbackAnswers world proxy graph input config s = (graph input prepared.config).answers (proxy.handle world prepared) m' ∧
      proxy.invoke world graph input config s = (do
        let result ← Fallible.reraising ((graph input prepared.config).run (proxy.handle world prepared))
          fun exception => proxy.checkpointError world "invoke" exception prepared.threadId parents
        let _ ← proxy.checkpointEnd world "invoke" result prepared.threadId parents
        pure result) m' := by
  constructor
  · rw [callbackAnswers, Fallible.bind_of_ok prepares, Fallible.bind_of_ok starts]
    rfl
  · rw [invoke, Fallible.bind_of_ok prepares, Fallible.bind_of_ok starts]

/-- What comes after the wrapped call decides about the outcome. -/
theorem finish_iff (failOpen : proxy.base.failOpen = true) {parents : List String} (named : "" ∉ parents)
    {body : Adapter Obj Exc (Value Obj)} {call : WrappedCall Obj Exc (ChainCallback Obj Exc)} {m t : AdapterState Obj Exc}
    (runs : body m = (call.alone, t)) :
    ((do
      let result ← Fallible.reraising body fun exception => proxy.checkpointError world "invoke" exception prepared.threadId parents
      let _ ← proxy.checkpointEnd world "invoke" result prepared.threadId parents
      pure result) m).1 = call.alone ↔
        AllRecordable world proxy.base prepared.threadId (endEvents world proxy call.alone) t.events := by
  rcases call.alone_cases with ⟨result, alone⟩ | ⟨exception, alone⟩ <;> rw [alone] at runs ⊢
  · have ends : Performs world proxy.base prepared.threadId _ _
        (proxy.checkpointEnd world "invoke" result prepared.threadId parents) := checkpointEnd_performs failOpen named
    rw [Fallible.bind_of_ok (Fallible.reraising_of_ok runs)]
    rcases outcome : proxy.checkpointEnd world "invoke" result prepared.threadId parents t with ⟨raised | given, u⟩
    · rw [Fallible.bind_of_error outcome]
      refine iff_of_false nofun fun recordable => ?_
      obtain ⟨_, _, done⟩ := ends.goesOn t recordable
      exact absurd (outcome.symm.trans done) nofun
    · rw [Fallible.bind_of_ok outcome]
      exact iff_of_true rfl (ends.returned t given u outcome).1
  · have ends : Performs world proxy.base prepared.threadId _ _
        (proxy.checkpointError world "invoke" (.wrapped exception) prepared.threadId parents) :=
      checkpointError_performs failOpen named
    rcases outcome : proxy.checkpointError world "invoke" (.wrapped exception) prepared.threadId parents t with
      ⟨raised | given, u⟩
    · rw [Fallible.bind_of_error (Fallible.reraising_of_failed runs outcome)]
      refine iff_of_false (fun same => ?_) fun recordable => ?_
      · exact ends.raises t raised u outcome exception (Except.error.inj same)
      · obtain ⟨_, _, done⟩ := ends.goesOn t recordable
        exact absurd (outcome.symm.trans done) nofun
    · rw [Fallible.bind_of_error (Fallible.reraising_of_handled runs outcome)]
      exact iff_of_true rfl (ends.returned t given u outcome).1

theorem contained_of_transparent (failOpen : proxy.base.failOpen = true)
    (transparent : Transparent world proxy graph input config s) :
    Contained world proxy graph input config s.events := by
  obtain ⟨⟨prepared, prepares, outcome⟩, callbacks⟩ := transparent
  obtain ⟨m, made, events⟩ := prepareCall_of_failOpen failOpen prepares s
  have starts : Performs world proxy.base prepared.threadId _ _
      (proxy.checkpointStart world "invoke" input prepared.threadId) := checkpointStart_performs failOpen
  rcases begun : proxy.checkpointStart world "invoke" input prepared.threadId m with ⟨raised | parents, m'⟩
  · rw [invoke, Fallible.bind_of_ok made, Fallible.bind_of_error begun] at outcome
    rcases (graph input prepared.config).alone_cases with ⟨result, alone⟩ | ⟨exception, alone⟩
    · exact absurd (outcome.trans alone) nofun
    · exact absurd (Except.error.inj (outcome.trans alone)) (starts.raises m raised m' begun exception)
  · obtain ⟨first, events', named⟩ := starts.returned m parents m' begun
    obtain ⟨answers, invokes⟩ := invoke_of_start made begun
    rw [answers, answers_iff failOpen] at callbacks
    obtain ⟨t, runs, later⟩ := wrapped_run failOpen _ m' callbacks
    rw [invokes, finish_iff failOpen named runs, later] at outcome
    rw [events', events] at callbacks outcome
    rw [events] at first
    exact ⟨prepared, prepares, allRecordable_append_iff.2 ⟨first, allRecordable_append_iff.2 ⟨callbacks, outcome⟩⟩⟩

theorem transparent_of_contained (failOpen : proxy.base.failOpen = true)
    (contained : Contained world proxy graph input config s.events) : Transparent world proxy graph input config s := by
  obtain ⟨prepared, prepares, recordable⟩ := contained
  obtain ⟨first, rest⟩ := allRecordable_append_iff.1 recordable
  obtain ⟨second, last⟩ := allRecordable_append_iff.1 rest
  obtain ⟨m, made, events⟩ := prepareCall_of_failOpen failOpen prepares s
  rw [← events] at first second last
  have starts : Performs world proxy.base prepared.threadId _ _
      (proxy.checkpointStart world "invoke" input prepared.threadId) := checkpointStart_performs failOpen
  obtain ⟨parents, m', begun⟩ := starts.goesOn m first
  obtain ⟨_, events', named⟩ := starts.returned m parents m' begun
  rw [← events'] at second last
  obtain ⟨t, runs, later⟩ := wrapped_run failOpen _ m' second
  obtain ⟨answers, invokes⟩ := invoke_of_start made begun
  refine ⟨⟨prepared, prepares, ?_⟩, ?_⟩
  · rw [invokes, finish_iff failOpen named runs, later]
    exact last
  · rw [answers, answers_iff failOpen]
    exact second

/-- A call through the adapter comes to what the wrapped call comes to by itself exactly if its configuration can be
prepared and all of its events can be recorded. What the client answers does not matter. -/
theorem transparent_iff_contained (failOpen : proxy.base.failOpen = true) :
    Transparent world proxy graph input config s ↔ Contained world proxy graph input config s.events :=
  ⟨contained_of_transparent failOpen, transparent_of_contained failOpen⟩

end Outcome

section Clean

variable {base : NexusAdapterBase Obj} {arguments : EventArguments Obj} {version threadId : String} {events : ℕ}

/-- The ids of an adapter can be sent when they are whole and hold no secret. -/
theorem sendable_eventFields {ambient : SdkAmbient} {parents : List String}
    (ids : ∀ text ∈ [base.runId, threadId, base.agentId], IsId text ∧ Secretless text)
    (now : 0 < ambient.now ∧ ambient.now ≤ 9223372036854775807) :
    Sendable ambient (base.eventFields version threadId parents arguments) where
  ids field member text given := by
    simp only [List.mem_cons, List.not_mem_nil, or_false] at member
    rcases member with rfl | rfl | rfl | rfl
    · cases given
    · exact ids text (Json.string.inj (Option.some.inj given) ▸ by simp)
    · exact ids text (Json.string.inj (Option.some.inj given) ▸ by simp)
    · exact ids text (Json.string.inj (Option.some.inj given) ▸ by simp)
  channel given := absurd rfl given
  tool _ := ⟨fun c member => absurd member List.not_mem_nil, clean_empty.secretless⟩
  now _ := now
  timestamp _ given := by cases given

/-- The conversions of an event whose redacted fields pass the checks -/
def converted (world : AdapterWorld Obj Exc) (data : List (String × Value Obj)) (fields : UniversalAgentEvent) :
    Except (Exn Exc) (Value Obj) := do
  let interpreter := world.interpreter
  data.forM fun member => Value.deepcopy interpreter interpreter.recursionLimit [] member.2
  let data ← Value.redact interpreter world.engine interpreter.recursionLimit (Value.ofEntries data)
  let dumped := (fields.redacted world.engine).sentFields
  let dumped := match data with
    | .dict entries => dumped ++ entries
    | _ => dumped
  Value.safeJsonable interpreter interpreter.recursionLimit (.dict dumped)

/-- With clean ids the data decides whether an event can be recorded. -/
theorem recordable_of_ids (ids : ∀ text ∈ [base.runId, base.deriveThreadId (some threadId), base.agentId],
      IsId text ∧ Secretless text)
    (now : 0 < (world.ambient events).now ∧ (world.ambient events).now ≤ 9223372036854775807)
    (versioned : base.adapterVersion world = .ok version)
    (made : ((normalizeEvent (world.ambient events)
      (base.eventFields version (base.deriveThreadId (some threadId)) [] arguments)).toOption.map fun fields =>
        (converted world (arguments.data ++ [("metadata", base.mergedMetadata arguments.metadata)]) fields).isOk) =
      some true) : Recordable world base threadId arguments events := by
  cases normalized : normalizeEvent (world.ambient events)
      (base.eventFields version (base.deriveThreadId (some threadId)) [] arguments) with
  | error raised =>
    rw [normalized] at made
    cases made
  | ok fields =>
    rw [normalized] at made
    have payable : ∃ payload, eventToJsonPayload world.engine (world.ambient events) fields = .ok payload ∧
        validateUniversalEvent (.ofMembers payload) = .ok () :=
      (payload_accepted_iff_sendable normalized).mpr (sendable_eventFields ids now)
    obtain ⟨payload, paid, _⟩ := payable
    obtain ⟨valid, _⟩ := UniversalAgentEvent.eventToJsonPayload_eq_ok_iff.1 paid
    obtain ⟨state, done⟩ := exists_eq_ok (Option.some.inj made)
    refine ⟨version, fields, state, versioned, normalized, ?_⟩
    obtain ⟨copied, copies, rest⟩ := bind_eq_ok_iff.1 done
    obtain ⟨data, redacts, rest⟩ := bind_eq_ok_iff.1 rest
    refine bind_eq_ok_iff.2 ⟨copied, copies, bind_eq_ok_iff.2 ⟨data, redacts, ?_⟩⟩
    refine bind_eq_ok_iff.2 ⟨_, mapError_eq_ok_iff.2 (UniversalAgentEvent.redactEvent_eq_ok_iff.2 ⟨valid, rfl⟩), rest⟩

end Clean

section Sample

/-- An interpreter without objects -/
def bareInterpreter : Interpreter Unit String where
  container _ := .none
  modelDump _ := .ok none
  toDict _ := .ok none
  isGenerator _ := false
  repr _ := .ok ""
  str _ := .ok ""
  bool _ := .ok true
  mapping _ := .error "no mapping"
  deepcopy _ := .ok ()
  dumpsSorted _ := .ok ""
  describe _ := .ok ("", "")
  prints _ := true
  recursionLimit := 20

def bareWorld (client : List (ClientCall Unit) → Reply String) : AdapterWorld Unit String :=
  ⟨bareInterpreter, .plain, fun _ => ⟨0, [], 1⟩, client⟩

def bareProxy : NexusLangGraphProxy Unit :=
  ⟨⟨"langgraph", "python", "r", "a", some "t", true, ["langgraph"], []⟩, true, true, true⟩

def echo : Graph Unit String := fun input _ => .returned input

/-- A graph that reports its end -/
def notifying : Graph Unit String := fun input _ => .fires (.onChainEnd input) fun _ => .returned input

theorem recordable_of_made {client : List (ClientCall Unit) → Reply String} {arguments : EventArguments Unit}
    (made : ((normalizeEvent ⟨0, [], 1⟩ (bareProxy.base.eventFields "0.1.0" "t" [] arguments)).toOption.map fun fields =>
      (converted (bareWorld fun _ => .raised "")
        (arguments.data ++ [("metadata", bareProxy.base.mergedMetadata arguments.metadata)]) fields).isOk) = some true)
    (events : ℕ) : Recordable (bareWorld client) bareProxy.base "t" arguments events := by
  have ids : ∀ text ∈ ["r", "t", "a"], IsId text ∧ Secretless text := by
    have checked : ∀ text ∈ ["r", "t", "a"], AttowNexus.isMatch idRe text = true ∧ secretless text = true := by
      decide
    exact fun text member => ⟨isMatch_idRe.1 (checked text member).1, secretless_of_check (checked text member).2⟩
  have now : 0 < 1 ∧ 1 ≤ 9223372036854775807 := by decide
  exact recordable_of_ids ids now rfl made

theorem bare_recordable {client : List (ClientCall Unit) → Reply String} {arguments : EventArguments Unit}
    (member : arguments ∈ [stepArguments "run_start" "invoke" [("input", .int 1)] none,
      stepArguments "step_start" "invoke" [("input", .int 1)] none,
      stepArguments "step_end" "invoke" [("output", .int 1)] none,
      stepArguments "run_end" "invoke" [("output", .int 1)] none,
      ⟨"node_end", none, none, [("output", .int 1)], none, [("callback", .str "on_chain_end")]⟩]) (events : ℕ) :
    Recordable (bareWorld client) bareProxy.base "t" arguments events := by
  have made : ∀ arguments ∈ [stepArguments "run_start" "invoke" [("input", .int 1)] none,
      stepArguments "step_start" "invoke" [("input", .int 1)] none,
      stepArguments "step_end" "invoke" [("output", .int 1)] none,
      stepArguments "run_end" "invoke" [("output", .int 1)] none,
      ⟨"node_end", none, none, [("output", .int 1)], none, [("callback", .str "on_chain_end")]⟩],
      ((normalizeEvent ⟨0, [], 1⟩ (bareProxy.base.eventFields "0.1.0" "t" [] arguments)).toOption.map fun fields =>
        (converted (bareWorld fun _ => .raised "")
          (arguments.data ++ [("metadata", bareProxy.base.mergedMetadata arguments.metadata)]) fields).isOk) = some true := by
    decide
  exact recordable_of_made (made arguments member) events

theorem bare_contained {client : List (ClientCall Unit) → Reply String} {graph : Graph Unit String}
    (sample : graph = echo ∨ graph = notifying) (events : ℕ) :
    Contained (bareWorld client) bareProxy graph (.int 1) none events := by
  refine ⟨_, rfl, ?_⟩
  rcases sample with rfl | rfl
  · exact ⟨⟨_, rfl, bare_recordable (by simp) _⟩, ⟨_, rfl, bare_recordable (by simp) _⟩, ⟨_, rfl, bare_recordable (by simp) _⟩,
      ⟨_, rfl, bare_recordable (by simp) _⟩, trivial⟩
  · exact ⟨⟨_, rfl, bare_recordable (by simp) _⟩, ⟨_, rfl, bare_recordable (by simp) _⟩, ⟨_, rfl, bare_recordable (by simp) _⟩,
      ⟨_, rfl, bare_recordable (by simp) _⟩, ⟨_, rfl, bare_recordable (by simp) _⟩, trivial⟩

/-- A call whose client is never there -/
theorem echo_transparent : Transparent (bareWorld fun _ => .raised "unavailable") bareProxy echo (.int 1) none initial :=
  (transparent_iff_contained rfl).mpr (bare_contained (.inl rfl) 0)

/-- A thread id with a space is refused before the graph is called. -/
theorem spaced_thread_raises : ¬ ∀ (world : AdapterWorld Unit String) (proxy : NexusLangGraphProxy Unit)
    (graph : Graph Unit String) (input : Value Unit) (config : Option (List (Value Unit × Value Unit)))
    (s : AdapterState Unit String), proxy.base.failOpen = true → Transparent world proxy graph input config s := by
  intro claim
  have transparent := claim (bareWorld fun _ => .returned "c") bareProxy echo (.int 1)
    (some [(.str "configurable", Value.ofEntries [("thread_id", .str "a b")])]) initial rfl
  obtain ⟨prepared, prepares, outcome⟩ := transparent.outcome
  have raises : (bareProxy.invoke (bareWorld fun _ => .returned "c") echo (.int 1)
      (some [(.str "configurable", Value.ofEntries [("thread_id", .str "a b")])]) initial).1.isOk = false := by
    decide
  rw [outcome] at raises
  cases raises

end Sample

end NexusLangGraphProxy

end Python

end AttowNexus
