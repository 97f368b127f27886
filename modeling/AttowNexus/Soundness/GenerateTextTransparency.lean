import AttowNexus.Soundness.FailureRecords

/-! # What the wrapper of generateText lets through

With `failOpen` the guard of a call of the client stops whatever it can print. What is thrown outside of the guard, or
by the printing itself, gets out of the wrapper: before the base function is called, in place of its result, or in place
of its error.
-/

namespace AttowNexus

namespace TypeScript

open Checks NexusAdapterContext NexusAISDKAdapter Fallible

variable {Obj : Type}

section Guarded

variable {world : AdapterWorld Obj} {context : NexusAdapterContextOptions Obj} {s t : ContextState}
  {threadId version : String} {input : EventInput Obj}

/-- What can be written to the console -/
def Printable (world : AdapterWorld Obj) (raised : Thrown Obj) : Prop := ∃ text, raised.print world.runtime = .ok text

/-- A call of the client goes wrong: it cannot be made, or it is rejected. -/
def Raises (world : AdapterWorld Obj) (request : Except (Thrown Obj) ClientCall) (s : ContextState)
    (raised : Thrown Obj) : Prop :=
  request = .error raised ∨ ∃ own, request = .ok own ∧ world.client (s.calls ++ [own]) = .rejected raised

/-- The thread is registered, or whatever goes wrong in registering it can be printed. -/
def Registers (world : AdapterWorld Obj) (context : NexusAdapterContextOptions Obj) (threadId : String)
    (s : ContextState) : Prop :=
  threadId ∉ s.registeredThreads → ∀ raised, Raises world (registerCall world context threadId) s raised →
    Printable world raised

/-- Whatever goes wrong in the checkpoint call of an event can be printed. -/
def CallPrints (world : AdapterWorld Obj) (context : NexusAdapterContextOptions Obj) (threadId : String)
    (s : ContextState) (input : EventInput Obj) : Prop :=
  ∀ raised, CallRaises world context s threadId input raised → Printable world raised

theorem warn_of_failOpen (failOpen : context.failOpen = true) (raised : Thrown Obj) :
    warn world context raised = (raised.print world.runtime).map fun _ => none := if_pos failOpen

theorem warn_error_iff (failOpen : context.failOpen = true) {raised escaping : Thrown Obj} :
    warn world context raised = .error escaping ↔ raised.print world.runtime = .error escaping := by
  rw [warn_of_failOpen failOpen]
  cases raised.print world.runtime with
  | error other => exact ⟨fun same => congrArg Except.error (Except.error.inj same),
      fun same => congrArg Except.error (Except.error.inj same)⟩
  | ok text => exact iff_of_false nofun nofun

theorem not_printable_iff {raised : Thrown Obj} :
    ¬ Printable world raised ↔ ∃ escaping, raised.print world.runtime = .error escaping := by
  cases printed : raised.print world.runtime with
  | error other =>
    refine iff_of_true ?_ ⟨other, rfl⟩
    rintro ⟨_, wrong⟩
    exact absurd (printed.symm.trans wrong) nofun
  | ok text => exact iff_of_false (not_not_intro ⟨text, printed⟩) nofun

theorem not_prints_iff {raises : Thrown Obj → Prop} : (¬ ∀ raised, raises raised → Printable world raised) ↔
    ∃ escaping raised, raises raised ∧ raised.print world.runtime = .error escaping := by
  constructor
  · intro fails
    obtain ⟨raised, fails⟩ := not_forall.mp fails
    obtain ⟨here, fails⟩ := Classical.not_imp.mp fails
    obtain ⟨escaping, printed⟩ := not_printable_iff.1 fails
    exact ⟨escaping, raised, here, printed⟩
  · rintro ⟨escaping, raised, here, printed⟩ prints
    exact not_printable_iff.2 ⟨escaping, printed⟩ (prints raised here)

theorem succeeds_call_iff (failOpen : context.failOpen = true) {request : Except (Thrown Obj) ClientCall} :
    Succeeds (call world context request) s ↔ ∀ raised, Raises world request s raised → Printable world raised := by
  rw [← not_iff_not, not_succeeds_iff, not_prints_iff]
  simp only [call_error_iff, warn_error_iff failOpen]
  exact Iff.rfl

theorem succeeds_register_iff (failOpen : context.failOpen = true) :
    Succeeds (register world context threadId) s ↔ Registers world context threadId s := by
  rw [register, succeeds_bind_iff]
  by_cases known : threadId ∈ s.registeredThreads
  · exact iff_of_true ⟨s, s, rfl, by rw [if_pos known]; exact succeeds_pure ()⟩ fun fresh => absurd known fresh
  · rw [Registers, ← succeeds_call_iff failOpen]
    constructor
    · rintro ⟨_, _, reads, registers⟩ _
      obtain ⟨same, rfl⟩ := get_eq_iff.1 reads
      obtain rfl := Except.ok.inj same
      rw [if_neg known] at registers
      obtain ⟨commitId, t, called, _⟩ := succeeds_bind_iff.1 registers
      exact ⟨commitId, t, called⟩
    · intro registers
      obtain ⟨commitId, t, called⟩ := registers known
      refine ⟨s, s, rfl, ?_⟩
      rw [if_neg known]
      exact succeeds_bind_iff.2 ⟨commitId, t, called, (), _, rfl⟩

variable (world context threadId s input) in
/-- An event gets as far as its checkpoint call. -/
structure Prepares (version : String) : Prop where
  given : adapterVersion world context = .ok version
  named : Named context version threadId
  typed : input.eventType ∈ eventTypes
  clocked : Clocked world.numbers (world.ambient s.events)
  registers : Registers world context threadId { s with events := s.events + 1 }

theorem succeeds_prepared_iff (failOpen : context.failOpen = true) :
    Succeeds (prepared world context threadId (.ok input)) s ↔
      ∃ version, Prepares world context s threadId input version := by
  rw [prepared, lift_ok_bind, succeeds_bind_iff]
  simp only [succeeds_bind_iff]
  constructor
  · rintro ⟨built, m, events, _, t, registers, _⟩
    obtain ⟨version, ⟨given, named, typed, clocked⟩, rfl, rfl⟩ := event_eq_ok_iff.1 events
    exact ⟨version, given, named, typed, clocked, (succeeds_register_iff failOpen).1 ⟨_, t, registers⟩⟩
  · rintro ⟨version, prepares⟩
    obtain ⟨_, t, registers⟩ := (succeeds_register_iff failOpen).2 prepares.registers
    exact ⟨_, _, event_eq_ok_iff.2 ⟨version, ⟨prepares.given, prepares.named, prepares.typed, prepares.clocked⟩, rfl,
      rfl⟩, _, t, registers, t, t, rfl, succeeds_pure _⟩

/-- An event is recorded when it gets as far as its call and whatever goes wrong there can be printed. -/
theorem succeeds_record_iff (failOpen : context.failOpen = true) :
    Succeeds (record world context threadId (.ok input)) s ↔
      (∃ version, Prepares world context s threadId input version) ∧ CallPrints world context threadId s input := by
  rw [← succeeds_prepared_iff failOpen]
  have whole : Succeeds (record world context threadId (.ok input)) s ↔ ∃ built u,
      prepared world context threadId (.ok input) s = (.ok built, u) ∧
        Succeeds (call world context (checkpointCall world context built)) u := by
    have same : Succeeds (record world context threadId (.ok input)) s ↔ Succeeds (do
        let built ← prepared world context threadId (.ok input)
        let commitId ← call world context (checkpointCall world context built)
        concluded built commitId) s := by
      rw [Succeeds, Succeeds, record_eq]
    rw [same, succeeds_bind_iff]
    refine exists_congr fun built => exists_congr fun u => and_congr_right fun _ => ?_
    rw [succeeds_bind_iff]
    constructor
    · rintro ⟨commitId, t, called, _⟩
      exact ⟨commitId, t, called⟩
    · rintro ⟨commitId, t, called⟩
      refine ⟨commitId, t, called, ?_⟩
      cases commitId with
      | some commitId => exact ⟨_, _, rfl⟩
      | none => exact ⟨_, _, rfl⟩
  rw [whole]
  simp only [succeeds_call_iff failOpen]
  constructor
  · rintro ⟨built, u, prepares, prints⟩
    refine ⟨⟨built, u, prepares⟩, ?_⟩
    rintro raised ⟨_, _, prepares', raises⟩
    obtain ⟨same, rfl⟩ := Prod.mk.inj (prepares.symm.trans prepares')
    obtain rfl := Except.ok.inj same
    exact prints raised raises
  · rintro ⟨⟨built, u, prepares⟩, prints⟩
    exact ⟨built, u, prepares, fun raised raises => prints raised ⟨built, u, prepares, raises⟩⟩

end Guarded

section Transparency

variable {world : AdapterWorld Obj} {options : NexusAISDKAdapterOptions Obj} {baseGenerateText : BaseFunction Obj}
  {inputOptions : InputOptions Obj} {s t m : ContextState} {threadId : String} {wrapped : WrappedOptions Obj}

variable (world options baseGenerateText inputOptions s) in
/-- The base function is reached, and the wrapper has its outcome. -/
def Transparent : Prop :=
  ∃ threadId wrapped m, started world options inputOptions s = (.ok (threadId, wrapped), m) ∧
    (generateText world options baseGenerateText inputOptions s).1 =
      (calledBase world options baseGenerateText threadId wrapped m).1

variable (world options inputOptions s) in
/-- The start of a call can be recorded on this thread, and its options can be read. -/
structure Starts (threadId : String) : Prop where
  derived : ∃ given, inputOptions.threadId world.runtime = .ok given ∧ threadId = deriveThreadId options.context given
  recorded : ∃ input, startEvent options "generateText" inputOptions = .ok input ∧
    (∃ version, Prepares world options.context s threadId input version) ∧
      CallPrints world options.context threadId s input
  wraps : ∃ wrapped, inputOptions.composeCallbacks = .ok wrapped

/-- What takes the place of an error while it is recorded -/
def Replaces (world : AdapterWorld Obj) (context : NexusAdapterContextOptions Obj) (threadId : String)
    (s : ContextState) (raised escaping : Thrown Obj) : Prop :=
  errorEvent world "generateText" raised = .error escaping ∨
    ∃ input other, errorEvent world "generateText" raised = .ok input ∧
      CallRaises world context s threadId input other ∧ other.print world.runtime = .error escaping

variable (world options baseGenerateText inputOptions s) in
/-- Nothing gets out of the wrapper but what the base function returns or throws. -/
structure Unobstructed : Prop where
  starts : ∃ threadId, Starts world options inputOptions s threadId
  returned : ∀ threadId wrapped m result t, started world options inputOptions s = (.ok (threadId, wrapped), m) →
    calledBase world options baseGenerateText threadId wrapped m = (.ok result, t) →
      CallPrints world options.context threadId t (outputEvent options "run_end" "generateText" result)
  thrown : ∀ threadId wrapped m raised t escaping,
    started world options inputOptions s = (.ok (threadId, wrapped), m) →
    calledBase world options baseGenerateText threadId wrapped m = (.error raised, t) →
      Replaces world options.context threadId t raised escaping → escaping = raised

variable (failOpen : options.context.failOpen = true)
include failOpen

theorem succeeds_started_iff : Succeeds (started world options inputOptions) s ↔
    ∃ threadId, Starts world options inputOptions s threadId := by
  simp only [started, succeeds_bind_iff, lift_eq_iff]
  constructor
  · rintro ⟨given, s, ⟨derived, rfl⟩, _, t, recorded, wrapped, _, ⟨wraps, _⟩, _⟩
    refine ⟨deriveThreadId options.context given, ⟨given, derived.symm, rfl⟩, ?_, wrapped, wraps.symm⟩
    obtain ⟨input, _, lifted, _⟩ := bind_eq_ok_iff.1 recorded
    obtain ⟨made, _⟩ := lift_eq_iff.1 lifted
    rw [← made] at recorded
    exact ⟨input, made.symm, (succeeds_record_iff failOpen).1 ⟨_, t, recorded⟩⟩
  · rintro ⟨threadId, ⟨given, derived, rfl⟩, ⟨input, made, records⟩, wrapped, wraps⟩
    obtain ⟨parents, t, recorded⟩ := (succeeds_record_iff failOpen).2 records
    rw [← made] at recorded
    exact ⟨given, s, ⟨derived.symm, rfl⟩, parents, t, recorded, wrapped, t, ⟨wraps.symm, rfl⟩, succeeds_pure _⟩

/-- What the recording of an error fails with is what takes its place. -/
theorem Ready.record_errorEvent_iff {version : String} {raised escaping : Thrown Obj}
    (ready : Ready world options.context version threadId s) :
    (∃ t, record world options.context threadId (errorEvent world "generateText" raised) s = (.error escaping, t)) ↔
      Replaces world options.context threadId s raised escaping := by
  cases made : errorEvent world "generateText" raised with
  | error other =>
    rw [Replaces, made]
    constructor
    · rintro ⟨_, run⟩
      obtain ⟨same, _⟩ := Prod.mk.inj run
      exact .inl (congrArg Except.error (Except.error.inj same))
    · rintro (same | ⟨_, _, wrong, _⟩)
      · exact ⟨s, Prod.ext (congrArg Except.error (Except.error.inj same)) rfl⟩
      · exact absurd wrong nofun
  | ok input =>
    rw [ready.record_error_iff (eventType_errorEvent made ▸ by decide), Replaces, made]
    simp only [warn_error_iff failOpen]
    constructor
    · rintro ⟨other, raises, printed⟩
      exact .inr ⟨input, other, rfl, raises, printed⟩
    · rintro (wrong | ⟨_, other, same, raises, printed⟩)
      · exact absurd wrong nofun
      · obtain rfl := Except.ok.inj same
        exact ⟨other, raises, printed⟩

variable (held : ∀ s, Held s (world.meanwhile s)) (clocked : ∀ n, Clocked world.numbers (world.ambient n))
  (keeps : ∀ threadId wrapped, Fallible.Keeps Held (calledBase world options baseGenerateText threadId wrapped))
include held clocked keeps

omit failOpen in
/-- What the base function leaves is ready for the last event. -/
theorem ready_of_based {outcome : Except (Thrown Obj) (Value Obj)}
    (start : started world options inputOptions s = (.ok (threadId, wrapped), m))
    (based : calledBase world options baseGenerateText threadId wrapped m = (outcome, t)) :
    ∃ version, Ready world options.context version threadId t := by
  obtain ⟨version, ready⟩ := ready_of_started held clocked start
  have later := keeps threadId wrapped m
  rw [based] at later
  exact ⟨version, ready.held later⟩

/-- A result gets out when its event is recorded. -/
theorem fst_generateText_of_result {result : Value Obj}
    (start : started world options inputOptions s = (.ok (threadId, wrapped), m))
    (based : calledBase world options baseGenerateText threadId wrapped m = (.ok result, t)) :
    (generateText world options baseGenerateText inputOptions s).1 = .ok result ↔
      CallPrints world options.context threadId t (outputEvent options "run_end" "generateText" result) := by
  obtain ⟨version, ready⟩ := ready_of_based held clocked keeps start based
  have typed : (outputEvent options "run_end" "generateText" result).eventType ∈ eventTypes :=
    (by decide : "run_end" ∈ eventTypes)
  have escapes : ¬ CallPrints world options.context threadId t (outputEvent options "run_end" "generateText" result) ↔
      ∃ escaping u, record world options.context threadId
        (.ok (outputEvent options "run_end" "generateText" result)) t = (.error escaping, u) := by
    simp only [ready.record_error_iff typed, warn_error_iff failOpen]
    exact not_prints_iff
  rw [generateText_eq, bind_of_ok start]
  dsimp only
  rcases recorded : record world options.context threadId
    (.ok (outputEvent options "run_end" "generateText" result)) t with ⟨escaping | parents, u⟩
  · refine iff_of_false ?_ (escapes.2 ⟨escaping, u, recorded⟩)
    have tried : generated world options baseGenerateText threadId wrapped m = (.error escaping, u) := by
      rw [generated, bind_of_ok based, bind_of_error recorded]
    rcases handled : record world options.context threadId (errorEvent world "generateText" escaping) u with
      ⟨other | _, v⟩
    · rw [reraising_of_failed tried handled]
      rintro ⟨⟩
    · rw [reraising_of_handled tried handled]
      rintro ⟨⟩
  · have tried : generated world options baseGenerateText threadId wrapped m = (.ok result, u) := by
      rw [generated, bind_of_ok based, bind_of_ok recorded]
      rfl
    rw [reraising_of_ok tried]
    refine iff_of_true rfl (not_not.mp fun fails => ?_)
    obtain ⟨_, _, recorded'⟩ := escapes.1 fails
    cases (Prod.mk.inj (recorded.symm.trans recorded')).1

/-- An error gets out when nothing else takes its place. -/
theorem fst_generateText_of_error {raised : Thrown Obj}
    (start : started world options inputOptions s = (.ok (threadId, wrapped), m))
    (based : calledBase world options baseGenerateText threadId wrapped m = (.error raised, t)) :
    (generateText world options baseGenerateText inputOptions s).1 = .error raised ↔
      ∀ escaping, Replaces world options.context threadId t raised escaping → escaping = raised := by
  obtain ⟨version, ready⟩ := ready_of_based held clocked keeps start based
  have tried : generated world options baseGenerateText threadId wrapped m = (.error raised, t) := by
    rw [generated, bind_of_error based]
  rw [generateText_eq, bind_of_ok start]
  dsimp only
  simp only [← ready.record_errorEvent_iff failOpen]
  rcases handled : record world options.context threadId (errorEvent world "generateText" raised) t with
    ⟨other | _, u⟩
  · rw [reraising_of_failed tried handled]
    constructor
    · rintro same escaping ⟨_, run⟩
      obtain ⟨own, _⟩ := Prod.mk.inj run
      rw [← Except.error.inj own, Except.error.inj same]
    · intro only
      rw [only other ⟨u, rfl⟩]
  · rw [reraising_of_handled tried handled]
    refine iff_of_true rfl ?_
    rintro escaping ⟨_, run⟩
    cases (Prod.mk.inj run).1

/-- With `failOpen` the wrapper of `generateText` has the outcome of the base function exactly when nothing else gets
out of it. -/
theorem generateText_transparent_iff : Transparent world options baseGenerateText inputOptions s ↔
    Unobstructed world options baseGenerateText inputOptions s := by
  have only : ∀ {threadId wrapped m threadId' wrapped' m'},
      started world options inputOptions s = (.ok (threadId, wrapped), m) →
      started world options inputOptions s = (.ok (threadId', wrapped'), m') →
      threadId = threadId' ∧ wrapped = wrapped' ∧ m = m' := by
    intro threadId wrapped m threadId' wrapped' m' start start'
    obtain ⟨same, rfl⟩ := Prod.mk.inj (start.symm.trans start')
    obtain ⟨rfl, rfl⟩ := Prod.mk.inj (Except.ok.inj same)
    exact ⟨rfl, rfl, rfl⟩
  constructor
  · rintro ⟨threadId, wrapped, m, start, outcome⟩
    refine ⟨(succeeds_started_iff failOpen).1 ⟨_, m, start⟩, ?_, ?_⟩
    · intro threadId' wrapped' m' result t start' based
      obtain ⟨rfl, rfl, rfl⟩ := only start start'
      rw [based] at outcome
      exact (fst_generateText_of_result failOpen held clocked keeps start based).1 outcome
    · intro threadId' wrapped' m' raised t escaping start' based
      obtain ⟨rfl, rfl, rfl⟩ := only start start'
      rw [based] at outcome
      exact (fst_generateText_of_error failOpen held clocked keeps start based).1 outcome escaping
  · intro unobstructed
    obtain ⟨⟨threadId, wrapped⟩, m, start⟩ := (succeeds_started_iff failOpen).2 unobstructed.starts
    refine ⟨threadId, wrapped, m, start, ?_⟩
    rcases based : calledBase world options baseGenerateText threadId wrapped m with ⟨raised | result, t⟩
    · exact (fst_generateText_of_error failOpen held clocked keeps start based).2 fun escaping =>
        unobstructed.thrown _ _ _ _ _ _ start based
    · exact (fst_generateText_of_result failOpen held clocked keeps start based).2
        (unobstructed.returned _ _ _ _ _ start based)

end Transparency

section Sample

/-- A client that takes every call -/
private def obliging : AdapterWorld Empty where
  runtime := ⟨nofun, nofun, nofun, fun _ _ => .ok .undefined⟩
  engine := .plain
  numbers := .plain
  ambient _ := ⟨0, [], 1⟩
  client _ := .resolved none
  meanwhile s := s

private def failingOpen : NexusAISDKAdapterOptions Empty where
  context := ⟨"vercel-ai", "run-1", "vercel-ai-frontend", none, true, ["vercel-ai"], []⟩
  captureInputs := true
  captureOutputs := true

private def returning : BaseFunction Empty := fun _ _ => pure (.text "done")

/-- What these options can be given prints. -/
private theorem printable (raised : Thrown Empty) : Printable obliging raised := by
  cases raised with
  | error message => exact ⟨_, rfl⟩
  | value thrown =>
    cases thrown with
    | other name => cases name
    | _ => exact ⟨_, rfl⟩

/-- A client that rejects every call -/
private def refusing : AdapterWorld Empty := { obliging with client := fun _ => .rejected (.error "daemon is down") }

/-- What the prompt can be given prints. -/
private theorem refusing_printable (raised : Thrown Empty) : Printable refusing raised := printable raised

private def prompted : InputOptions Empty := [("prompt", .ok (.text "hello")), ("threadId", .ok (.text "thread-1"))]

/-- A wrapper with a prompt around a client that rejects every call -/
theorem generateText_transparent_of_refusing : Transparent refusing failingOpen returning prompted ⟨[], ∅, [], 0⟩ := by
  have unobstructed : Unobstructed refusing failingOpen returning prompted ⟨[], ∅, [], 0⟩ := by
    constructor
    · obtain ⟨_, start⟩ := exists_ok (by decide : (started refusing failingOpen prompted ⟨[], ∅, [], 0⟩).1.isOk = true)
      exact (succeeds_started_iff rfl).1 ⟨_, _, start⟩
    · exact fun _ _ _ _ _ _ _ raised _ => refusing_printable raised
    · intro threadId wrapped m raised t escaping _ based
      exact absurd (Prod.mk.inj based).1 nofun
  have keeps : ∀ threadId wrapped, Keeps Held (calledBase refusing failingOpen returning threadId wrapped) :=
    fun _ _ => Held.refl
  exact (generateText_transparent_iff rfl Held.refl (fun _ => ⟨rfl, rfl⟩) keeps).2 unobstructed

/-- The thread id has a blank in it: `normalizeEvent` throws before the base function is called. -/
theorem generateText_blank_thread_throws :
    ¬ ∀ (world : AdapterWorld Empty) (options : NexusAISDKAdapterOptions Empty) (baseGenerateText : BaseFunction Empty)
      (inputOptions : InputOptions Empty) (s : ContextState), options.context.failOpen = true →
      Transparent world options baseGenerateText inputOptions s := by
  intro claim
  obtain ⟨_, _, _, start, _⟩ := claim obliging failingOpen returning [("threadId", .ok (.text "a b"))]
    ⟨[], ∅, [], 0⟩ rfl
  have refused : (started obliging failingOpen [("threadId", .ok (.text "a b"))] ⟨[], ∅, [], 0⟩).1.isOk = false := by
    decide
  rw [start] at refused
  exact absurd refused nofun

end Sample

end TypeScript

end AttowNexus
