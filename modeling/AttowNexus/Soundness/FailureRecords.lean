import AttowNexus.Model.AgentStep
import AttowNexus.Proofs.Attempts

/-! # Who a failure record blames

Both wrappers record the success of what they wrap inside the same `try`, so what escapes from recording it is
caught and recorded as a failure. A failure record means that the wrapped function failed exactly when nothing escapes
there that could be recorded, and what the function throws can be.
-/

namespace AttowNexus

namespace TypeScript

open Checks NexusAdapterContext NexusAISDKAdapter

variable {Obj : Type}

namespace AgentStep

variable {σ : Type} {world : StepWorld Obj σ} {options : AgentStepOptions}
  {step : Value Obj → Fallible σ (Thrown Obj) (Value Obj)} {state : Value Obj} {s t m : StepTrace Obj σ}

/-- A checkpoint of a failure -/
def IsFailure (call : StepCall Obj) : Prop :=
  ∃ agentId runId channel state, call = .checkpoint agentId runId channel state "Wrapped agent step failed"

variable (world options step state s) in
/-- The wrapper attempts the checkpoint of a failure. -/
def RecordsFailure : Prop :=
  ∃ call ∈ (wrapAgentStep world options step state s).2.calls.drop s.calls.length, IsFailure call

variable (world options step state s) in
/-- The step is reached and throws. -/
def Fails : Prop :=
  ∃ m raised after, send world (inputCall options state) s = (.ok (), m) ∧ step state m.world = (.error raised, after)

variable (world options step state s) in
/-- What the step throws can be named, and when the checkpoint of its result is rejected, the reason cannot be. -/
structure TellsApart : Prop where
  thrown : ∀ m raised after, send world (inputCall options state) s = (.ok (), m) →
    step state m.world = (.error raised, after) → (errorName world raised).isOk = true
  returned : ∀ m result after raised later, send world (inputCall options state) s = (.ok (), m) →
    step state m.world = (.ok result, after) →
    world.client (completedCall world options result) after = (.error raised, later) →
      (errorName world raised).isOk = false

variable (world options step state) in
/-- The `try` block -/
def attempted : Fallible (StepTrace Obj σ) (Thrown Obj) (Value Obj) := do
  let result ← Fallible.zoom (·.world) (fun after s => { s with world := after }) (step state)
  send world (completedCall world options result)
  pure result

/-- How the `try` block ends -/
inductive Attempt (world : StepWorld Obj σ) (options : AgentStepOptions)
    (step : Value Obj → Fallible σ (Thrown Obj) (Value Obj)) (state : Value Obj) (m : StepTrace Obj σ) :
    Except (Thrown Obj) (Value Obj) → StepTrace Obj σ → Prop
  | threw {raised : Thrown Obj} {after : σ} (fails : step state m.world = (.error raised, after)) :
      Attempt world options step state m (.error raised) { m with world := after }
  | rejected {result : Value Obj} {raised : Thrown Obj} {after later : σ}
      (returns : step state m.world = (.ok result, after))
      (refuses : world.client (completedCall world options result) after = (.error raised, later)) :
      Attempt world options step state m (.error raised) ⟨later, m.calls ++ [completedCall world options result]⟩
  | completed {result : Value Obj} {after later : σ} (returns : step state m.world = (.ok result, after))
      (accepts : world.client (completedCall world options result) after = (.ok (), later)) :
      Attempt world options step state m (.ok result) ⟨later, m.calls ++ [completedCall world options result]⟩

theorem attempted_attempt {outcome : Except (Thrown Obj) (Value Obj)}
    (run : attempted world options step state m = (outcome, t)) : Attempt world options step state m outcome t := by
  have zoomed : ∀ {answer after}, step state m.world = (answer, after) →
      Fallible.zoom (·.world) (fun after (s : StepTrace Obj σ) => { s with world := after }) (step state) m =
        (answer, { m with world := after }) := fun ran => Fallible.zoom_eq_iff.2 ⟨_, ran, rfl⟩
  rcases ran : step state m.world with ⟨raised | result, after⟩
  · rw [attempted, Fallible.bind_of_error (zoomed ran)] at run
    obtain ⟨rfl, rfl⟩ := Prod.mk.inj run
    exact .threw ran
  · rw [attempted, Fallible.bind_of_ok (zoomed ran)] at run
    rcases sent : world.client (completedCall world options result) after with ⟨raised | _, later⟩
    · have refused : send world (completedCall world options result) { m with world := after } =
          (.error raised, ⟨later, m.calls ++ [completedCall world options result]⟩) := by
        rw [send, sent]
      rw [Fallible.bind_of_error refused] at run
      obtain ⟨rfl, rfl⟩ := Prod.mk.inj run
      exact .rejected ran sent
    · have accepted : send world (completedCall world options result) { m with world := after } =
          (.ok (), ⟨later, m.calls ++ [completedCall world options result]⟩) := by
        rw [send, sent]
      rw [Fallible.bind_of_ok accepted] at run
      obtain ⟨rfl, rfl⟩ := Fallible.pure_eq_iff.1 run
      exact .completed ran sent

theorem calls_send {call : StepCall Obj} {outcome : Except (Thrown Obj) Unit} (run : send world call s = (outcome, t)) :
    t.calls = s.calls ++ [call] := by
  obtain ⟨_, rfl⟩ := Prod.mk.inj run
  rfl

theorem not_isFailure_inputCall : ¬ IsFailure (inputCall options state) := by
  rintro ⟨_, _, _, _, same⟩
  cases same

theorem not_isFailure_completedCall {result : Value Obj} : ¬ IsFailure (completedCall world options result) := by
  rintro ⟨_, _, _, _, same⟩
  obtain ⟨_, _, _, _, summary⟩ := StepCall.checkpoint.inj same
  exact absurd summary (by decide)

theorem isFailure_failedCall {name : Value Obj} : IsFailure (failedCall options name) := ⟨_, _, _, _, rfl⟩

/-- No failure is recorded in the `try` block. -/
theorem Attempt.calls {outcome : Except (Thrown Obj) (Value Obj)}
    (attempt : Attempt world options step state m outcome t) :
    ∃ made, t.calls = m.calls ++ made ∧ ∀ call ∈ made, ¬ IsFailure call := by
  cases attempt with
  | threw => exact ⟨[], (List.append_nil _).symm, fun _ inside => absurd inside List.not_mem_nil⟩
  | rejected => exact ⟨_, rfl, List.forall_mem_singleton.mpr not_isFailure_completedCall⟩
  | completed => exact ⟨_, rfl, List.forall_mem_singleton.mpr not_isFailure_completedCall⟩

/-- The checkpoint of a failure is attempted when the `try` block fails with something that has a name. -/
theorem recordsFailure_iff : RecordsFailure world options step state s ↔
    ∃ m raised t, send world (inputCall options state) s = (.ok (), m) ∧
      attempted world options step state m = (.error raised, t) ∧ (errorName world raised).isOk = true := by
  have whole : wrapAgentStep world options step state = (do
      send world (inputCall options state)
      Fallible.reraising (attempted world options step state) fun error => do
        let name ← Fallible.lift (errorName world error)
        send world (failedCall options name)) := rfl
  have ends : ∀ finish, (wrapAgentStep world options step state s).2 = finish → ∀ made, finish.calls = s.calls ++ made →
      (RecordsFailure world options step state s ↔ ∃ call ∈ made, IsFailure call) := by
    rintro finish rfl made grown
    rw [RecordsFailure, grown, List.drop_left]
  have quiet : ∀ {made : List (StepCall Obj)}, (∀ call ∈ made, ¬ IsFailure call) → ¬ ∃ call ∈ made, IsFailure call :=
    fun none ⟨call, inside, failure⟩ => none call inside failure
  rcases sent : send world (inputCall options state) s with ⟨refusal | _, m⟩
  · rw [ends m (by rw [whole, Fallible.bind_of_error sent]) _ (calls_send sent)]
    refine iff_of_false (quiet (List.forall_mem_singleton.mpr not_isFailure_inputCall)) ?_
    rintro ⟨_, _, _, same, _⟩
    exact absurd (Prod.mk.inj same).1 nofun
  · rcases tried : attempted world options step state m with ⟨raised | result, t⟩
    · obtain ⟨made, grown, none⟩ := (attempted_attempt tried).calls
      rw [calls_send sent, List.append_assoc] at grown
      have only : ∀ call ∈ [inputCall options state] ++ made, ¬ IsFailure call :=
        List.forall_mem_cons.mpr ⟨not_isFailure_inputCall, none⟩
      have handled : (wrapAgentStep world options step state s).2 = ((do
          let name ← Fallible.lift (errorName world raised)
          send world (failedCall options name)) t).2 := by
        rw [whole, Fallible.bind_of_ok sent, Fallible.snd_reraising_of_error tried]
      cases named : errorName world raised with
      | error other =>
        rw [named] at handled
        rw [ends t handled _ grown]
        refine iff_of_false (quiet only) ?_
        rintro ⟨_, _, _, same, tried', named'⟩
        obtain ⟨_, rfl⟩ := Prod.mk.inj same
        obtain ⟨own, rfl⟩ := Prod.mk.inj (tried.symm.trans tried')
        rw [← Except.error.inj own, named] at named'
        exact absurd named' nofun
      | ok name =>
        rw [named] at handled
        have last : (send world (failedCall options name) t).2.calls = s.calls ++ ([inputCall options state] ++ made ++
            [failedCall options name]) := by
          rw [← List.append_assoc, ← grown]
          rfl
        rw [ends _ handled _ last]
        exact iff_of_true ⟨_, List.mem_append_right _ (List.mem_singleton_self _), isFailure_failedCall⟩
          ⟨m, raised, t, rfl, tried, by rw [named]; rfl⟩
    · obtain ⟨made, grown, none⟩ := (attempted_attempt tried).calls
      rw [calls_send sent, List.append_assoc] at grown
      have returned : (wrapAgentStep world options step state s).2 = t := by
        rw [whole, Fallible.bind_of_ok sent, Fallible.reraising_of_ok tried]
      rw [ends t returned _ grown]
      refine iff_of_false (quiet (List.forall_mem_cons.mpr ⟨not_isFailure_inputCall, none⟩)) ?_
      rintro ⟨_, _, _, same, tried', _⟩
      obtain ⟨_, rfl⟩ := Prod.mk.inj same
      exact absurd (Prod.mk.inj (tried.symm.trans tried')).1 nofun

/-- The failures that are recorded are those of the step, exactly when the two are told apart. -/
theorem recordsFailure_iff_fails : (RecordsFailure world options step state s ↔ Fails world options step state s) ↔
    TellsApart world options step state s := by
  rw [recordsFailure_iff]
  constructor
  · intro agree
    constructor
    · intro m raised after sent fails
      obtain ⟨m', raised', t, sent', tried, named⟩ := agree.mpr ⟨m, raised, after, sent, fails⟩
      obtain ⟨_, rfl⟩ := Prod.mk.inj (sent.symm.trans sent')
      cases attempted_attempt tried with
      | threw fails' =>
        rwa [Except.error.inj (Prod.mk.inj (fails.symm.trans fails')).1]
      | rejected returns => exact absurd (Prod.mk.inj (fails.symm.trans returns)).1 nofun
    · intro m result after raised later sent returns refuses
      rw [← Bool.not_eq_true]
      intro named
      rcases tried : attempted world options step state m with ⟨outcome, t⟩
      have failing : ∃ raised', outcome = .error raised' ∧ raised' = raised := by
        cases attempted_attempt tried with
        | threw fails => exact absurd (Prod.mk.inj (fails.symm.trans returns)).1 nofun
        | rejected returns' refuses' =>
          obtain ⟨same, rfl⟩ := Prod.mk.inj (returns.symm.trans returns')
          obtain rfl := Except.ok.inj same
          exact ⟨_, rfl, Except.error.inj (Prod.mk.inj (refuses'.symm.trans refuses)).1⟩
        | completed returns' accepts =>
          obtain ⟨same, rfl⟩ := Prod.mk.inj (returns.symm.trans returns')
          obtain rfl := Except.ok.inj same
          exact absurd (Prod.mk.inj (refuses.symm.trans accepts)).1 nofun
      obtain ⟨_, rfl, rfl⟩ := failing
      obtain ⟨m', _, _, sent', fails⟩ := agree.mp ⟨m, _, t, sent, tried, named⟩
      obtain ⟨_, rfl⟩ := Prod.mk.inj (sent.symm.trans sent')
      exact absurd (Prod.mk.inj (fails.symm.trans returns)).1 nofun
  · intro apart
    constructor
    · rintro ⟨m, raised, t, sent, tried, named⟩
      cases attempted_attempt tried with
      | threw fails => exact ⟨m, raised, _, sent, fails⟩
      | rejected returns refuses =>
        exact absurd ((apart.returned _ _ _ _ _ sent returns refuses).symm.trans named) nofun
    · rintro ⟨m, raised, after, sent, fails⟩
      rcases tried : attempted world options step state m with ⟨outcome, t⟩
      have named := apart.thrown _ _ _ sent fails
      cases attempted_attempt tried with
      | threw fails' =>
        have same := Except.error.inj (Prod.mk.inj (fails.symm.trans fails')).1
        exact ⟨m, _, _, sent, tried, same ▸ named⟩
      | rejected returns => exact absurd (Prod.mk.inj (fails.symm.trans returns)).1 nofun
      | completed returns => exact absurd (Prod.mk.inj (fails.symm.trans returns)).1 nofun

end AgentStep

section GenerateText

variable {world : AdapterWorld Obj} {options : NexusAISDKAdapterOptions Obj}
  {behaviour : WrappedOptions Obj → BaseRun Obj} {inputOptions : InputOptions Obj} {s t m : ContextState}
  {threadId version : String} {wrapped : WrappedOptions Obj}

variable (world options) in
/-- The `try` block of a call -/
def generated (baseGenerateText : BaseFunction Obj) (threadId : String) (wrapped : WrappedOptions Obj) :
    Adapter Obj (Value Obj) := do
  let result ← calledBase world options baseGenerateText threadId wrapped
  let _ ← record world options.context threadId (.ok (outputEvent options "run_end" "generateText" result))
  pure result

theorem generateText_eq {baseGenerateText : BaseFunction Obj} :
    generateText world options baseGenerateText inputOptions = (do
      let (threadId, wrapped) ← started world options inputOptions
      Fallible.reraising (generated world options baseGenerateText threadId wrapped) fun error =>
        record world options.context threadId (errorEvent world "generateText" error)) := rfl

variable (world options behaviour inputOptions s) in
/-- An error checkpoint is among the calls of the client. -/
def RecordsError : Prop :=
  ∃ call ∈ (generateText world options (.ofRun behaviour) inputOptions s).2.calls.drop s.calls.length,
    ReportsError options.context call

variable (world options behaviour inputOptions s) in
/-- The base function is reached and fails. -/
def BaseFails : Prop :=
  ∃ threadId wrapped m raised t, started world options inputOptions s = (.ok (threadId, wrapped), m) ∧
    calledBase world options (.ofRun behaviour) threadId wrapped m = (.error raised, t)

variable (world options) in
/-- An error event can be made of what was thrown, and copied. -/
def Recordable (raised : Thrown Obj) : Prop :=
  ∃ input, errorEvent world "generateText" raised = .ok input ∧ CanBeSent world options.context input

variable (world options) in
/-- The base function awaits `onError` with something that an error event can be made of, and the callback of the user, if
there is one, returns. -/
def Reports (wrapped : WrappedOptions Obj) (fired : AICallback × Value Obj) : Prop :=
  fired.1 = .onError ∧ returns world wrapped fired = true ∧ Recordable world options (.value fired.2)

variable (world options behaviour inputOptions s) in
/-- What a failing base function throws, or has told `onError`, can be recorded. One that returns has told `onError`
nothing that can be, and nothing that can be escapes from recording its result. -/
structure TellsBaseApart : Prop where
  thrown : ∀ threadId wrapped m raised t, started world options inputOptions s = (.ok (threadId, wrapped), m) →
    calledBase world options (.ofRun behaviour) threadId wrapped m = (.error raised, t) →
      Recordable world options raised ∨
        ∃ fired ∈ (behaviour wrapped).fired (composed world options wrapped threadId "generateText") m,
          Reports world options wrapped fired
  untold : ∀ threadId wrapped m result t, started world options inputOptions s = (.ok (threadId, wrapped), m) →
    calledBase world options (.ofRun behaviour) threadId wrapped m = (.ok result, t) →
      ∀ fired ∈ (behaviour wrapped).fired (composed world options wrapped threadId "generateText") m,
        ¬ Reports world options wrapped fired
  returned : ∀ threadId wrapped m result t raised escaping,
    started world options inputOptions s = (.ok (threadId, wrapped), m) →
    calledBase world options (.ofRun behaviour) threadId wrapped m = (.ok result, t) →
    CallRaises world options.context t threadId (outputEvent options "run_end" "generateText" result) raised →
    warn world options.context raised = .error escaping → ¬ Recordable world options escaping

theorem eventType_errorEvent {raised : Thrown Obj} {input : EventInput Obj}
    (made : errorEvent world "generateText" raised = .ok input) : input.eventType = "error" := by
  cases raised with
  | error message =>
    obtain rfl := Except.ok.inj made
    rfl
  | value thrown =>
    cases thrown with
    | undefined =>
      obtain rfl := Except.ok.inj made
      rfl
    | null =>
      obtain rfl := Except.ok.inj made
      rfl
    | text content =>
      obtain rfl := Except.ok.inj made
      rfl
    | other name =>
      obtain ⟨fields, _, made⟩ := bind_eq_ok_iff.1 made
      cases fields with
      | some fields =>
        obtain rfl := Except.ok.inj made
        rfl
      | none =>
        obtain ⟨_, _, made⟩ := bind_eq_ok_iff.1 made
        obtain rfl := Except.ok.inj made
        rfl

theorem Ready.attempts_errorEvent_iff {raised : Thrown Obj} (ready : Ready world options.context version threadId s) :
    Attempts world options.context s threadId (errorEvent world "generateText" raised) ↔
      Recordable world options raised := by
  cases made : errorEvent world "generateText" raised with
  | error other =>
    refine iff_of_false ?_ ?_
    · rintro ⟨_, _, _, prepares, _⟩
      cases (Prod.mk.inj prepares).1
    · rintro ⟨_, wrong, _⟩
      cases made.symm.trans wrong
  | ok input =>
    rw [ready.attempts_iff (eventType_errorEvent made ▸ by decide)]
    constructor
    · exact fun sent => ⟨input, made, sent⟩
    · rintro ⟨_, made', sent⟩
      obtain rfl := Except.ok.inj (made.symm.trans made')
      exact sent

section Reporting

variable (silent : ∀ s, Silent options.context s (world.meanwhile s))
include silent

/-- What an error event can be made of is reported. -/
theorem Ready.error_reporting (ready : Ready world options.context version threadId s) (raised : Thrown Obj) :
    Reporting options.context s (record world options.context threadId (errorEvent world "generateText" raised) s).2
      (Recordable world options raised) := by
  refine (record_reporting silent s).congr ?_
  rw [← ready.attempts_errorEvent_iff]
  constructor
  · rintro ⟨_, _, _, attempts⟩
    exact attempts
  · intro attempts
    obtain ⟨input, made, _⟩ := ready.attempts_errorEvent_iff.mp attempts
    exact ⟨input, made, eventType_errorEvent made, attempts⟩

/-- An event of another type reports nothing. -/
theorem record_silent {given : Except (Thrown Obj) (EventInput Obj)}
    (other : ∀ input, given = .ok input → input.eventType ≠ "error") (s : ContextState) :
    Silent options.context s (record world options.context threadId given s).2 := by
  refine (record_reporting silent s).congr ⟨?_, False.elim⟩
  rintro ⟨input, same, error, _⟩
  exact other input same error

variable (threadId) in
/-- An event with an output reports nothing. -/
theorem output_silent {eventType : String} (other : eventType ≠ "error") (value : Value Obj) (s : ContextState) :
    Silent options.context s
      (record world options.context threadId (.ok (outputEvent options eventType "generateText" value)) s).2 := by
  refine record_silent silent (fun input same => ?_) s
  obtain rfl := Except.ok.inj same
  exact other

theorem composed_reporting (ready : Ready world options.context version threadId s) (callback : AICallback)
    (value : Value Obj) :
    Reporting options.context s (composed world options wrapped threadId "generateText" callback value s).2
      (Reports world options wrapped (callback, value)) := by
  have shape : composed world options wrapped threadId "generateText" callback value = (do
      let originalResult ← Fallible.lift (originalResult world wrapped (callback, value))
      let _ ← record world options.context threadId (callbackEvent world options "generateText" callback value)
      pure originalResult) := rfl
  rw [shape]
  cases called : originalResult world wrapped (callback, value) with
  | error raised =>
    rw [Fallible.bind_of_error (Fallible.lift_eq_iff.2 ⟨rfl, rfl⟩)]
    refine (Silent.refl s).congr ⟨False.elim, ?_⟩
    rintro ⟨_, wrong, _⟩
    rw [returns, called] at wrong
    cases wrong
  | ok result =>
    have goesOn : returns world wrapped (callback, value) = true := by
      rw [returns, called]
      rfl
    have reports : Reporting options.context s
        (record world options.context threadId (callbackEvent world options "generateText" callback value) s).2
        (Reports world options wrapped (callback, value)) := by
      cases callback with
      | onStepFinish =>
        refine (output_silent _ silent (by decide : "step_end" ≠ "error") value s).congr ⟨False.elim, ?_⟩
        rintro ⟨wrong, _⟩
        cases wrong
      | onFinish =>
        refine (output_silent _ silent (by decide : "run_end" ≠ "error") value s).congr ⟨False.elim, ?_⟩
        rintro ⟨wrong, _⟩
        cases wrong
      | onError =>
        refine (ready.error_reporting silent (.value value)).congr ⟨fun recordable => ⟨rfl, goesOn, recordable⟩, ?_⟩
        rintro ⟨_, _, recordable⟩
        exact recordable
    rw [Fallible.lift_ok_bind]
    rcases recorded : record world options.context threadId (callbackEvent world options "generateText" callback value) s
      with ⟨raised | parents, t⟩
    · rw [recorded] at reports
      rwa [Fallible.bind_of_error recorded]
    · rw [recorded] at reports
      rwa [Fallible.bind_of_ok recorded]

variable (held : ∀ s, Held s (world.meanwhile s))
include held

omit silent in
theorem composed_held (callback : AICallback) (value : Value Obj) :
    Fallible.Keeps Held (composed world options wrapped threadId "generateText" callback value) :=
  .bind Held.trans (.lift Held.refl _) fun _ => .bind Held.trans (record_held held) fun _ => .pure Held.refl _

/-- The errors that the base function has reported, by induction on what it does -/
theorem run_reporting (ready : Ready world options.context version threadId s) (base : BaseRun Obj) :
    Reporting options.context s (base.run (composed world options wrapped threadId "generateText") s).2
        (∃ fired ∈ base.fired (composed world options wrapped threadId "generateText") s,
          Reports world options wrapped fired) ∧
      Held s (base.run (composed world options wrapped threadId "generateText") s).2 := by
  induction base generalizing s with
  | returned result =>
    refine ⟨(Silent.refl s).congr ⟨False.elim, ?_⟩, .refl s⟩
    rintro ⟨_, absent, _⟩
    exact absurd absent List.not_mem_nil
  | threw raised =>
    refine ⟨(Silent.refl s).congr ⟨False.elim, ?_⟩, .refl s⟩
    rintro ⟨_, absent, _⟩
    exact absurd absent List.not_mem_nil
  | fires callback value goesOn ih =>
    have later := @composed_held Obj world options threadId wrapped held callback value s
    obtain ⟨rest, on⟩ := ih (composed world options wrapped threadId "generateText" callback value s).1
      (ready.held later)
    refine ⟨((composed_reporting silent ready callback value).trans rest).congr ?_, later.trans _ _ _ on⟩
    rw [BaseRun.fired, List.exists_mem_cons_iff]

variable (behaviour wrapped) in
theorem base_reporting (ready : Ready world options.context version threadId s) :
    Reporting options.context s (calledBase world options (.ofRun behaviour) threadId wrapped s).2
        (∃ fired ∈ (behaviour wrapped).fired (composed world options wrapped threadId "generateText") s,
          Reports world options wrapped fired) ∧
      Held s (calledBase world options (.ofRun behaviour) threadId wrapped s).2 :=
  run_reporting silent held ready (behaviour wrapped)

omit silent in
/-- A call that gets to the base function is ready for its other events. -/
theorem ready_of_started (clocked : ∀ n, Clocked world.numbers (world.ambient n))
    (start : started world options inputOptions s = (.ok (threadId, wrapped), m)) :
    ∃ version, Ready world options.context version threadId m := by
  obtain ⟨given, s, read, goesOn⟩ := Fallible.bind_eq_ok_iff.1 start
  obtain ⟨_, u, recorded, wraps⟩ := Fallible.bind_eq_ok_iff.1 goesOn
  obtain ⟨_, u, composes, ends⟩ := Fallible.bind_eq_ok_iff.1 wraps
  obtain ⟨_, rfl⟩ := Fallible.lift_eq_iff.1 composes
  obtain ⟨same, rfl⟩ := Fallible.pure_eq_iff.1 ends
  obtain ⟨rfl, rfl⟩ := Prod.mk.inj (Except.ok.inj same)
  rw [record_eq] at recorded
  obtain ⟨built, v, prepares, calls⟩ := Fallible.bind_eq_ok_iff.1 recorded
  obtain ⟨version, ready⟩ := ready_of_prepared clocked prepares
  have later := @concluded_held Obj world options.context held built v
  rw [calls] at later
  exact ⟨version, ready.held later⟩

omit held in
variable (options inputOptions) in
theorem started_silent : Fallible.Keeps (Silent options.context) (started world options inputOptions) := by
  refine .bind Silent.trans (.lift Silent.refl _) fun _ => .bind Silent.trans (fun s => ?_) fun _ =>
    .bind Silent.trans (.lift Silent.refl _) fun _ => .pure Silent.refl _
  refine record_silent silent (fun input made => ?_) s
  obtain ⟨value, rfl⟩ := startEvent_eq made
  exact (by decide : "run_start" ≠ "error")

variable (clocked : ∀ n, Clocked world.numbers (world.ambient n))
include clocked

/-- What the `try` block reports, and that another event can be recorded after it -/
theorem generated_reporting (start : started world options inputOptions s = (.ok (threadId, wrapped), m)) :
    Reporting options.context m (generated world options (.ofRun behaviour) threadId wrapped m).2
        (∃ fired ∈ (behaviour wrapped).fired (composed world options wrapped threadId "generateText") m,
          Reports world options wrapped fired) ∧
      ∃ version, Ready world options.context version threadId
        (generated world options (.ofRun behaviour) threadId wrapped m).2 := by
  obtain ⟨version, ready⟩ := ready_of_started held clocked start
  obtain ⟨reporting, later⟩ := base_reporting behaviour wrapped silent held ready
  rw [generated]
  rcases based : calledBase world options (.ofRun behaviour) threadId wrapped m with ⟨raised | result, t⟩
  · rw [based] at reporting later
    rw [Fallible.bind_of_error based]
    exact ⟨reporting, version, ready.held later⟩
  · rw [based] at reporting later
    have ends := output_silent threadId silent (by decide : "run_end" ≠ "error") result t
    have on := @record_held Obj world options.context threadId
      (.ok (outputEvent options "run_end" "generateText" result)) held t
    rw [Fallible.bind_of_ok based]
    rcases recorded : record world options.context threadId (.ok (outputEvent options "run_end" "generateText" result)) t
      with ⟨raised | parents, u⟩
    · rw [recorded] at ends on
      rw [Fallible.bind_of_error recorded]
      exact ⟨(reporting.trans ends).congr (or_iff_left id), version, (ready.held later).held on⟩
    · rw [recorded] at ends on
      rw [Fallible.bind_of_ok recorded]
      exact ⟨(reporting.trans ends).congr (or_iff_left id), version, (ready.held later).held on⟩

/-- An error checkpoint is sent when the base function reports an error, or when what escapes from the `try` block can be
recorded. -/
theorem recordsError_iff (start : started world options inputOptions s = (.ok (threadId, wrapped), m)) :
    RecordsError world options behaviour inputOptions s ↔
      (∃ fired ∈ (behaviour wrapped).fired (composed world options wrapped threadId "generateText") m,
        Reports world options wrapped fired) ∨
      ∃ raised t, generated world options (.ofRun behaviour) threadId wrapped m = (.error raised, t) ∧
        Recordable world options raised := by
  have opens := started_silent options inputOptions silent s
  rw [start] at opens
  obtain ⟨reporting, version, ready⟩ := @generated_reporting Obj world options behaviour inputOptions s m threadId wrapped
    silent held clocked start
  rw [RecordsError, generateText_eq, Fallible.bind_of_ok start]
  dsimp only
  rcases tried : generated world options (.ofRun behaviour) threadId wrapped m with ⟨raised | result, t⟩
  · rw [tried] at reporting ready
    have whole := ((Reporting.trans opens reporting).trans (ready.error_reporting silent raised)).congr
      (or_congr_left (iff_of_eq (false_or _)))
    have ends : (Fallible.reraising (generated world options (.ofRun behaviour) threadId wrapped) (fun error =>
        record world options.context threadId (errorEvent world "generateText" error)) m).2 =
          (record world options.context threadId (errorEvent world "generateText" raised) t).2 :=
      Fallible.snd_reraising_of_error tried
    rw [ends, whole.iff]
    refine or_congr_right ⟨fun recordable => ⟨raised, t, rfl, recordable⟩, ?_⟩
    rintro ⟨_, _, same, recordable⟩
    obtain ⟨same, _⟩ := Prod.mk.inj same
    exact Except.error.inj same ▸ recordable
  · rw [tried] at reporting
    have whole := (Reporting.trans opens reporting).congr (iff_of_eq (false_or _))
    rw [Fallible.reraising_of_ok tried, whole.iff]
    refine (or_iff_left ?_).symm
    rintro ⟨_, _, wrong, _⟩
    cases (Prod.mk.inj wrong).1

/-- The errors that are reported are those of failures of the base function, exactly when the two are told apart. -/
theorem recordsError_iff_baseFails :
    (RecordsError world options behaviour inputOptions s ↔ BaseFails world options behaviour inputOptions s) ↔
      TellsBaseApart world options behaviour inputOptions s := by
  rcases start : started world options inputOptions s with ⟨raised | ⟨threadId, wrapped⟩, m⟩
  · have opens := started_silent options inputOptions silent s
    rw [start] at opens
    have silence : ¬ RecordsError world options behaviour inputOptions s := by
      rw [RecordsError, generateText_eq, Fallible.bind_of_error start, opens.iff]
      exact id
    have unreached : ∀ {threadId wrapped m}, started world options inputOptions s ≠ (.ok (threadId, wrapped), m) := by
      intro _ _ _ reached
      cases (Prod.mk.inj (start.symm.trans reached)).1
    refine iff_of_true (iff_of_false silence ?_) ⟨?_, ?_, ?_⟩
    · rintro ⟨_, _, _, _, _, reached, _⟩
      exact unreached reached
    · exact fun _ _ _ _ _ reached => absurd reached unreached
    · exact fun _ _ _ _ _ reached => absurd reached unreached
    · exact fun _ _ _ _ _ _ _ reached => absurd reached unreached
  have only : ∀ {threadId' wrapped' m'}, started world options inputOptions s = (.ok (threadId', wrapped'), m') →
      threadId = threadId' ∧ wrapped = wrapped' ∧ m = m' := by
    intro _ _ _ reached
    obtain ⟨same, rfl⟩ := Prod.mk.inj (start.symm.trans reached)
    obtain ⟨rfl, rfl⟩ := Prod.mk.inj (Except.ok.inj same)
    exact ⟨rfl, rfl, rfl⟩
  rw [recordsError_iff silent held clocked start]
  obtain ⟨version, ready⟩ := ready_of_started held clocked start
  have later := (base_reporting behaviour wrapped silent held ready).2
  rcases based : calledBase world options (.ofRun behaviour) threadId wrapped m with ⟨raised | result, t⟩
  · have fails : BaseFails world options behaviour inputOptions s := ⟨_, _, _, _, _, start, based⟩
    have tried : generated world options (.ofRun behaviour) threadId wrapped m = (.error raised, t) := by
      rw [generated, Fallible.bind_of_error based]
    rw [iff_true_right fails]
    constructor
    · intro records
      refine ⟨?_, ?_, ?_⟩
      · intro _ _ _ raised' _ reached based'
        obtain ⟨rfl, rfl, rfl⟩ := only reached
        obtain ⟨same, _⟩ := Prod.mk.inj (based.symm.trans based')
        obtain rfl := Except.error.inj same
        rcases records with told | ⟨_, _, tried', recordable⟩
        · exact .inr told
        · obtain ⟨same, _⟩ := Prod.mk.inj (tried.symm.trans tried')
          exact .inl (Except.error.inj same ▸ recordable)
      · intro _ _ _ _ _ reached based'
        obtain ⟨rfl, rfl, rfl⟩ := only reached
        cases (Prod.mk.inj (based.symm.trans based')).1
      · intro _ _ _ _ _ _ _ reached based'
        obtain ⟨rfl, rfl, rfl⟩ := only reached
        cases (Prod.mk.inj (based.symm.trans based')).1
    · intro apart
      rcases apart.thrown _ _ _ _ _ start based with recordable | told
      · exact .inr ⟨raised, t, tried, recordable⟩
      · exact .inl told
  · have succeeds : ¬ BaseFails world options behaviour inputOptions s := by
      rintro ⟨_, _, _, _, _, reached, based'⟩
      obtain ⟨rfl, rfl, rfl⟩ := only reached
      cases (Prod.mk.inj (based.symm.trans based')).1
    have after : Ready world options.context version threadId t := by
      rw [based] at later
      exact ready.held later
    have escapes : ∀ escaping, (∃ u, generated world options (.ofRun behaviour) threadId wrapped m = (.error escaping, u)) ↔
        ∃ raised, CallRaises world options.context t threadId (outputEvent options "run_end" "generateText" result)
          raised ∧ warn world options.context raised = .error escaping := by
      intro escaping
      rw [← after.record_error_iff (by decide : "run_end" ∈ eventTypes), generated, Fallible.bind_of_ok based]
      constructor
      · rintro ⟨u, run⟩
        rcases Fallible.bind_eq_error_iff.1 run with escapes | ⟨_, _, _, impossible⟩
        · exact ⟨u, escapes⟩
        · cases (Prod.mk.inj impossible).1
      · rintro ⟨u, run⟩
        exact ⟨u, Fallible.bind_eq_error_iff.2 (.inl run)⟩
    rw [iff_false_right succeeds, not_or]
    constructor
    · rintro ⟨untold, unrecorded⟩
      refine ⟨?_, ?_, ?_⟩
      · intro _ _ _ _ _ reached based'
        obtain ⟨rfl, rfl, rfl⟩ := only reached
        cases (Prod.mk.inj (based.symm.trans based')).1
      · intro _ _ _ _ _ reached _ fired member reports
        obtain ⟨rfl, rfl, rfl⟩ := only reached
        exact untold ⟨fired, member, reports⟩
      · intro _ _ _ _ _ raised escaping reached based' raises warned recordable
        obtain ⟨rfl, rfl, rfl⟩ := only reached
        obtain ⟨same, rfl⟩ := Prod.mk.inj (based.symm.trans based')
        obtain rfl := Except.ok.inj same
        obtain ⟨u, run⟩ := (escapes escaping).mpr ⟨raised, raises, warned⟩
        exact unrecorded ⟨escaping, u, run, recordable⟩
    · intro apart
      refine ⟨?_, ?_⟩
      · rintro ⟨fired, member, reports⟩
        exact apart.untold _ _ _ _ _ start based fired member reports
      · rintro ⟨escaping, u, run, recordable⟩
        obtain ⟨raised, raises, warned⟩ := (escapes escaping).mp ⟨u, run⟩
        exact apart.returned _ _ _ _ _ _ _ start based raises warned recordable

end Reporting

end GenerateText

/-- In both wrappers the failures that are recorded are those of the wrapped function, exactly when what it throws can
be recorded, it reports no other error itself, and nothing that can be recorded escapes from recording its result. -/
theorem failure_records_iff {σ : Type} (stepWorld : StepWorld Obj σ) (stepOptions : AgentStepOptions)
    (step : Value Obj → Fallible σ (Thrown Obj) (Value Obj)) (state : Value Obj) (trace : StepTrace Obj σ)
    (world : AdapterWorld Obj) (options : NexusAISDKAdapterOptions Obj) (behaviour : WrappedOptions Obj → BaseRun Obj)
    (inputOptions : InputOptions Obj) (s : ContextState) (clocked : ∀ n, Clocked world.numbers (world.ambient n))
    (held : ∀ s, Held s (world.meanwhile s)) (silent : ∀ s, Silent options.context s (world.meanwhile s)) :
    ((AgentStep.RecordsFailure stepWorld stepOptions step state trace ↔
        AgentStep.Fails stepWorld stepOptions step state trace) ↔
      AgentStep.TellsApart stepWorld stepOptions step state trace) ∧
    ((RecordsError world options behaviour inputOptions s ↔ BaseFails world options behaviour inputOptions s) ↔
      TellsBaseApart world options behaviour inputOptions s) :=
  ⟨AgentStep.recordsFailure_iff_fails, recordsError_iff_baseFails silent held clocked⟩

section Sample

open AgentStep

private def stepper : AgentStepOptions := ⟨"agent", "run", "topic:x"⟩

/-- A client that takes everything but the checkpoint of a result, when it is told to reject that -/
private def choosy (rejects : Bool) : StepWorld Empty Unit where
  isObject := nofun
  errorName := nofun
  client call := match call with
    | .checkpoint _ _ _ _ "Wrapped agent step completed" =>
        if rejects then Fallible.fail (.error "offline") else pure ()
    | _ => pure ()

private def atFirst : StepTrace Empty Unit := ⟨(), []⟩

private def accepting : AdapterWorld Empty where
  runtime := ⟨nofun, nofun, nofun, fun _ _ => .ok .undefined⟩
  engine := .plain
  numbers := .plain
  ambient _ := ⟨0, [], 1⟩
  client _ := .resolved none
  meanwhile s := s

private def lenient : NexusAISDKAdapterOptions Empty where
  context := ⟨"vercel-ai", "run-1", "vercel-ai-frontend", none, true, ["vercel-ai"], []⟩
  captureInputs := true
  captureOutputs := true

/-- A base function that throws after a step -/
private def raising : WrappedOptions Empty → BaseRun Empty := fun _ =>
  .fires .onStepFinish (.text "step") fun _ => .threw (.error "boom")

/-- A base function that tells of an error and returns -/
private def telling : WrappedOptions Empty → BaseRun Empty := fun _ =>
  .fires .onError (.text "late") fun _ => .returned (.text "done")

private theorem recordable (raised : Thrown Empty) : Recordable accepting lenient raised := by
  cases raised with
  | error message => exact ⟨_, rfl, rfl⟩
  | value thrown =>
    cases thrown with
    | other name => cases name
    | _ => exact ⟨_, rfl, rfl⟩

/-- A step and a base function that throw -/
theorem failure_records_iff_raising :
    RecordsFailure (choosy false) stepper (fun _ => Fallible.fail (.error "boom")) .null atFirst ∧
      RecordsError accepting lenient raising [] ⟨[], ∅, [], 0⟩ := by
  have stepApart : TellsApart (choosy false) stepper (fun _ => Fallible.fail (.error "boom")) .null atFirst := by
    constructor
    · intro m raised after _ fails
      obtain rfl := Except.error.inj (Prod.mk.inj fails).1
      rfl
    · intro m result after raised later _ returns
      exact absurd (Prod.mk.inj returns).1 nofun
  have baseApart : TellsBaseApart accepting lenient raising [] ⟨[], ∅, [], 0⟩ := by
    have fails : ∀ {threadId wrapped m result t},
        calledBase accepting lenient (.ofRun raising) threadId wrapped m ≠ (.ok result, t) := by
      intro _ _ _ result _ based
      have wrong : (.error (.error "boom") : Except (Thrown Empty) (Value Empty)) = .ok result := (Prod.mk.inj based).1
      cases wrong
    refine ⟨?_, ?_, ?_⟩
    · exact fun _ _ _ raised _ _ _ => .inl (recordable raised)
    · exact fun _ _ _ _ _ _ based => absurd based fails
    · exact fun _ _ _ _ _ _ _ _ based => absurd based fails
  obtain ⟨⟨threadId, wrapped⟩, start⟩ := Fallible.exists_ok
    (by decide : (started accepting lenient [] ⟨[], ∅, [], 0⟩).1.isOk = true)
  obtain ⟨ofStep, ofBase⟩ := failure_records_iff (choosy false) stepper (fun _ => Fallible.fail (.error "boom")) .null
    atFirst accepting lenient raising [] ⟨[], ∅, [], 0⟩ (fun _ => ⟨rfl, rfl⟩) Held.refl Silent.refl
  exact ⟨(ofStep.2 stepApart).2 ⟨_, _, _, rfl, rfl⟩, (ofBase.2 baseApart).2 ⟨threadId, wrapped, _, _, _, start, rfl⟩⟩

/-- The step returns and its checkpoint is rejected, or the base function tells of an error and returns: a failure is
recorded. -/
theorem failure_recorded_of_success :
    (¬ ∀ (world : StepWorld Empty Unit) (options : AgentStepOptions)
      (step : Value Empty → Fallible Unit (Thrown Empty) (Value Empty)) (state : Value Empty)
      (s : StepTrace Empty Unit),
      RecordsFailure world options step state s ↔ Fails world options step state s) ∧
    ¬ ∀ behaviour : WrappedOptions Empty → BaseRun Empty,
      RecordsError accepting lenient behaviour [] ⟨[], ∅, [], 0⟩ ↔ BaseFails accepting lenient behaviour [] ⟨[], ∅, [], 0⟩ := by
  constructor
  · intro claim
    have recorded : RecordsFailure (choosy true) stepper (fun _ => pure (.text "done")) .null atFirst :=
      ⟨failedCall stepper (.text "Error"), by decide, isFailure_failedCall⟩
    obtain ⟨_, _, _, _, fails⟩ := (claim _ _ _ _ _).mp recorded
    cases (Prod.mk.inj fails).1
  · intro claim
    obtain ⟨⟨threadId, wrapped⟩, start⟩ := Fallible.exists_ok
      (by decide : (started accepting lenient [] ⟨[], ∅, [], 0⟩).1.isOk = true)
    have goesOn : returns accepting wrapped (.onError, .text "late") = true := by
      rw [returns, originalResult]
      split <;> rfl
    have recorded : RecordsError accepting lenient telling [] ⟨[], ∅, [], 0⟩ :=
      (recordsError_iff Silent.refl Held.refl (fun _ => ⟨rfl, rfl⟩) start).mpr
        (.inl ⟨_, List.mem_cons_self, rfl, goesOn, recordable _⟩)
    obtain ⟨_, _, _, raised, _, _, fails⟩ := (claim telling).mp recorded
    have wrong : (.ok (.text "done") : Except (Thrown Empty) (Value Empty)) = .error raised := (Prod.mk.inj fails).1
    cases wrong

end Sample

end TypeScript

end AttowNexus
