import AttowNexus.Soundness.GenerateTextTrace

/-! # Getting to the checkpoint call

Recording an event builds it, registers its thread and then calls the client. On a thread that is registered, with names
that were good for an event before, only the data of the event can keep it from its call, and what escapes is what the
guard of the call lets through.
-/

namespace AttowNexus

namespace TypeScript

open Checks NexusAdapterContext NexusAISDKAdapter

variable {Obj : Type}

section Attempts

variable {world : AdapterWorld Obj} {context : NexusAdapterContextOptions Obj} {s t u : ContextState}
  {threadId version : String} {given : Except (Thrown Obj) (EventInput Obj)}

variable (world context threadId given) in
/-- Recording an event up to the checkpoint call: the event, with the parents that it is sent with -/
def prepared : Adapter Obj (AdapterEvent Obj) := do
  let input ← Fallible.lift given
  let built ← event world context threadId input
  register world context built.fields.threadId
  let s ← Fallible.get
  pure (withLastParents s built)

variable (world context threadId given s) in
/-- Recording an event gets as far as the checkpoint call of the client. -/
def Attempts : Prop :=
  ∃ built u request, prepared world context threadId given s = (.ok built, u) ∧
    checkpointCall world context built = .ok request

/-- What the answer of the client is for -/
def concluded (built : AdapterEvent Obj) : Option CommitId → Adapter Obj (List String)
  | some commitId => do
      Fallible.modify fun s =>
        { s with lastCommitByThread := s.lastCommitByThread.insert built.fields.threadId commitId }
      pure [commitId.val]
  | none => pure built.fields.parentCommitIds

theorem threadId_withLastParents (built : AdapterEvent Obj) :
    (withLastParents s built).fields.threadId = built.fields.threadId := by
  rw [withLastParents]
  split_ifs <;> rfl

theorem data_withLastParents (built : AdapterEvent Obj) : (withLastParents s built).data = built.data := by
  rw [withLastParents]
  split_ifs <;> rfl

/-- The data of an event can be copied, as well as the metadata of the options. -/
def CanBeSent (world : AdapterWorld Obj) (context : NexusAdapterContextOptions Obj) (input : EventInput Obj) : Prop :=
  (copies world.runtime (input.data ++ [("metadata", .record context.metadata)])).isOk = true

variable (context) in
theorem isOk_checkpointCall {event : AdapterEvent Obj} :
    (checkpointCall world context event).isOk = (copies world.runtime event.data).isOk := by
  rw [checkpointCall, checkpointPayload]
  change ((copies world.runtime event.data >>= _) >>= _).isOk = _
  cases copies world.runtime event.data <;> rfl

/-- Of what is prepared, the checkpoint call is made. -/
theorem record_eq : record world context threadId given s = (do
    let built ← prepared world context threadId given
    let commitId ← call world context (checkpointCall world context built)
    concluded built commitId) s := by
  cases given with
  | error raised => rfl
  | ok input =>
    rcases events : event world context threadId input s with ⟨raised | built, m⟩
    · have stops : prepared world context threadId (.ok input) s = (.error raised, m) := by
        rw [prepared, Fallible.lift_ok_bind, Fallible.bind_of_error events]
      rw [Fallible.bind_of_error stops, record, Fallible.lift_ok_bind, Fallible.bind_of_error events]
    · rcases registers : register world context built.fields.threadId m with ⟨raised | _, u⟩
      · have stops : prepared world context threadId (.ok input) s = (.error raised, u) := by
          rw [prepared, Fallible.lift_ok_bind, Fallible.bind_of_ok events, Fallible.bind_of_error registers]
        rw [Fallible.bind_of_error stops, record, Fallible.lift_ok_bind, Fallible.bind_of_ok events, checkpointEvent,
          Fallible.bind_of_error registers]
      · have ready : prepared world context threadId (.ok input) s = (.ok (withLastParents u built), u) := by
          rw [prepared, Fallible.lift_ok_bind, Fallible.bind_of_ok events, Fallible.bind_of_ok registers]
          rfl
        rw [Fallible.bind_of_ok ready, record, Fallible.lift_ok_bind, Fallible.bind_of_ok events, checkpointEvent,
          Fallible.bind_of_ok registers, Fallible.bind_of_ok (Fallible.get_eq_iff.2 ⟨rfl, rfl⟩)]
        refine congrFun (congrArg (call world context (checkpointCall world context (withLastParents u built)) >>= ·)
          (funext fun commitId => ?_)) u
        cases commitId with
        | none => rfl
        | some commitId => exact congrArg (fun thread : String => (do
            Fallible.modify fun s =>
              { s with lastCommitByThread := s.lastCommitByThread.insert thread commitId }
            pure [commitId.val] : Adapter Obj (List String))) (threadId_withLastParents built).symm

theorem event_keeps {R : ContextState → ContextState → Prop} (refl : ∀ s, R s s)
    (trans : ∀ s t u, R s t → R t u → R s u)
    (counts : ∀ s, R s { s with events := s.events + 1 }) (input : EventInput Obj) :
    Fallible.Keeps R (event world context threadId input) :=
  .bind trans (.get refl) fun _ => .bind trans (.lift refl _) fun _ => .bind trans (.lift refl _) fun _ =>
    .bind trans (.modify counts) fun _ => .pure refl _

theorem register_keeps {R : ContextState → ContextState → Prop} (refl : ∀ s, R s s)
    (trans : ∀ s t u, R s t → R t u → R s u)
    (calls : Fallible.Keeps R (call world context (registerCall world context threadId)))
    (adds : ∀ s, R s { s with registeredThreads := threadId :: s.registeredThreads }) :
    Fallible.Keeps R (register world context threadId) :=
  .bind trans (.get refl) fun _ => .ite (.pure refl _) (.bind trans calls fun _ => .modify adds)

/-- What is prepared has the type that was given. -/
theorem eventType_of_prepared {built : AdapterEvent Obj} (prepares : prepared world context threadId given s = (.ok built, t)) :
    ∃ input, given = .ok input ∧ built.fields.eventType = input.eventType := by
  obtain ⟨input, _, lifts, rest⟩ := Fallible.bind_eq_ok_iff.1 prepares
  obtain ⟨event, _, events, rest⟩ := Fallible.bind_eq_ok_iff.1 rest
  obtain ⟨_, _, _, rest⟩ := Fallible.bind_eq_ok_iff.1 rest
  obtain ⟨own, _, _, ends⟩ := Fallible.bind_eq_ok_iff.1 rest
  obtain ⟨same, _⟩ := Fallible.pure_eq_iff.1 ends
  obtain ⟨_, _, rfl, _⟩ := event_eq_ok_iff.1 events
  refine ⟨input, (Fallible.lift_eq_iff.1 lifts).1.symm, ?_⟩
  rw [Except.ok.inj same, withLastParents]
  split_ifs <;> rfl

end Attempts

section Reporting

variable {world : AdapterWorld Obj} {context : NexusAdapterContextOptions Obj} {s t u : ContextState} {P Q : Prop}
  {threadId : String} {given : Except (Thrown Obj) (EventInput Obj)}

variable (context) in
/-- A checkpoint of an error event -/
def ReportsError : ClientCall → Prop
  | .registerAgent .. => False
  | .checkpoint _ _ _ _ _ summary _ _ _ => summary = context.frameworkName ++ " " ++ "error"

variable (context) in
/-- The calls that were made from one state to the next, with an error event among them or not -/
def Reporting (s t : ContextState) (reported : Prop) : Prop :=
  ∃ made, t.calls = s.calls ++ made ∧ ((∃ call ∈ made, ReportsError context call) ↔ reported)

variable (context) in
/-- No error event was sent. -/
def Silent (s t : ContextState) : Prop := Reporting context s t False

theorem Silent.of_calls (same : t.calls = s.calls) : Silent context s t :=
  ⟨[], by rw [same, List.append_nil], iff_of_false (fun ⟨_, inside, _⟩ => absurd inside List.not_mem_nil) id⟩

theorem Silent.refl (s : ContextState) : Silent context s s := .of_calls rfl

theorem Reporting.trans (first : Reporting context s t P) (second : Reporting context t u Q) :
    Reporting context s u (P ∨ Q) := by
  obtain ⟨made, grown, reported⟩ := first
  obtain ⟨more, again, further⟩ := second
  refine ⟨made ++ more, by rw [again, grown, List.append_assoc], ?_⟩
  rw [← reported, ← further]
  constructor
  · rintro ⟨call, inside, reports⟩
    rcases List.mem_append.mp inside with early | late
    · exact .inl ⟨call, early, reports⟩
    · exact .inr ⟨call, late, reports⟩
  · rintro (⟨call, inside, reports⟩ | ⟨call, inside, reports⟩)
    · exact ⟨call, List.mem_append_left _ inside, reports⟩
    · exact ⟨call, List.mem_append_right _ inside, reports⟩

theorem Reporting.congr (reporting : Reporting context s t P) (same : P ↔ Q) : Reporting context s t Q := by
  obtain ⟨made, grown, reported⟩ := reporting
  exact ⟨made, grown, reported.trans same⟩

theorem Silent.trans (s t u : ContextState) (first : Silent context s t) (second : Silent context t u) :
    Silent context s u := (Reporting.trans first second).congr (or_self_iff)

theorem Reporting.iff (reporting : Reporting context s t P) :
    (∃ call ∈ t.calls.drop s.calls.length, ReportsError context call) ↔ P := by
  obtain ⟨made, grown, reported⟩ := reporting
  rw [grown, List.drop_left]
  exact reported

theorem not_reportsError_registerCall {request : ClientCall} (made : registerCall world context threadId = .ok request) :
    ¬ ReportsError context request := by
  obtain ⟨_, _, same⟩ := bind_eq_ok_iff.1 made
  obtain rfl := Except.ok.inj same
  exact id

theorem reportsError_checkpointCall_iff {event : AdapterEvent Obj} {request : ClientCall}
    (made : checkpointCall world context event = .ok request) :
    ReportsError context request ↔ event.fields.eventType = "error" := by
  obtain ⟨_, _, same⟩ := bind_eq_ok_iff.1 made
  obtain rfl := Except.ok.inj same
  constructor
  · intro alike
    have chars := congrArg String.toList alike
    simp only [String.toList_append] at chars
    exact String.toList_inj.mp (List.append_cancel_left chars)
  · intro typed
    change context.frameworkName ++ " " ++ event.fields.eventType = _
    rw [typed]

variable (silent : ∀ s, Silent context s (world.meanwhile s))
include silent

/-- A call of the client adds its request. -/
theorem call_reporting (request : Except (Thrown Obj) ClientCall) (s : ContextState) :
    Reporting context s (call world context request s).2 (∃ own, request = .ok own ∧ ReportsError context own) := by
  cases request with
  | error raised =>
    refine (Silent.refl s).congr ⟨False.elim, ?_⟩
    rintro ⟨_, wrong, _⟩
    cases wrong
  | ok request =>
    have own : Reporting context s { s with calls := s.calls ++ [request] } (ReportsError context request) :=
      ⟨[request], rfl, by simp⟩
    have after := (own.trans (silent { s with calls := s.calls ++ [request] })).congr (or_iff_left id)
    have given : ReportsError context request ↔
        ∃ own, (.ok request : Except (Thrown Obj) ClientCall) = .ok own ∧ ReportsError context own := by
      constructor
      · exact fun reports => ⟨request, rfl, reports⟩
      · rintro ⟨_, same, reports⟩
        exact Except.ok.inj same ▸ reports
    rw [call]
    split
    · exact after.congr given
    · exact after.congr given

theorem prepared_silent : Fallible.Keeps (Silent context) (prepared world context threadId given) := by
  refine .bind Silent.trans (.lift Silent.refl _) fun _ =>
    .bind Silent.trans (event_keeps Silent.refl Silent.trans (fun s => .of_calls rfl) _) fun built =>
    .bind Silent.trans (register_keeps Silent.refl Silent.trans (fun s => ?_) fun s => .of_calls rfl) fun _ =>
    .bind Silent.trans (.get Silent.refl) fun _ => .pure Silent.refl _
  refine (call_reporting silent _ s).congr ⟨?_, False.elim⟩
  rintro ⟨own, made, reports⟩
  exact not_reportsError_registerCall made reports

/-- Recording an event sends an error exactly when it is one and gets to its call. -/
theorem record_reporting (s : ContextState) : Reporting context s (record world context threadId given s).2
    (∃ input, given = .ok input ∧ input.eventType = "error" ∧ Attempts world context s threadId given) := by
  rw [record_eq]
  have quiet := @prepared_silent Obj world context threadId given silent s
  rcases ready : prepared world context threadId given s with ⟨raised | built, u⟩
  · rw [ready] at quiet
    rw [Fallible.bind_of_error ready]
    refine quiet.congr ⟨False.elim, ?_⟩
    rintro ⟨_, _, _, _, _, _, ready', _⟩
    cases (Prod.mk.inj (ready.symm.trans ready')).1
  · rw [ready] at quiet
    obtain ⟨input, rfl, typed⟩ := eventType_of_prepared ready
    have calls := call_reporting silent (checkpointCall world context built) u
    have whole := (Reporting.trans quiet calls).congr (iff_of_eq (false_or _))
    have concludes : ∀ (commitId : Option CommitId) (v : ContextState), Silent context v (concluded built commitId v).2 := by
      intro commitId v
      cases commitId <;> exact .of_calls rfl
    have ends : Reporting context s ((do
        let commitId ← call world context (checkpointCall world context built)
        concluded built commitId) u).2 (∃ own, checkpointCall world context built = .ok own ∧ ReportsError context own) := by
      rcases called : call world context (checkpointCall world context built) u with ⟨raised | commitId, v⟩
      · rw [called] at whole
        rwa [Fallible.bind_of_error called]
      · rw [called] at whole
        rw [Fallible.bind_of_ok called]
        exact (whole.trans (concludes commitId v)).congr (or_iff_left id)
    rw [Fallible.bind_of_ok ready]
    refine ends.congr ⟨?_, ?_⟩
    · rintro ⟨own, made, reports⟩
      exact ⟨input, rfl, typed.symm.trans ((reportsError_checkpointCall_iff made).mp reports), built, u, own, ready, made⟩
    · rintro ⟨_, same, error, _, _, own, ready', made⟩
      obtain rfl := Except.ok.inj same
      obtain ⟨built', rfl⟩ := Prod.mk.inj (ready.symm.trans ready')
      obtain rfl := Except.ok.inj built'
      exact ⟨own, made, (reportsError_checkpointCall_iff made).mpr (typed.trans error)⟩

end Reporting

section Ready

variable {world : AdapterWorld Obj} {context : NexusAdapterContextOptions Obj} {s t u : ContextState}
  {threadId version : String} {input : EventInput Obj} {given : Except (Thrown Obj) (EventInput Obj)}

/-- Threads that are registered stay so. -/
def Held (s t : ContextState) : Prop := ∀ thread ∈ s.registeredThreads, thread ∈ t.registeredThreads

theorem Held.refl (s : ContextState) : Held s s := fun _ => id

theorem Held.trans (s t u : ContextState) (first : Held s t) (second : Held t u) : Held s u :=
  fun thread known => second thread (first thread known)

theorem call_held (held : ∀ s, Held s (world.meanwhile s)) (request : Except (Thrown Obj) ClientCall) :
    Fallible.Keeps Held (call world context request) := by
  intro s
  cases request with
  | error raised => exact .refl s
  | ok request =>
    rw [call]
    split <;> exact held { s with calls := s.calls ++ [request] }

/-- Making the checkpoint call of what is prepared -/
theorem concluded_held (held : ∀ s, Held s (world.meanwhile s)) (built : AdapterEvent Obj) :
    Fallible.Keeps Held (do
      let commitId ← call world context (checkpointCall world context built)
      concluded built commitId) := by
  refine .bind Held.trans (call_held held _) fun commitId s => ?_
  cases commitId <;> exact .refl s

theorem record_held (held : ∀ s, Held s (world.meanwhile s)) :
    Fallible.Keeps Held (record world context threadId given) := by
  have prepares : Fallible.Keeps Held (prepared world context threadId given) :=
    .bind Held.trans (.lift Held.refl _) fun _ =>
      .bind Held.trans (event_keeps Held.refl Held.trans (fun s => Held.refl s) _) fun _ =>
      .bind Held.trans (register_keeps Held.refl Held.trans (call_held held _)
        fun s _ => List.mem_cons_of_mem _) fun _ =>
      .bind Held.trans (.get Held.refl) fun _ => .pure Held.refl _
  intro s
  rw [record_eq]
  exact (Fallible.Keeps.bind Held.trans prepares fun built => concluded_held held built) s

/-- What it takes to get to the checkpoint call of an event -/
structure Ready (world : AdapterWorld Obj) (context : NexusAdapterContextOptions Obj) (version threadId : String)
    (s : ContextState) : Prop where
  clocked : ∀ n, Clocked world.numbers (world.ambient n)
  given : adapterVersion world context = .ok version
  named : Named context version threadId
  registered : threadId ∈ s.registeredThreads

theorem Ready.held (ready : Ready world context version threadId s) (held : Held s t) :
    Ready world context version threadId t :=
  ⟨ready.clocked, ready.given, ready.named, held _ ready.registered⟩

theorem Ready.prepared (ready : Ready world context version threadId s) (typed : input.eventType ∈ eventTypes) :
    ∃ built, prepared world context threadId (.ok input) s = (.ok built, { s with events := s.events + 1 }) ∧
      built.data = input.data ++ [("metadata", .record context.metadata)] := by
  obtain ⟨built, events, thread, data⟩ : ∃ built, event world context threadId input s =
      (.ok built, { s with events := s.events + 1 }) ∧ built.fields.threadId = threadId ∧
        built.data = input.data ++ [("metadata", .record context.metadata)] :=
    ⟨_, event_eq_ok_iff.2 ⟨version, ⟨ready.given, ready.named, typed, ready.clocked s.events⟩, rfl, rfl⟩, rfl, rfl⟩
  have known : register world context built.fields.threadId { s with events := s.events + 1 } =
      (.ok (), { s with events := s.events + 1 }) := by
    rw [thread, register, Fallible.bind_of_ok (Fallible.get_eq_iff.2 ⟨rfl, rfl⟩), if_pos ready.registered]
    rfl
  refine ⟨withLastParents { s with events := s.events + 1 } built, ?_, (data_withLastParents built).trans data⟩
  rw [TypeScript.prepared, Fallible.lift_ok_bind, Fallible.bind_of_ok events, Fallible.bind_of_ok known]
  rfl

theorem mem_register (run : register world context threadId s = (.ok (), t)) :
    threadId ∈ t.registeredThreads := by
  rw [register, Fallible.bind_of_ok (Fallible.get_eq_iff.2 ⟨rfl, rfl⟩)] at run
  split_ifs at run with known
  · obtain ⟨_, rfl⟩ := Fallible.pure_eq_iff.1 run
    exact known
  · obtain ⟨_, _, _, adds⟩ := Fallible.bind_eq_ok_iff.1 run
    obtain ⟨_, rfl⟩ := Fallible.modify_eq_iff.1 adds
    exact List.mem_cons_self

/-- What was prepared once shows that everything else is in order. -/
theorem ready_of_prepared (clocked : ∀ n, Clocked world.numbers (world.ambient n)) {built : AdapterEvent Obj}
    (prepares : prepared world context threadId given s = (.ok built, t)) :
    ∃ version, Ready world context version threadId t := by
  obtain ⟨input, _, _, rest⟩ := Fallible.bind_eq_ok_iff.1 prepares
  obtain ⟨event, m, events, rest⟩ := Fallible.bind_eq_ok_iff.1 rest
  obtain ⟨_, u, registers, rest⟩ := Fallible.bind_eq_ok_iff.1 rest
  obtain ⟨own, v, reads, ends⟩ := Fallible.bind_eq_ok_iff.1 rest
  obtain ⟨_, rfl⟩ := Fallible.get_eq_iff.1 reads
  obtain ⟨_, rfl⟩ := Fallible.pure_eq_iff.1 ends
  obtain ⟨version, ⟨versioned, named, _, _⟩, rfl, _⟩ := event_eq_ok_iff.1 events
  exact ⟨version, clocked, versioned, named, mem_register registers⟩

/-- An attempt fails on the data only. -/
theorem Ready.attempts_iff (ready : Ready world context version threadId s) (typed : input.eventType ∈ eventTypes) :
    Attempts world context s threadId (.ok input) ↔ CanBeSent world context input := by
  obtain ⟨built, prepares, data⟩ := ready.prepared typed
  rw [CanBeSent, ← data, ← isOk_checkpointCall context]
  constructor
  · rintro ⟨_, _, request, prepares', made⟩
    obtain ⟨same, _⟩ := Prod.mk.inj (prepares.symm.trans prepares')
    rw [Except.ok.inj same, made]
    rfl
  · intro sent
    obtain ⟨request, made⟩ := exists_eq_ok sent
    exact ⟨built, _, request, prepares, made⟩

variable (world context threadId input s) in
/-- The checkpoint call of an event raises: its data cannot be copied, or the client rejects. -/
def CallRaises (raised : Thrown Obj) : Prop :=
  ∃ built u, prepared world context threadId (.ok input) s = (.ok built, u) ∧
    (checkpointCall world context built = .error raised ∨
      ∃ request, checkpointCall world context built = .ok request ∧
        world.client (u.calls ++ [request]) = .rejected raised)

theorem call_error_iff {request : Except (Thrown Obj) ClientCall} {escaping : Thrown Obj} :
    (∃ t, call world context request s = (.error escaping, t)) ↔
      ∃ raised, (request = .error raised ∨
        ∃ own, request = .ok own ∧ world.client (s.calls ++ [own]) = .rejected raised) ∧
          warn world context raised = .error escaping := by
  cases request with
  | error raised =>
    rw [call_of_error]
    constructor
    · rintro ⟨_, run⟩
      exact ⟨raised, .inl rfl, (Prod.mk.inj run).1⟩
    · rintro ⟨_, same | ⟨_, wrong, _⟩, warned⟩
      · obtain rfl := Except.error.inj same
        exact ⟨s, Prod.ext warned rfl⟩
      · cases wrong
  | ok request =>
    rw [call]
    cases answer : world.client (s.calls ++ [request]) with
    | rejected raised =>
      constructor
      · rintro ⟨_, run⟩
        exact ⟨raised, .inr ⟨request, rfl, answer⟩, (Prod.mk.inj run).1⟩
      · rintro ⟨_, wrong | ⟨_, same, answer'⟩, warned⟩
        · cases wrong
        · obtain rfl := Except.ok.inj same
          obtain rfl := Reply.rejected.inj (answer.symm.trans answer')
          exact ⟨_, Prod.ext warned rfl⟩
    | resolved commitId =>
      constructor
      · rintro ⟨_, run⟩
        cases (Prod.mk.inj run).1
      · rintro ⟨_, wrong | ⟨_, same, answer'⟩, _⟩
        · cases wrong
        · obtain rfl := Except.ok.inj same
          cases answer.symm.trans answer'

/-- What escapes from recording an event is what escapes from the guard of its checkpoint call. -/
theorem Ready.record_error_iff (ready : Ready world context version threadId s) (typed : input.eventType ∈ eventTypes)
    {escaping : Thrown Obj} : (∃ t, record world context threadId (.ok input) s = (.error escaping, t)) ↔
      ∃ raised, CallRaises world context s threadId input raised ∧ warn world context raised = .error escaping := by
  obtain ⟨built, prepares, _⟩ := ready.prepared typed
  have raises : ∀ {raised}, CallRaises world context s threadId input raised ↔
      checkpointCall world context built = .error raised ∨ ∃ request, checkpointCall world context built = .ok request ∧
        world.client (s.calls ++ [request]) = .rejected raised := by
    intro raised
    constructor
    · rintro ⟨_, _, prepares', either⟩
      obtain ⟨same, rfl⟩ := Prod.mk.inj (prepares.symm.trans prepares')
      rwa [← Except.ok.inj same] at either
    · exact fun either => ⟨built, _, prepares, either⟩
  simp only [raises]
  rw [record_eq, Fallible.bind_of_ok prepares]
  have calls : ({ s with events := s.events + 1 } : ContextState).calls = s.calls := rfl
  rw [← calls, ← call_error_iff]
  constructor
  · rintro ⟨t, run⟩
    rcases Fallible.bind_eq_error_iff.1 run with escapes | ⟨commitId, m, _, concludes⟩
    · exact ⟨t, escapes⟩
    · cases commitId <;> exact absurd (Prod.mk.inj concludes).1 nofun
  · rintro ⟨t, escapes⟩
    exact ⟨t, Fallible.bind_eq_error_iff.2 (.inl escapes)⟩

end Ready

end TypeScript

end AttowNexus
