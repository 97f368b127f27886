import AttowNexus.Model.HttpApi
import AttowNexus.Proofs.History
import Mathlib.Data.List.Forall2
import Mathlib.Data.List.ReduceOption

/-! # Sessions over both fronts

Clients may use the HTTP API and the protocol side by side. What they do to the daemon is a history of the service: a
request that is refused, does not decode or only reads leaves no trace, and every other one is one call. An HTTP
request without the token is answered the same whatever the daemon holds.
-/

namespace AttowNexus

open Fallible AppState

/-- The request of the service that a request stands for once it has decoded -/
def HttpRequest.operation (deps : External) (ambient : HttpAmbient) : HttpRequest → Option Request
  | .registerAgent body => (RegisterAgentBody.fromJson body).map fun body => .registerAgent (body.request ambient)
  | .publishDelta body => (PublishDeltaBody.fromJson body).map fun body => .publishDelta (body.request deps ambient)
  | .universalEvent value =>
      (UniversalEventBody.tryFromValue value).toOption.map fun body => .checkpoint (body.request deps value)
  | .checkpoint body => (CheckpointBody.fromJson body).map fun body => .checkpoint (body.request deps ambient)
  | .fork body => (ForkBody.fromJson body).map fun body => .fork body.request
  | .rollback body => (RollbackBody.fromJson body).map fun body => .rollback body.request
  | _ => none

/-- The call of the service that a request makes, if its token is right and it asks for one -/
def HttpCall.operation (deps : External) (config : AuthConfig) (call : HttpCall) : Option Call :=
  match validateHttp call.headers config with
  | .error _ => none
  | .ok () => (call.request.operation deps call.ambient).map fun request => ⟨request, call.ambient.ambient⟩

def Response.toJson : Response → Json
  | .registerAgent response => response.toJson
  | .publishDelta response => response.toJson
  | .checkpoint response => response.toJson
  | .rollback response => response.toJson
  | .fork response => response.toJson

/-- How the API answers with the outcome of a call -/
def HttpAmbient.respond (ambient : HttpAmbient) (outcome : Except Error Response) : Except HttpError Json :=
  (outcome.mapError (internalError ambient)).map Response.toJson

namespace Api

variable {deps : External} {config : AuthConfig} {s t : AppState} {ambient : HttpAmbient} {headers : HeaderMap}

section Handlers

variable {α β : Type}

/-- A guarded handler whose token is wrong -/
theorem guarded_error {refusal : HttpRefusal} {rest : Unit → Fallible AppState HttpError β}
    (wrong : validateHttp headers config = .error refusal) (s : AppState) :
    (guarded config headers >>= rest) s = (.error refusal.toError, s) := by
  rw [guarded, guard, wrong]
  rfl

theorem guarded_ok {rest : Unit → Fallible AppState HttpError β} (right : validateHttp headers config = .ok ()) :
    guarded config headers >>= rest = rest () := by
  rw [guarded, guard, right]
  rfl

theorem answering_of_error {x : Fallible AppState Error α} {e : Error} (failed : x s = (.error e, t)) :
    answering ambient x s = (.error (internalError ambient e), t) := by
  rw [answering, failed]
  rfl

theorem answering_of_ok {x : Fallible AppState Error α} {a : α} (passed : x s = (.ok a, t)) :
    answering ambient x s = (.ok a, t) := by
  rw [answering, passed]
  rfl

/-- What answers with the outcome of a call -/
theorem answering_respond {x : Fallible AppState Error α} {json : α → Json} (wrap : α → Response)
    (shown : ∀ a, (wrap a).toJson = json a) (s : AppState) :
    (do let a ← answering ambient x; pure (json a)) s =
      (ambient.respond ((do let a ← x; pure (wrap a)) s).1, ((do let a ← x; pure (wrap a)) s).2) := by
  rcases outcome : x s with ⟨e | a, m⟩
  · rw [bind_of_error (answering_of_error outcome), bind_of_error outcome]
    rfl
  · rw [bind_of_ok (answering_of_ok outcome), bind_of_ok outcome, ← shown]
    rfl

/-- A handler whose token is wrong answers for its body or for its token. -/
theorem posted_unauthorized {body : Option α} {operation : α → Fallible AppState Error β} {json : β → Json}
    {refusal : HttpRefusal} (wrong : validateHttp headers config = .error refusal) :
    ∃ error, ∀ s, posted config ambient headers body operation json s = (.error error, s) := by
  cases body with
  | none => exact ⟨.undecodable, fun s => rfl⟩
  | some body => exact ⟨refusal.toError, guarded_error wrong⟩

/-- Otherwise it answers with the outcome of its call. -/
theorem posted_respond {body : α} {operation : α → Fallible AppState Error β} {json : β → Json}
    (right : validateHttp headers config = .ok ()) (wrap : β → Response) (shown : ∀ b, (wrap b).toJson = json b)
    (s : AppState) :
    posted config ambient headers (some body) operation json s =
      (ambient.respond ((do let b ← operation body; pure (wrap b)) s).1,
        ((do let b ← operation body; pure (wrap b)) s).2) := by
  change (guarded config headers >>= _) s = _
  rw [guarded_ok right]
  exact answering_respond wrap shown s

/-- What reads keeps the state. -/
theorem answering_reads {x : Fallible AppState Error α} {json : α → Json} (reads : ∀ s, (x s).2 = s) (s : AppState) :
    ((do let a ← answering ambient x; pure (json a)) s).2 = s := by
  have kept := reads s
  rcases outcome : x s with ⟨e | a, m⟩
  · rw [outcome] at kept
    rw [bind_of_error (answering_of_error outcome)]
    exact kept
  · rw [outcome] at kept
    rw [bind_of_ok (answering_of_ok outcome)]
    exact kept

theorem posted_reads {body : Option α} {operation : α → Fallible AppState Error β} {json : β → Json}
    (reads : ∀ a s, (operation a s).2 = s) (s : AppState) :
    (posted config ambient headers body operation json s).2 = s := by
  cases body with
  | none => rfl
  | some body =>
    change ((guarded config headers >>= _) s).2 = s
    cases token : validateHttp headers config with
    | error refusal => rw [guarded_error token]
    | ok =>
      rw [guarded_ok token]
      exact answering_reads (reads body) s

theorem got_keeps {read : AppState → Except Error β} {json : β → Json} (s : AppState) :
    (got config ambient headers read json s).2 = s := by
  change ((guarded config headers >>= _) s).2 = s
  cases token : validateHttp headers config with
  | error refusal => rw [guarded_error token]
  | ok =>
    rw [guarded_ok token]
    exact answering_reads (fun _ => rfl) s

/-- A read that finds something is answered with it. -/
theorem got_of_ok {read : AppState → Except Error β} {json : β → Json} {value : β}
    (right : validateHttp headers config = .ok ()) (found : read s = .ok value) :
    got config ambient headers read json s = (.ok (json value), s) := by
  have answered : answering ambient (query read) s = (.ok value, s) := by
    apply answering_of_ok
    change (read s, s) = _
    rw [found]
  change (guarded config headers >>= _) s = _
  rw [guarded_ok right, bind_of_ok answered]
  rfl

/-- A handler with a body, as the call that it makes -/
theorem posted_cases {body : Option α} {operation : α → Fallible AppState Error β} {json : β → Json}
    (make : α → Request) (wrap : β → Response) (shown : ∀ b, (wrap b).toJson = json b)
    (runs : ∀ a, (do let b ← operation a; pure (wrap b)) = exec deps config.toConfig ⟨make a, ambient.ambient⟩)
    {request : HttpRequest} (asks : request.operation deps ambient = body.map make) :
    (HttpCall.operation deps config ⟨headers, request, ambient⟩ = none ∧
      ∀ s, (posted config ambient headers body operation json s).2 = s) ∨
    ∃ inner, HttpCall.operation deps config ⟨headers, request, ambient⟩ = some inner ∧
      ∀ s, posted config ambient headers body operation json s =
        (ambient.respond (exec deps config.toConfig inner s).1, (exec deps config.toConfig inner s).2) := by
  cases token : validateHttp headers config with
  | error refusal =>
    refine .inl ⟨?_, fun s => ?_⟩
    · rw [HttpCall.operation, token]
    · obtain ⟨error, same⟩ : ∃ error, ∀ s, posted config ambient headers body operation json s = (.error error, s) :=
        posted_unauthorized token
      rw [same]
  | ok =>
    cases body with
    | none =>
      refine .inl ⟨?_, fun s => rfl⟩
      rw [HttpCall.operation, token, asks]
      rfl
    | some body =>
      refine .inr ⟨⟨make body, ambient.ambient⟩, ?_, fun s => ?_⟩
      · rw [HttpCall.operation, token, asks]
        rfl
      · rw [posted_respond token wrap shown, runs]

end Handlers

variable {call : HttpCall}

/-- A request makes a call of the service and answers with its outcome, or it keeps the state. -/
theorem handle_cases (deps : External) (config : AuthConfig) (call : HttpCall) :
    (call.operation deps config = none ∧ ∀ s, (handle deps config call s).2 = s) ∨
    ∃ inner, call.operation deps config = some inner ∧ ∀ s, handle deps config call s =
      (call.ambient.respond (exec deps config.toConfig inner s).1, (exec deps config.toConfig inner s).2) := by
  obtain ⟨headers, request, ambient⟩ := call
  have idle : request.operation deps ambient = none →
      HttpCall.operation deps config ⟨headers, request, ambient⟩ = none := by
    intro none_
    rw [HttpCall.operation, none_]
    cases validateHttp headers config <;> rfl
  cases request with
  | registerAgent body =>
    dsimp only [handle, registerAgent]
    refine posted_cases (fun body => .registerAgent (body.request ambient)) Response.registerAgent ?_ ?_ ?_
    · exact fun _ => rfl
    · exact fun _ => rfl
    · rfl
  | publishDelta body =>
    dsimp only [handle, publishDelta]
    refine posted_cases (fun body => .publishDelta (body.request deps ambient)) Response.publishDelta ?_ ?_ ?_
    · exact fun _ => rfl
    · exact fun _ => rfl
    · rfl
  | checkpoint body =>
    dsimp only [handle, checkpoint]
    refine posted_cases (fun body => .checkpoint (body.request deps ambient)) Response.checkpoint ?_ ?_ ?_
    · exact fun _ => rfl
    · exact fun _ => rfl
    · rfl
  | fork body =>
    dsimp only [handle, fork]
    refine posted_cases (fun body => .fork body.request) Response.fork ?_ ?_ ?_
    · exact fun _ => rfl
    · exact fun _ => rfl
    · rfl
  | rollback body =>
    dsimp only [handle, rollback]
    refine posted_cases (fun body => .rollback body.request) Response.rollback ?_ ?_ ?_
    · exact fun _ => rfl
    · exact fun _ => rfl
    · rfl
  | universalEvent value =>
    dsimp only [handle, universalEvent]
    cases token : validateHttp headers config with
    | error refusal =>
      refine .inl ⟨?_, fun s => by rw [guarded_error token]⟩
      rw [HttpCall.operation, token]
    | ok =>
      rw [guarded_ok token]
      cases read : UniversalEventBody.tryFromValue value with
      | error refusal => exact .inl ⟨idle (by rw [HttpRequest.operation, read]; rfl), fun s => rfl⟩
      | ok body =>
        refine .inr ⟨⟨.checkpoint (body.request deps value), ambient.ambient⟩, ?_, fun s => ?_⟩
        · rw [HttpCall.operation, token, HttpRequest.operation, read]
          rfl
        · exact answering_respond Response.checkpoint (fun _ => rfl) s
  | replay body =>
    dsimp only [handle, replay]
    exact .inl ⟨idle rfl, posted_reads fun _ _ => rfl⟩
  | channelSnapshot channel =>
    dsimp only [handle, channelSnapshot]
    exact .inl ⟨idle rfl, got_keeps⟩
  | channelDeltas channel =>
    dsimp only [handle, channelDeltas]
    exact .inl ⟨idle rfl, got_keeps⟩
  | runs =>
    dsimp only [handle, runs]
    exact .inl ⟨idle rfl, got_keeps⟩
  | runCommits runId =>
    dsimp only [handle, runCommits]
    exact .inl ⟨idle rfl, got_keeps⟩
  | commit commitId =>
    dsimp only [handle, commit]
    exact .inl ⟨idle rfl, got_keeps⟩
  | diff query =>
    dsimp only [handle, diffQuery]
    exact .inl ⟨idle rfl, got_keeps⟩
  | loopWarnings =>
    dsimp only [handle, loopWarnings]
    exact .inl ⟨idle rfl, got_keeps⟩

/-- Without the token the answer says nothing of the state. -/
theorem handle_unauthorized {refusal : HttpRefusal} (wrong : validateHttp call.headers config = .error refusal) :
    ∃ error, ∀ s, handle deps config call s = (.error error, s) := by
  obtain ⟨headers, request, ambient⟩ := call
  cases request with
  | registerAgent body => exact posted_unauthorized wrong
  | publishDelta body => exact posted_unauthorized wrong
  | checkpoint body => exact posted_unauthorized wrong
  | fork body => exact posted_unauthorized wrong
  | rollback body => exact posted_unauthorized wrong
  | replay body => exact posted_unauthorized wrong
  | universalEvent value => exact ⟨refusal.toError, guarded_error wrong⟩
  | channelSnapshot channel => exact ⟨refusal.toError, guarded_error wrong⟩
  | channelDeltas channel => exact ⟨refusal.toError, guarded_error wrong⟩
  | runs => exact ⟨refusal.toError, guarded_error wrong⟩
  | runCommits runId => exact ⟨refusal.toError, guarded_error wrong⟩
  | commit commitId => exact ⟨refusal.toError, guarded_error wrong⟩
  | diff query => exact ⟨refusal.toError, guarded_error wrong⟩
  | loopWarnings => exact ⟨refusal.toError, guarded_error wrong⟩

end Api

/-- A request of either front, with its outcome -/
inductive Visit where
  | http (call : HttpCall) (outcome : Except HttpError Json)
  | rpc (event : Event)

namespace Visit

/-- One request, from start to end -/
def Step (deps : External) (config : AuthConfig) (s : AppState) (visit : Visit) (t : AppState) : Prop :=
  match visit with
  | .http call outcome => Api.handle deps config call s = (outcome, t)
  | .rpc event => AttowNexus.Step deps config.toConfig s event t

/-- The event of the service that is behind a request, if there is one -/
def Shows (deps : External) (config : AuthConfig) : Visit → Option Event → Prop
  | .http call _, none => call.operation deps config = none
  | .http call outcome, some event =>
      call.operation deps config = some event.call ∧ outcome = call.ambient.respond event.outcome
  | .rpc _, none => False
  | .rpc event, some other => event = other

/-- The request carries the token, or is one of the protocol. -/
def authorized (config : AuthConfig) : Visit → Bool
  | .http call _ => (validateHttp call.headers config).toOption.isSome
  | .rpc _ => true

/-- The answer would be the same refusal in every state, and leaves the state as it is. -/
def Blind (deps : External) (config : AuthConfig) : Visit → Prop
  | .http call outcome => ∃ error, outcome = .error error ∧ ∀ s, Api.handle deps config call s = (.error error, s)
  | .rpc _ => False

end Visit

/-- A run of requests of both fronts on a daemon that started on an empty database -/
abbrev Session (deps : External) (config : AuthConfig) (visits : List Visit) (s : AppState) : Prop :=
  Run (Visit.Step deps config) .initial visits s

namespace Session

variable {deps : External} {config : AuthConfig} {s t : AppState} {visits : List Visit} {visit : Visit}

/-- A request is an event of the service, or it keeps the state. -/
theorem step_shows (step : visit.Step deps config s t) :
    (visit.Shows deps config none ∧ t = s) ∨
      ∃ event, visit.Shows deps config (some event) ∧ Step deps config.toConfig s event t := by
  cases visit with
  | rpc event => exact .inr ⟨event, rfl, step⟩
  | http call outcome =>
    have run : Api.handle deps config call s = (outcome, t) := step
    rcases Api.handle_cases deps config call with ⟨idle, keeps⟩ | ⟨inner, asks, answers⟩
    · refine .inl ⟨idle, ?_⟩
      have kept := keeps s
      rw [run] at kept
      exact kept
    · rw [answers] at run
      obtain ⟨answered, rfl⟩ := Prod.mk.inj run
      exact .inr ⟨⟨inner, _⟩, ⟨asks, answered.symm⟩, rfl⟩

/-- The events of a run: the requests that make a call are its events, and the others leave no trace. -/
theorem events_of_visits (run : Run (Visit.Step deps config) s visits t) :
    ∃ trace, List.Forall₂ (Visit.Shows deps config) visits trace ∧
      Run (Step deps config.toConfig) s trace.reduceOption t := by
  induction run with
  | nil => exact ⟨[], .nil, .nil⟩
  | @snoc visits t u visit _ step ih =>
    obtain ⟨trace, aligned, events⟩ := ih
    rcases step_shows step with ⟨idle, rfl⟩ | ⟨event, asks, took⟩
    · refine ⟨trace ++ [none], List.rel_append aligned (.cons idle .nil), ?_⟩
      rw [List.reduceOption_append]
      simpa using events
    · refine ⟨trace ++ [some event], List.rel_append aligned (.cons asks .nil), ?_⟩
      rw [List.reduceOption_append]
      exact .snoc events took

/-- A session is a history of the service. -/
theorem history_of_session (session : Session deps config visits s) :
    ∃ trace, List.Forall₂ (Visit.Shows deps config) visits trace ∧ History deps config.toConfig trace.reduceOption s :=
  events_of_visits session

theorem reachable (session : Session deps config visits s) : Reachable deps config.toConfig s := by
  obtain ⟨trace, _, history⟩ := events_of_visits session
  exact ⟨_, history⟩

section Sample

private def tokenConfig : AuthConfig := { Sample.config with requireAuth := true, authToken := some "token" }

private def httpAmbient : HttpAmbient := ⟨.calm ⟨1, 0⟩ 1, id, fun _ => 0, fun _ => ⟨1, 0⟩, fun _ => "disk full"⟩

private def withToken (token : String) (request : HttpRequest) : HttpCall :=
  ⟨[("authorization", utf8Bytes ("Bearer " ++ token))], request, httpAmbient⟩

private def registration : HttpRequest := .registerAgent (.object [("agent_id", .string "a"), ("run_id", .string "r")])

/-- A registration with the token -/
private def admitted : HttpCall := withToken "token" registration

/-- A registration with a wrong token -/
private def turnedAway : HttpCall := withToken "guess" registration

private def afterOne : AppState := (Api.handle .sample tokenConfig admitted .initial).2

private def bothVisits : List Visit :=
  [.http admitted (Api.handle .sample tokenConfig admitted .initial).1,
    .http turnedAway (Api.handle .sample tokenConfig turnedAway afterOne).1]

private theorem session_both :
    Session .sample tokenConfig bothVisits (Api.handle .sample tokenConfig turnedAway afterOne).2 :=
  .snoc (.snoc .nil rfl) rfl

theorem history_of_session_both : ∃ trace : List (Option Event), trace.length = 2 ∧
    History .sample tokenConfig.toConfig trace.reduceOption (Api.handle .sample tokenConfig turnedAway afterOne).2 := by
  obtain ⟨trace, aligned, history⟩ := history_of_session session_both
  exact ⟨trace, aligned.length_eq.symm, history⟩

end Sample

theorem step_blind (unauthorized : visit.authorized config = false) (step : visit.Step deps config s t) :
    visit.Blind deps config ∧ t = s := by
  cases visit with
  | rpc event => cases unauthorized
  | http call outcome =>
    have run : Api.handle deps config call s = (outcome, t) := step
    cases token : validateHttp call.headers config with
    | ok =>
      rw [Visit.authorized, token] at unauthorized
      cases unauthorized
    | error refusal =>
      obtain ⟨error, same⟩ := Api.handle_unauthorized token
      rw [same] at run
      obtain ⟨rfl, rfl⟩ := Prod.mk.inj run
      exact ⟨⟨error, rfl, same⟩, rfl⟩

/-- Requests without the token might as well not have been made: without them the session goes the same way, and the
refusals that they got are those of every state. -/
theorem session_purged (session : Session deps config visits s) :
    Session deps config (visits.filter (Visit.authorized config)) s ∧
      ∀ visit ∈ visits, visit.authorized config = false → visit.Blind deps config := by
  induction session with
  | nil => exact ⟨.nil, fun _ absent => absurd absent List.not_mem_nil⟩
  | @snoc visits s t visit _ step ih =>
    obtain ⟨rest, blind⟩ := ih
    rw [List.filter_append]
    cases token : visit.authorized config with
    | true =>
      refine ⟨?_, fun other member wrong => ?_⟩
      · rw [List.filter_cons_of_pos token, List.filter_nil]
        exact .snoc rest step
      · rcases List.mem_append.mp member with old | new
        · exact blind other old wrong
        · rw [List.mem_singleton.mp new, token] at wrong
          cases wrong
    | false =>
      obtain ⟨here, rfl⟩ := step_blind token step
      refine ⟨?_, fun other member wrong => ?_⟩
      · rw [List.filter_cons_of_neg (by simp [token]), List.filter_nil, List.append_nil]
        exact rest
      · rcases List.mem_append.mp member with old | new
        · exact blind other old wrong
        · exact List.mem_singleton.mp new ▸ here

/-- The registration alone leads to where both requests led. -/
theorem session_purged_both :
    (bothVisits.filter (Visit.authorized tokenConfig)).length = 1 ∧
    Session .sample tokenConfig (bothVisits.filter (Visit.authorized tokenConfig))
      (Api.handle .sample tokenConfig turnedAway afterOne).2 := by
  obtain ⟨rest, _⟩ := session_purged session_both
  exact ⟨by decide, rest⟩

end Session

end AttowNexus
