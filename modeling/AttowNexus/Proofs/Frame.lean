import AttowNexus.Proofs.Accepted
import AttowNexus.Proofs.Artifacts

/-! # What calls leave alone

Grants change with a registration only. Artifacts and their files change with the put of a payload that is too
large to stay inline, and the rest of a call does not touch them.
-/

namespace AttowNexus

open Fallible AppState

namespace SqliteStore

/-- The artifacts and their files are the same. -/
def SameDisk (s t : SqliteStore) : Prop := t.artifacts = s.artifacts ∧ t.files = s.files

namespace SameDisk

theorem refl (s : SqliteStore) : SameDisk s s := ⟨rfl, rfl⟩

theorem trans (s t u : SqliteStore) (first : SameDisk s t) (second : SameDisk t u) : SameDisk s u :=
  ⟨second.1.trans first.1, second.2.trans first.2⟩

theorem of_untouched {α : Type} {x : Fallible SqliteStore Error α} (keeps : Keeps Untouched x) : Keeps SameDisk x := by
  intro s
  rw [show (x s).2 = s from keeps s]
  exact .refl s

end SameDisk

variable {deps : External} {config : Config} {ambient : Ambient} {s t : SqliteStore} {allowed : Bytes → Prop}

theorem Readable.of_sameDisk (readable : Readable deps config allowed s) (same : SameDisk s t) :
    Readable deps config allowed t := by
  obtain ⟨artifacts, files⟩ := same
  refine ⟨artifacts ▸ readable.path, fun row member => ?_⟩
  obtain ⟨bytes, given, named, serves⟩ := readable.serves row (artifacts ▸ member)
  exact ⟨bytes, given, named, by rwa [Serves, files]⟩

theorem attempt_keepsDisk (call : StoreCall) : Keeps SameDisk (ambient.attempt call) := .ensure .refl _ _

theorem appendCommit_keepsDisk (commit : Commit) : Keeps SameDisk (appendCommit ambient commit) :=
  .bind .trans (attempt_keepsDisk _) fun _ => .modify fun _ => ⟨rfl, rfl⟩

theorem setHead_keepsDisk (lineage : Lineage) (commitId : String) : Keeps SameDisk (setHead ambient lineage commitId) :=
  .bind .trans (attempt_keepsDisk _) fun _ => .modify fun _ => ⟨rfl, rfl⟩

theorem getHead_keepsDisk (lineage : Lineage) : Keeps SameDisk (getHead ambient lineage) :=
  .bind .trans (attempt_keepsDisk _) fun _ => .bind .trans (.get .refl) fun _ => .pure .refl _

theorem appendLoopWarning_keepsDisk (warning : LoopWarning) : Keeps SameDisk (appendLoopWarning ambient warning) :=
  .bind .trans (attempt_keepsDisk _) fun _ => .modify fun _ => ⟨rfl, rfl⟩

theorem appendEvent_keepsDisk (eventType : String) (payloadJson : Bytes) :
    Keeps SameDisk (appendEvent ambient eventType payloadJson) := by
  refine .bind .trans (attempt_keepsDisk _) fun _ => .bind .trans (.modify fun _ => ⟨rfl, rfl⟩) fun _ =>
    .ite ?_ (.pure .refl _)
  exact .bind .trans (attempt_keepsDisk _) fun _ => .modify fun _ => ⟨rfl, rfl⟩

theorem rollback_keepsDisk (dag : DagIndex) (request : RollbackRequest) :
    Keeps SameDisk (rollback deps ambient dag request) :=
  .bind .trans (.of_untouched (planRollback_keeps _ _)) fun _ => .bind .trans (setHead_keepsDisk _ _) fun _ =>
    .bind .trans (appendEvent_keepsDisk _ _) fun _ => .pure .refl _

theorem fork_keepsDisk (request : ForkRequest) : Keeps SameDisk (fork deps ambient request) :=
  .bind .trans (.of_untouched (getCommit_keeps _ _)) fun _ => .bind .trans (.lift .refl _) fun _ =>
    .bind .trans (setHead_keepsDisk _ _) fun _ => .bind .trans (appendEvent_keepsDisk _ _) fun _ => .pure .refl _

end SqliteStore

open SqliteStore

/-- Neither the grants nor the artifacts change. -/
def Spares (s t : AppState) : Prop := t.grants = s.grants ∧ SameDisk s.store t.store

namespace Spares

theorem refl (s : AppState) : Spares s s := ⟨rfl, .refl _⟩

theorem trans (s t u : AppState) (first : Spares s t) (second : Spares t u) : Spares s u :=
  ⟨second.1.trans first.1, .trans _ _ _ first.2 second.2⟩

theorem of_run {s t : AppState} {α : Type} {x : Fallible AppState Error α} (keeps : Keeps Spares x) {r : Except Error α}
    (run : x s = (r, t)) : Spares s t := by
  have kept := keeps s
  rwa [run] at kept

theorem onStore {α : Type} {x : Fallible SqliteStore Error α} (keeps : Keeps SameDisk x) : Keeps Spares (onStore x) :=
  fun s => ⟨rfl, keeps s.store⟩

end Spares

section Calls

variable {deps : External} {config : Config} {ambient : Ambient} {s t : AppState}

theorem resolveParents_spares (delta : StateDelta) (explicitParents : List String) :
    Keeps Spares (resolveParents ambient delta explicitParents) :=
  .ite (.pure .refl _) (.bind .trans (.onStore (getHead_keepsDisk _)) fun _ => .pure .refl _)

theorem appendToDag_spares (commit : Commit) : Keeps Spares (appendToDag commit) :=
  .bind .trans (.get .refl) fun _ => .bind .trans (.lift .refl _) fun _ => .modify .refl

theorem persistCommit_spares (commit : Commit) : Keeps Spares (persistCommit ambient commit) :=
  .bind .trans (appendToDag_spares _) fun _ => .bind .trans (.onStore (appendCommit_keepsDisk _)) fun _ =>
    .onStore (setHead_keepsDisk _ _)

theorem reportLoop_spares (found : Option LoopWarning) : Keeps Spares (reportLoop deps ambient found) := by
  cases found with
  | none => exact .pure Spares.refl _
  | some warning =>
    exact .bind Spares.trans (.onStore (appendLoopWarning_keepsDisk _)) fun _ => .modify Spares.refl

theorem inspectLoop_spares (commit : Commit) : Keeps Spares (inspectLoop deps config ambient commit) :=
  .ite (.pure .refl _) (.bind .trans (.get .refl) fun _ => .bind .trans (.modify .refl) fun _ => reportLoop_spares _)

theorem record_spares (plan : Plan) : Keeps Spares (record deps config ambient plan) :=
  .bind .trans (persistCommit_spares _) fun _ => .bind .trans (.modify .refl) fun _ => inspectLoop_spares _

theorem rollbackInner_spares (request : RollbackRequest) : Keeps Spares (rollbackInner deps ambient request) :=
  .bind .trans (.get .refl) fun _ => .onStore (rollback_keepsDisk _ _)

theorem forkInner_spares (request : ForkRequest) : Keeps Spares (forkInner deps ambient request) :=
  .onStore (fork_keepsDisk _)

end Calls

section Payloads

variable {deps : External} {config : Config} {ambient : Ambient} {s t : AppState} {given : Payload}

/-- The payload that a request hands in, or else the empty object. -/
def Request.payload (deps : External) : Request → Option Payload
  | .checkpoint request => some (request.payload.getD (emptyJsonPayload deps))
  | .publishDelta request => request.delta.map fun delta => delta.payload.getD (emptyJsonPayload deps)
  | _ => none

/-- The data of a payload once it is redacted. -/
def redactedBytes (deps : External) (config : Config) (given : Payload) : Bytes :=
  (redactedPayload deps config (some given)).1.data

/-- The payload is too large to stay inline. -/
def Moves (deps : External) (config : Config) (given : Payload) : Prop :=
  config.maxInlinePayloadBytes < (redactedBytes deps config given).length

/-- At most one put of the redacted data. -/
def Stows (deps : External) (config : Config) (ambient : Ambient) (given : Payload) (s t : SqliteStore) : Prop :=
  SameDisk s t ∨ Moves deps config given ∧ ∃ q m,
    putArtifact deps config ambient (redactedBytes deps config given) "application/octet-stream" s = (q, m) ∧
      SameDisk m t

/-- The artifact of a payload that moves has a row. -/
def Stowed (deps : External) (config : Config) (given : Payload) (store : SqliteStore) : Prop :=
  Moves deps config given → artifactId deps (redactedBytes deps config given) ∈ store.artifactIds

theorem Stows.of_same {s m t : SqliteStore} (stows : Stows deps config ambient given s m) (same : SameDisk m t) :
    Stows deps config ambient given s t := by
  rcases stows with kept | ⟨moves, q, after, put, kept⟩
  · exact .inl (kept.trans _ _ _ same)
  · exact .inr ⟨moves, q, after, put, kept.trans _ _ _ same⟩

theorem Stowed.of_same {s t : SqliteStore} (stowed : Stowed deps config given s) (same : SameDisk s t) :
    Stowed deps config given t := by
  intro moves
  rw [artifactIds, same.1]
  exact stowed moves

theorem preparePayload_stows {r : Except Error (Payload × RedactionReport × List ArtifactRef)}
    (run : preparePayload deps config ambient (some given) s = (r, t)) :
    t.grants = s.grants ∧ Stows deps config ambient given s.store t.store ∧
      ((∃ out, r = .ok out) → Stowed deps config given t.store) := by
  rw [preparePayload] at run
  by_cases moves : Moves deps config given
  · have large : config.maxInlinePayloadBytes < (redactedPayload deps config (some given)).1.data.length := moves
    simp only [if_pos large] at run
    rcases bind_cases run with ⟨e, put, rfl⟩ | ⟨artifact, m, put, rest⟩
    · obtain ⟨m, wrote, rfl⟩ := onStore_eq_iff.1 put
      exact ⟨rfl, .inr ⟨moves, _, _, wrote, .refl _⟩, fun ok => by cases ok.choose_spec⟩
    · obtain ⟨_, rfl⟩ := pure_eq_iff.1 rest
      obtain ⟨m, wrote, rfl⟩ := onStore_eq_iff.1 put
      refine ⟨rfl, .inr ⟨moves, _, _, wrote, .refl _⟩, fun _ _ => ?_⟩
      obtain ⟨rfl, listed⟩ := putArtifact_lists wrote
      exact listed
  · have small : ¬ config.maxInlinePayloadBytes < (redactedPayload deps config (some given)).1.data.length := moves
    simp only [if_neg small] at run
    obtain ⟨_, rfl⟩ := pure_eq_iff.1 run
    exact ⟨rfl, .inl (.refl _), fun _ moved => absurd moved moves⟩

theorem ensureChannelPermission_end {agentId scope : String} {r : Except Error Unit}
    (run : ensureChannelPermission config agentId scope s = (r, t)) : t = s := by
  rw [ensureChannelPermission] at run
  split_ifs at run
  · exact (pure_eq_iff.1 run).2
  · rcases bind_cases run with ⟨_, read, _⟩ | ⟨_, _, read, rest⟩
    · exact (get_eq_iff.1 read).2
    · rw [(ensure_eq_iff.1 rest).2, (get_eq_iff.1 read).2]

/-- A plan prepares its payload after the permission check, and is done with the artifacts then. -/
private theorem stows_of_plan {α : Type} {agentId scope : String}
    {rest : Payload × RedactionReport × List ArtifactRef → Fallible AppState Error α} {r : Except Error α}
    (keeps : ∀ out, Keeps Spares (rest out))
    (run : (ensureChannelPermission config agentId scope >>= fun _ =>
      preparePayload deps config ambient (some given) >>= rest) s = (r, t)) :
    t.grants = s.grants ∧ Stows deps config ambient given s.store t.store ∧
      ((∃ out, r = .ok out) → Stowed deps config given t.store) := by
  rcases bind_cases run with ⟨e, denied, rfl⟩ | ⟨_, m, permitted, after⟩
  · obtain rfl := ensureChannelPermission_end denied
    exact ⟨rfl, .inl (.refl _), fun ok => absurd ok.choose_spec nofun⟩
  · obtain rfl := ensureChannelPermission_end permitted
    rcases bind_cases after with ⟨e, prepared, rfl⟩ | ⟨out, m, prepared, last⟩
    · obtain ⟨grants, stows, _⟩ := preparePayload_stows prepared
      exact ⟨grants, stows, fun ok => absurd ok.choose_spec nofun⟩
    · obtain ⟨grants, stows, stowed⟩ := preparePayload_stows prepared
      obtain ⟨grants', same⟩ := Spares.of_run (keeps out) last
      exact ⟨grants'.trans grants, stows.of_same same, fun _ => (stowed ⟨out, rfl⟩).of_same same⟩

theorem planPublish_stows {request : PublishDeltaRequest} {r : Except Error PublishPlan}
    (submitted : (Request.publishDelta request).payload deps = some given)
    (run : planPublish deps config ambient request s = (r, t)) :
    t.grants = s.grants ∧ Stows deps config ambient given s.store t.store ∧
      ((∃ plan, r = .ok plan) → Stowed deps config given t.store) := by
  obtain ⟨delta, handed, rfl⟩ := Option.map_eq_some_iff.mp submitted
  rw [planPublish, handed] at run
  refine stows_of_plan (fun out => ?_) run
  exact .ite (.pure .refl _) (.bind .trans (resolveParents_spares _ _) fun _ => .pure .refl _)

theorem planCheckpoint_stows {request : CheckpointRequest} {r : Except Error Plan}
    (submitted : (Request.checkpoint request).payload deps = some given)
    (run : planCheckpoint deps config ambient request s = (r, t)) :
    t.grants = s.grants ∧ Stows deps config ambient given s.store t.store ∧
      ((∃ plan, r = .ok plan) → Stowed deps config given t.store) := by
  obtain rfl := Option.some.inj submitted
  refine stows_of_plan (fun out => ?_) run
  exact .bind .trans (resolveParents_spares _ _) fun _ => .pure .refl _

/-- Recording what was planned leaves grants and artifacts alone, and a plan that fails leaves the ledger alone. -/
private theorem stows_of_call {α β : Type} {plan : Fallible AppState Error α} {rest : α → Fallible AppState Error β}
    {r : Except Error β} (ledger : Keeps SameLedger plan) (keeps : ∀ out, Keeps Spares (rest out))
    (planned : ∀ q m, plan s = (q, m) → m.grants = s.grants ∧ Stows deps config ambient given s.store m.store ∧
      ((∃ out, q = .ok out) → Stowed deps config given m.store))
    (run : (plan >>= rest) s = (r, t)) :
    t.grants = s.grants ∧ Stows deps config ambient given s.store t.store ∧
      (t.ledger = s.ledger ∨ Stowed deps config given t.store) := by
  rcases bind_cases run with ⟨e, failed, _⟩ | ⟨out, m, went, last⟩
  · obtain ⟨grants, stows, _⟩ := planned _ _ failed
    exact ⟨grants, stows, .inl (SameLedger.of_run ledger failed)⟩
  · obtain ⟨grants, stows, stowed⟩ := planned _ _ went
    obtain ⟨grants', same⟩ := Spares.of_run (keeps out) last
    exact ⟨grants'.trans grants, stows.of_same same, .inr ((stowed ⟨out, rfl⟩).of_same same)⟩

/-- A checkpoint or a publish puts at most the redacted data of its payload, before it touches the ledger. -/
theorem Step.stows {event : Event} (submitted : event.call.request.payload deps = some given)
    (step : Step deps config s event t) :
    t.grants = s.grants ∧ Stows deps config event.call.ambient given s.store t.store ∧
      (t.ledger = s.ledger ∨ Stowed deps config given t.store) := by
  obtain ⟨⟨request, ambient⟩, outcome⟩ := event
  cases request with
  | publishDelta request =>
    obtain ⟨_, run, _⟩ := step_publishDelta step
    refine stows_of_call (planPublish_keeps request) (fun plan => ?_) (fun _ _ => planPublish_stows submitted) run
    cases plan with
    | broadcastOnly delta report => exact .bind Spares.trans (.modify Spares.refl) fun _ => .pure Spares.refl _
    | durable plan => exact .bind Spares.trans (record_spares plan) fun _ => .pure Spares.refl _
  | checkpoint request =>
    obtain ⟨_, run, _⟩ := step_checkpoint step
    refine stows_of_call (planCheckpoint_keeps request) (fun plan => ?_) (fun _ _ => planCheckpoint_stows submitted) run
    exact .bind Spares.trans (record_spares plan) fun _ => .pure Spares.refl _
  | registerAgent => exact absurd submitted nofun
  | rollback => exact absurd submitted nofun
  | fork => exact absurd submitted nofun

/-- The grants after a request -/
def grantsAfter (config : Config) (request : Request) (grants : HashMap String (List PermissionScope)) :
    HashMap String (List PermissionScope) :=
  match request with
  | .registerAgent request => grants.insert request.agentId (grantRequested config request.requestedScopes)
  | _ => grants

/-- A call without a payload leaves the artifacts alone, and the grants too unless it registers an agent. -/
theorem Step.without_payload {event : Event} (absent : event.call.request.payload deps = none)
    (step : Step deps config s event t) :
    t.grants = grantsAfter config event.call.request s.grants ∧ SameDisk s.store t.store := by
  obtain ⟨⟨request, ambient⟩, outcome⟩ := event
  cases request with
  | registerAgent request =>
    obtain ⟨_, run, _⟩ := Fallible.map_eq_iff.1 step
    cases run
    exact ⟨rfl, .refl _⟩
  | publishDelta request =>
    obtain ⟨_, run, _⟩ := step_publishDelta step
    have missing : request.delta = none := Option.map_eq_none_iff.mp absent
    rw [publishDeltaInner, planPublish, missing] at run
    cases run
    exact Spares.refl _
  | checkpoint request => cases absent
  | rollback request =>
    obtain ⟨_, run, _⟩ := step_rollback step
    exact Spares.of_run (rollbackInner_spares request) run
  | fork request =>
    obtain ⟨_, run, _⟩ := step_fork step
    exact Spares.of_run (forkInner_spares request) run

/-- A registration sets the grants of its agent; nothing else changes any. -/
theorem Step.grants {event : Event} (step : Step deps config s event t) :
    t.grants = grantsAfter config event.call.request s.grants := by
  cases submitted : event.call.request.payload deps with
  | none => exact (step.without_payload submitted).1
  | some given =>
    rw [(step.stows submitted).1]
    cases kind : event.call.request with
    | registerAgent =>
      rw [kind] at submitted
      exact absurd submitted nofun
    | publishDelta => rfl
    | checkpoint => rfl
    | rollback => rfl
    | fork => rfl

theorem payload_of_mem_recordedBy {call : Call} {commit : Commit} (member : commit ∈ recordedBy deps config call s) :
    ∃ given, call.request.payload deps = some given := by
  obtain ⟨request, ambient⟩ := call
  cases request with
  | publishDelta request =>
    cases handed : request.delta with
    | none =>
      simp only [recordedBy, handed] at member
      exact absurd member List.not_mem_nil
    | some delta => exact ⟨_, by rw [Request.payload, handed, Option.map_some]⟩
  | checkpoint request => exact ⟨_, rfl⟩
  | registerAgent => exact absurd member List.not_mem_nil
  | rollback => exact absurd member List.not_mem_nil
  | fork => exact absurd member List.not_mem_nil

/-- The commit of a request has the prepared payload and no other. -/
theorem recordedBy_payload {call : Call} {given : Payload} {commit : Commit}
    (submitted : call.request.payload deps = some given) (member : commit ∈ recordedBy deps config call s) :
    commit.stateDelta = some (preparedPayload deps config (some given)).1 ∧ commit.messagesDelta = none := by
  obtain ⟨request, ambient⟩ := call
  cases request with
  | publishDelta request =>
    cases handed : request.delta with
    | none =>
      rw [Request.payload, handed] at submitted
      cases submitted
    | some delta =>
      rw [Request.payload, handed, Option.map_some, Option.some.injEq] at submitted
      simp only [recordedBy, handed] at member
      split_ifs at member
      · exact absurd member List.not_mem_nil
      · rw [List.mem_singleton.mp member, ← submitted]
        exact ⟨rfl, rfl⟩
  | checkpoint request =>
    rw [List.mem_singleton.mp member, ← Option.some.inj submitted]
    exact ⟨rfl, rfl⟩
  | registerAgent => cases submitted
  | rollback => cases submitted
  | fork => cases submitted

end Payloads

end AttowNexus
