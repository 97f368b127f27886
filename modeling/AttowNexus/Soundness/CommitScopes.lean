import AttowNexus.Proofs.Frame
import AttowNexus.Proofs.Naming

/-! # Which scopes a commit needs

With authentication on, an operation is held against the scopes of its agent's last registration. A checkpoint
needs the checkpoint scope of its channel, and a publish the write scope, whether it is stored or not.
-/

namespace AttowNexus

open AppState

variable {deps : External} {config : Config} {s t : AppState} {events : List Event}

/-- The scopes granted to the agent if the event is its registration -/
def Event.granted (config : Config) (agentId : String) (event : Event) : Option (List PermissionScope) :=
  match event.call.request with
  | .registerAgent request =>
      if request.agentId = agentId then some (grantRequested config request.requestedScopes) else none
  | _ => none

/-- The scopes of the agent's most recent registration, none before the first. -/
def grantedScopes (config : Config) (events : List Event) (agentId : String) : List PermissionScope :=
  (events.reverse.findSome? (·.granted config agentId)).getD []

/-- The scope that a request needs for a commit on the channel. -/
def requiredScope (channel : String) : Request → String
  | .checkpoint _ => channelCheckpoint channel
  | _ => channelWrite channel

/-- A step persists a commit when it stores it, and when it succeeds in recording it again. -/
def PersistedBy (deps : External) (config : Config) (s : AppState) (event : Event) (t : AppState) (commit : Commit) : Prop :=
  commit ∈ t.store.tables.stored ∧ commit ∉ s.store.tables.stored ∨
    commit ∈ recordedBy deps config event.call s ∧ event.Succeeded

theorem grantsAfter_lookup {event : Event} {agentId : String} {grants : HashMap String (List PermissionScope)} :
    (grantsAfter config event.call.request grants).lookup agentId =
      (event.granted config agentId).or (grants.lookup agentId) := by
  obtain ⟨⟨request, ambient⟩, outcome⟩ := event
  cases request with
  | registerAgent request =>
    simp only [grantsAfter, Event.granted]
    by_cases same : request.agentId = agentId
    · rw [if_pos same, same, Finmap.lookup_insert, Option.some_or]
    · rw [if_neg same, Finmap.lookup_insert_of_ne _ (Ne.symm same), Option.none_or]
  | publishDelta => rfl
  | checkpoint => rfl
  | rollback => rfl
  | fork => rfl

/-- The grants in the state are those of the most recent registration. -/
theorem grants_eq_grantedScopes (history : History deps config events s) (agentId : String) :
    (s.grants.lookup agentId).getD [] = grantedScopes config events agentId := by
  have found : s.grants.lookup agentId = events.reverse.findSome? (·.granted config agentId) := by
    induction history with
    | nil => rfl
    | snoc before step ih =>
      rename_i earlier middle finish event
      rw [step.grants, grantsAfter_lookup, ih, List.reverse_append, List.reverse_singleton, List.singleton_append,
        List.findSome?_cons]
      cases event.granted config agentId <;> rfl
  rw [found, grantedScopes]

/-- A commit that was persisted is the commit of its request, and the request was admitted. -/
theorem permitted_of_persistedBy {event : Event} {commit : Commit} (step : Step deps config s event t)
    (persisted : PersistedBy deps config s event t commit) :
    Permitted config s commit.agentId (requiredScope commit.channel event.call.request) := by
  have recorded : commit ∈ recordedBy deps config event.call s := by
    rcases persisted with ⟨member, new⟩ | ⟨recorded, _⟩
    · exact (step.mem_stored member).resolve_left new
    · exact recorded
  have effective : t.ledger ≠ s.ledger ∨ event.Succeeded := by
    rcases persisted with ⟨member, new⟩ | ⟨_, succeeded⟩
    · refine .inl fun same => new ?_
      rwa [show s.store.tables = t.store.tables from (congrArg Ledger.tables same).symm]
    · exact .inr succeeded
  obtain ⟨⟨request, ambient⟩, outcome⟩ := event
  cases request with
  | publishDelta request =>
    obtain ⟨r, run, rfl⟩ := step_publishDelta step
    rcases publishDeltaInner_cases run with ⟨_, ⟨error, rfl⟩, same⟩ | ⟨delta, admits, away, _⟩ | ⟨delta, admits, persists, _⟩
    · exact absurd effective (not_or.mpr ⟨not_not.mpr same, by rintro ⟨_, ⟨⟩⟩⟩)
    · simp only [recordedBy, admits.given, if_pos (not_persists_iff.2 away)] at recorded
      exact absurd recorded List.not_mem_nil
    · simp only [recordedBy, admits.given, if_neg fun away => not_persists_iff.1 away persists] at recorded
      rw [List.mem_singleton.mp recorded]
      exact admits.permitted
  | checkpoint request =>
    obtain ⟨r, run, rfl⟩ := step_checkpoint step
    rcases checkpointInner_cases run with ⟨_, ⟨error, rfl⟩, same⟩ | ⟨admits, _⟩
    · exact absurd effective (not_or.mpr ⟨not_not.mpr same, by rintro ⟨_, ⟨⟩⟩⟩)
    · rw [List.mem_singleton.mp recorded]
      exact admits.permitted
  | registerAgent => exact absurd recorded List.not_mem_nil
  | rollback => exact absurd recorded List.not_mem_nil
  | fork => exact absurd recorded List.not_mem_nil

/-- With authentication on, the last registration of the agent of a persisted commit granted a scope that covers the
checkpoint of its channel, for a checkpoint, or the writing of its channel, for a publish. -/
theorem persisted_commit_in_scope (auth : config.requireAuth = true) (history : History deps config events s)
    {event : Event} (step : Step deps config s event t) {commit : Commit}
    (persisted : PersistedBy deps config s event t commit) :
    ∃ scope ∈ grantedScopes config events commit.agentId,
      scopeMatches scope.value (requiredScope commit.channel event.call.request) = true := by
  have permitted := permitted_of_persistedBy step persisted
  rw [Permitted, auth, grants_eq_grantedScopes history, or_iff_right (by simp), isAllowed, auth,
    if_neg (by simp)] at permitted
  exact List.any_eq_true.mp permitted

section Sample

private def secured : Config := { Sample.config with requireAuth := true }

private def registering (scopes : List String) : Call :=
  ⟨.registerAgent { (default : RegisterAgentRequest) with agentId := "agent", requestedScopes := scopes.map (⟨·⟩) },
    .calm ⟨1, 0⟩ 1⟩

/-- A registration and one more call. -/
private def afterCall (scopes : List String) (call : Call) : AppState := runCalls .sample secured [registering scopes, call]

private def registered (scopes : List String) : AppState := runCalls .sample secured [registering scopes]

private def eventOf (s : AppState) (call : Call) : Event := ⟨call, (exec .sample secured call s).1⟩

private theorem registered_history (scopes : List String) :
    History .sample secured [eventOf .initial (registering scopes)] (registered scopes) := .single rfl

/-- The agent and the channel of each stored commit. -/
private def storedNames (state : AppState) : List (String × String) :=
  state.store.tables.stored.map fun commit => (commit.agentId, commit.channel)

/-- An agent that may only write stores a commit. -/
theorem commit_without_checkpoint_scope :
    secured.requireAuth = true ∧
    Reachable .sample secured (afterCall ["channel:write:*"] (Sample.publish "r" 1 1 [])) ∧
    storedNames (registered ["channel:write:*"]) = [] ∧
    storedNames (afterCall ["channel:write:*"] (Sample.publish "r" 1 1 [])) = [("agent", "channel")] ∧
    ∀ scope ∈ grantedScopes secured [eventOf .initial (registering ["channel:write:*"])] "agent",
      scopeMatches scope.value (channelCheckpoint "channel") = false :=
  ⟨rfl, reachable_runCalls _ _ _, by decide, by decide, by decide⟩

/-- A checkpoint under a scope with a star. -/
theorem persisted_commit_in_scope_star :
    ∃ commit ∈ (afterCall ["channel:checkpoint:ch*"] (Sample.checkpoint "r" 1)).store.tables.stored,
      ∃ scope ∈ grantedScopes secured [eventOf .initial (registering ["channel:checkpoint:ch*"])] commit.agentId,
        scopeMatches scope.value (channelCheckpoint commit.channel) = true := by
  have names : storedNames (afterCall ["channel:checkpoint:ch*"] (Sample.checkpoint "r" 1)) = [("agent", "channel")] := by
    decide
  have before : (registered ["channel:checkpoint:ch*"]).store.tables.stored.length = 0 := by decide
  obtain ⟨commit, only, _⟩ := List.map_eq_singleton_iff.mp names
  have member : commit ∈ (afterCall ["channel:checkpoint:ch*"] (Sample.checkpoint "r" 1)).store.tables.stored := by
    rw [only]
    exact List.mem_singleton_self _
  have new : commit ∉ (registered ["channel:checkpoint:ch*"]).store.tables.stored := by
    rw [List.length_eq_zero_iff.mp before]
    exact List.not_mem_nil
  have step : Step .sample secured (registered ["channel:checkpoint:ch*"])
      (eventOf (registered ["channel:checkpoint:ch*"]) (Sample.checkpoint "r" 1))
      (afterCall ["channel:checkpoint:ch*"] (Sample.checkpoint "r" 1)) := rfl
  exact ⟨commit, member, persisted_commit_in_scope rfl (registered_history _) step (.inl ⟨member, new⟩)⟩

end Sample

end AttowNexus
