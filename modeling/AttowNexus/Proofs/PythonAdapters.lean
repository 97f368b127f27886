import AttowNexus.Model.CrewAI
import AttowNexus.Proofs.PythonEvents

/-! # What an adapter records

Building an event and registering a thread write no commit. A checkpoint either leaves the last commits as they are or
records one commit, with the parents of its event or else the last commit of its thread, and makes it the last one.
-/

namespace AttowNexus

namespace Python

variable {Obj Exc : Type}

def ClientCall.isCheckpoint : ClientCall Obj → Bool
  | .registerAgent .. => false
  | .checkpoint .. => true

/-- A commit that the client has made for an adapter -/
structure RecordedCommit where
  threadId : String
  summary : String
  parents : List String
  commitId : String
deriving DecidableEq, Repr

/-- The commit of a call, if it made one -/
def recorded : ClientCall Obj × Reply Exc → Option RecordedCommit
  | (.checkpoint _ _ threadId _ _ summary _ _ parents, .returned commitId) =>
      if commitId = "" then none else some ⟨threadId, summary, parents, commitId⟩
  | _ => none

/-- The commit id of an answer, which an exception has not -/
def replyId : Reply Exc → String
  | .returned commitId => commitId
  | .raised _ => ""

theorem recorded_commitId {entry : ClientCall Obj × Reply Exc} {commit : RecordedCommit}
    (made : recorded entry = some commit) : commit.commitId = replyId entry.2 := by
  rcases entry with ⟨_ | _, _ | commitId⟩
  · cases made
  · cases made
  · cases made
  · rw [recorded] at made
    split_ifs at made
    exact Option.some.inj made ▸ rfl

namespace AdapterState

def commits (s : AdapterState Obj Exc) : List RecordedCommit := s.calls.filterMap recorded

theorem commitIds_sublist {s : AdapterState Obj Exc} :
    (s.commits.map (·.commitId)).Sublist (s.calls.map fun entry => replyId entry.2) := by
  rw [commits]
  induction s.calls with
  | nil => exact .slnil
  | cons entry calls ih =>
    rw [List.map_cons]
    cases made : recorded entry with
    | none =>
      rw [List.filterMap_cons_none made]
      exact ih.cons _
    | some commit =>
      rw [List.filterMap_cons_some made, List.map_cons, recorded_commitId made]
      exact ih.cons_cons _

/-- Nothing is recorded in between. -/
def Quiet (s t : AdapterState Obj Exc) : Prop :=
  t.commits = s.commits ∧ t.lastCommitIdByThread = s.lastCommitIdByThread

theorem Quiet.refl (s : AdapterState Obj Exc) : Quiet s s := ⟨rfl, rfl⟩

theorem Quiet.trans (s t u : AdapterState Obj Exc) (first : Quiet s t) (second : Quiet t u) : Quiet s u :=
  ⟨second.1.trans first.1, second.2.trans first.2⟩

/-- One commit is recorded in between, and is then the last one of its thread. -/
def Records (commit : RecordedCommit) (s t : AdapterState Obj Exc) : Prop :=
  t.commits = s.commits ++ [commit] ∧
    t.lastCommitIdByThread = s.lastCommitIdByThread.insert commit.threadId commit.commitId

end AdapterState

open AdapterState

theorem present_eq_some_iff {text : Option String} {value : String} :
    present text = some value ↔ text = some value ∧ value ≠ "" := by
  rw [present, Option.filter_eq_some_iff, decide_eq_true_eq]

namespace NexusAdapterBase

variable {world : AdapterWorld Obj Exc} {base : NexusAdapterBase Obj} {s t : AdapterState Obj Exc}

section Threads

variable {threadId : Option String}

theorem defaultThreadId_ne_empty {runId framework : String} : defaultThreadId runId framework ≠ "" := by
  intro bare
  have length := congrArg String.length bare
  rw [defaultThreadId, String.length_append, String.length_append] at length
  have middle : (":main:" : String).length = 6 := rfl
  have none_ : ("" : String).length = 0 := rfl
  omega

theorem deriveThreadId_ne_empty : base.deriveThreadId threadId ≠ "" := by
  rw [deriveThreadId]
  cases given : (present threadId).or (present base.threadId) with
  | none => exact defaultThreadId_ne_empty
  | some text =>
    rcases Option.or_eq_some_iff.mp given with first | ⟨_, second⟩
    · exact (present_eq_some_iff.1 first).2
    · exact (present_eq_some_iff.1 second).2

theorem deriveThreadId_some {text : String} (given : text ≠ "") : base.deriveThreadId (some text) = text := by
  rw [deriveThreadId, present_eq_some_iff.2 ⟨rfl, given⟩, Option.some_or, Option.getD_some]

end Threads

section Steps

variable {threadId : Option String} {arguments : EventArguments Obj} {event : AdapterEvent Obj}

theorem lastParents_of_quiet {text : String} (quiet : Quiet s t) : lastParents text t = lastParents text s := by
  rw [lastParents, lastParents, quiet.2]

theorem lastParents_of_records {commit : RecordedCommit} (records : Records commit s t) (named : commit.commitId ≠ "") :
    lastParents commit.threadId t = [commit.commitId] := by
  rw [lastParents, records.2, Finmap.lookup_insert, present_eq_some_iff.2 ⟨rfl, named⟩, Option.toList_some]

theorem call_returned {request : ClientCall Obj} {commitId : String}
    (reply : world.client (s.calls.map (·.1) ++ [request]) = .returned commitId) :
    base.call world request s =
      (.ok (present (some commitId)), { s with calls := s.calls ++ [(request, .returned commitId)] }) := by
  rw [call, reply]

theorem call_raised {request : ClientCall Obj} {exception : Exc}
    (reply : world.client (s.calls.map (·.1) ++ [request]) = .raised exception) :
    base.call world request s = (if base.failOpen then .ok none else .error (.client exception),
      { s with calls := s.calls ++ [(request, .raised exception)] }) := by
  rw [call, reply]

theorem commits_append {request : ClientCall Obj} {reply : Reply Exc} :
    ({ s with calls := s.calls ++ [(request, reply)] } : AdapterState Obj Exc).commits =
      s.commits ++ (recorded (request, reply)).toList := by
  rw [commits, List.filterMap_append, commits]
  cases made : recorded (request, reply) with
  | none => rw [List.filterMap_cons_none made, List.filterMap_nil, Option.toList_none]
  | some commit => rw [List.filterMap_cons_some made, List.filterMap_nil, Option.toList_some]

/-- A call that makes no commit leaves its entry in the log only. -/
theorem call_quiet {request : ClientCall Obj} (bare : ∀ reply : Reply Exc, recorded (request, reply) = none)
    (s : AdapterState Obj Exc) : Quiet s (base.call world request s).2 := by
  cases reply : world.client (s.calls.map (·.1) ++ [request]) with
  | returned commitId =>
    rw [call_returned reply]
    exact ⟨by rw [commits_append, bare, Option.toList_none, List.append_nil], rfl⟩
  | raised exception =>
    rw [call_raised reply]
    exact ⟨by rw [commits_append, bare, Option.toList_none, List.append_nil], rfl⟩

theorem register_quiet (s : AdapterState Obj Exc) : Quiet s (base.register world threadId s).2 := by
  rw [register]
  refine Fallible.Keeps.bind Quiet.trans (Fallible.Keeps.get Quiet.refl) (fun now => ?_) s
  refine Fallible.Keeps.ite (Fallible.Keeps.pure Quiet.refl _) ?_
  refine Fallible.Keeps.bind Quiet.trans (call_quiet fun _ => rfl) fun _ => ?_
  exact Fallible.Keeps.modify fun _ => ⟨rfl, rfl⟩

/-- The fields of an event that the adapter gave -/
theorem normalized_fields {ambient : SdkAmbient} {version resolved : String} {parents : List String}
    {fields : UniversalAgentEvent}
    (normalized : normalizeEvent ambient (base.eventFields version resolved parents arguments) = .ok fields) :
    fields.threadId = resolved ∧ fields.eventType = arguments.eventType ∧ fields.parentCommitIds = parents := by
  obtain ⟨read, reads, rfl⟩ := normalizeEvent_eq_ok_iff.1 normalized
  refine ⟨(UniversalAgentEvent.readsStr_some_iff.1 reads.threadId).1, ?_, ?_⟩
  · exact (Json.string.inj (Option.some.inj reads.eventType.1)).symm
  · rcases reads.parentCommitIds with ⟨wrong, _⟩ | ⟨same, _⟩
    · cases wrong
    · exact UniversalAgentEvent.map_string_injective (Option.some.inj same)

theorem event_quiet (s : AdapterState Obj Exc) : Quiet s (base.event world threadId arguments s).2 := by
  rw [event]
  refine Fallible.Keeps.bind Quiet.trans (Fallible.Keeps.get Quiet.refl) (fun now => ?_) s
  refine Fallible.Keeps.bind Quiet.trans (Fallible.Keeps.lift Quiet.refl _) fun _ => ?_
  refine Fallible.Keeps.bind Quiet.trans (Fallible.Keeps.lift Quiet.refl _) fun _ => ?_
  refine Fallible.Keeps.bind Quiet.trans (Fallible.Keeps.modify fun _ => ⟨rfl, rfl⟩) fun _ => ?_
  exact Fallible.Keeps.pure Quiet.refl _

/-- An event that is built has the thread and the parents that it was given. -/
theorem event_ok {built : AdapterEvent Obj} (run : base.event world threadId arguments s = (.ok built, t)) :
    built.fields.threadId = base.deriveThreadId threadId ∧ built.fields.eventType = arguments.eventType ∧
      built.fields.parentCommitIds =
        arguments.parentCommitIds.getD (lastParents (base.deriveThreadId threadId) s) := by
  simp only [event, Fallible.bind_eq_ok_iff, Fallible.get_eq_iff, Fallible.lift_eq_iff, Fallible.modify_eq_iff,
    Fallible.pure_eq_iff, Except.ok.injEq] at run
  obtain ⟨_, _, ⟨rfl, rfl⟩, version, _, ⟨_, rfl⟩, fields, _, ⟨normalized, rfl⟩, _, _, ⟨-, rfl⟩, rfl, rfl⟩ := run
  exact normalized_fields (Checks.mapError_eq_ok_iff.1 normalized.symm)

/-- Every call returns, and every checkpoint makes a commit with an id. -/
def Succeeds (world : AdapterWorld Obj Exc) : Prop :=
  ∀ calls request, ∃ commitId, (request.isCheckpoint = true → commitId ≠ "") ∧
    world.client (calls ++ [request]) = .returned commitId

/-- What a checkpoint can do, when the event would get these parents: nothing is recorded, or one commit is. -/
def Checkpoints (world : AdapterWorld Obj Exc) (threadId summary : String) (parents : List String) (s : AdapterState Obj Exc)
    (outcome : Except (Exn Exc) (List String)) (t : AdapterState Obj Exc) : Prop :=
  (Quiet s t ∧ ∀ given, outcome = .ok given → given = parents ∧ ¬ Succeeds world) ∨
    ∃ commitId, commitId ≠ "" ∧ Records ⟨threadId, summary, parents, commitId⟩ s t ∧ outcome = .ok [commitId]

/-- The parents that an event is submitted with -/
def submittedParents (threadId : String) (given : List String) (s : AdapterState Obj Exc) : List String :=
  if given = [] then lastParents threadId s else given

/-- When every call makes a commit, a checkpoint that goes through records one. -/
theorem Checkpoints.records_of_ok {text summary : String} {parents given : List String}
    {result : Except (Exn Exc) (List String)} (checkpoints : Checkpoints world text summary parents s result t)
    (succeeds : Succeeds world) (ok : result = .ok given) :
    ∃ commitId, commitId ≠ "" ∧ Records ⟨text, summary, parents, commitId⟩ s t ∧ given = [commitId] := by
  rcases checkpoints with ⟨_, kept⟩ | ⟨commitId, named, records, made⟩
  · exact absurd succeeds (kept given ok).2
  · exact ⟨commitId, named, records, Except.ok.inj (ok.symm.trans made)⟩

section Submit

variable {request : ClientCall Obj} {text summary : String} {parents : List String}
  {result : Except (Exn Exc) (List String)}

theorem Checkpoints.after_quiet {m : AdapterState Obj Exc}
    (checkpoints : Checkpoints world text summary parents m result t) (quiet : Quiet s m) :
    Checkpoints world text summary parents s result t := by
  rcases checkpoints with ⟨later, kept⟩ | ⟨commitId, named, records, made⟩
  · exact .inl ⟨quiet.trans _ _ _ later, kept⟩
  · exact .inr ⟨commitId, named, ⟨records.1.trans (quiet.1 ▸ rfl), records.2.trans (quiet.2 ▸ rfl)⟩, made⟩

/-- The call of the client, and what follows it -/
theorem submit_checkpoints (checkpoint : request.isCheckpoint = true)
    (made : ∀ commitId, recorded (request, (.returned commitId : Reply Exc)) =
      if commitId = "" then none else some ⟨text, summary, parents, commitId⟩)
    (unmade : ∀ exception, recorded (request, (.raised exception : Reply Exc)) = none)
    (run : (base.call world request >>= fun commitId =>
      match commitId with
      | some commitId => do
          Fallible.modify fun s => { s with lastCommitIdByThread := s.lastCommitIdByThread.insert text commitId }
          pure [commitId]
      | none => pure parents) s = (result, t)) :
    Checkpoints world text summary parents s result t := by
  cases reply : world.client (s.calls.map (·.1) ++ [request]) with
  | raised exception =>
    have logged : ({ s with calls := s.calls ++ [(request, .raised exception)] } : AdapterState Obj Exc).commits =
        s.commits := by
      rw [commits_append, unmade, Option.toList_none, List.append_nil]
    have called : base.call world request s = _ := call_raised reply
    split_ifs at called
    · rw [Fallible.bind_of_ok called] at run
      obtain ⟨rfl, rfl⟩ := Fallible.pure_eq_iff.1 run
      refine .inl ⟨⟨logged, rfl⟩, fun given same => ⟨(Except.ok.inj same).symm, fun succeeds => ?_⟩⟩
      obtain ⟨_, _, other⟩ := succeeds (s.calls.map (·.1)) request
      exact absurd (reply.symm.trans other) nofun
    · rw [Fallible.bind_of_error called] at run
      obtain ⟨rfl, rfl⟩ := Prod.mk.inj run
      exact .inl ⟨⟨logged, rfl⟩, nofun⟩
  | returned commitId =>
    rw [Fallible.bind_of_ok (call_returned reply)] at run
    by_cases bare : commitId = ""
    · have absent : present (some commitId) = none := by
        rw [bare]
        rfl
      rw [absent] at run
      obtain ⟨rfl, rfl⟩ := Fallible.pure_eq_iff.1 run
      refine .inl ⟨⟨?_, rfl⟩, fun given same => ⟨(Except.ok.inj same).symm, fun succeeds => ?_⟩⟩
      · rw [commits_append, made, if_pos bare, Option.toList_none, List.append_nil]
      · obtain ⟨_, named, other⟩ := succeeds (s.calls.map (·.1)) request
        exact named checkpoint (Reply.returned.inj (other.symm.trans reply) ▸ bare)
    · rw [present_eq_some_iff.2 ⟨rfl, bare⟩] at run
      obtain ⟨rfl, rfl⟩ := Prod.mk.inj run
      refine .inr ⟨commitId, bare, ⟨?_, rfl⟩, rfl⟩
      have logged : ({ s with calls := s.calls ++ [(request, .returned commitId)] } : AdapterState Obj Exc).commits = _ :=
        commits_append
      rw [made, if_neg bare, Option.toList_some] at logged
      exact logged

end Submit

theorem checkpointEvent_checkpoints (s : AdapterState Obj Exc) :
    Checkpoints world event.fields.threadId (base.frameworkName ++ " " ++ event.fields.eventType)
      (submittedParents event.fields.threadId event.fields.parentCommitIds s) s
      (base.checkpointEvent world event s).1 (base.checkpointEvent world event s).2 := by
  rcases outcome : base.checkpointEvent world event s with ⟨result, t⟩
  rw [checkpointEvent] at outcome
  have quiet : Quiet s (base.register world (some event.fields.threadId) s).2 := register_quiet s
  rcases Fallible.bind_cases outcome with ⟨raised, failed, rfl⟩ | ⟨_, m, done, rest⟩
  · rw [failed] at quiet
    exact .inl ⟨quiet, nofun⟩
  rw [done] at quiet
  rw [Fallible.bind_of_ok (show Fallible.get m = (.ok m, m) from rfl)] at rest
  have parents : submittedParents event.fields.threadId event.fields.parentCommitIds s =
      if event.fields.parentCommitIds = [] then lastParents event.fields.threadId m else event.fields.parentCommitIds := by
    rw [submittedParents, lastParents_of_quiet quiet]
  rw [parents]
  rcases Fallible.bind_cases rest with ⟨raised, failed, rfl⟩ | ⟨state, m', paid, rest⟩
  · obtain ⟨_, same⟩ := Fallible.lift_eq_iff.1 failed
    subst same
    exact .inl ⟨quiet, nofun⟩
  obtain ⟨_, same⟩ := Fallible.lift_eq_iff.1 paid
  subst same
  exact (submit_checkpoints rfl (fun _ => rfl) (fun _ => rfl) rest).after_quiet quiet

/-- What recording an event can do, when the arguments give these parents -/
theorem record_checkpoints (s : AdapterState Obj Exc) :
    Checkpoints world (base.deriveThreadId threadId) (base.frameworkName ++ " " ++ arguments.eventType)
      (submittedParents (base.deriveThreadId threadId) (arguments.parentCommitIds.getD []) s) s
      (base.record world threadId arguments s).1 (base.record world threadId arguments s).2 := by
  rcases outcome : base.record world threadId arguments s with ⟨result, t⟩
  rw [record] at outcome
  have quiet : Quiet s (base.event world threadId arguments s).2 := event_quiet s
  rcases Fallible.bind_cases outcome with ⟨raised, failed, rfl⟩ | ⟨built, m, done, rest⟩
  · rw [failed] at quiet
    exact .inl ⟨quiet, nofun⟩
  obtain ⟨thread, eventType, parents⟩ := event_ok done
  rw [done] at quiet
  have checkpoints : Checkpoints world _ _ _ m (base.checkpointEvent world built m).1 (base.checkpointEvent world built m).2 :=
    checkpointEvent_checkpoints m
  rw [rest, thread, eventType, parents] at checkpoints
  have same : submittedParents (base.deriveThreadId threadId)
      (arguments.parentCommitIds.getD (lastParents (base.deriveThreadId threadId) s)) m =
        submittedParents (base.deriveThreadId threadId) (arguments.parentCommitIds.getD []) s := by
    rw [submittedParents, submittedParents, lastParents_of_quiet quiet]
    cases arguments.parentCommitIds with
    | none => simp
    | some given => rfl
  rw [same] at checkpoints
  exact checkpoints.after_quiet quiet

end Steps

section Frame

variable {R : AdapterState Obj Exc → AdapterState Obj Exc → Prop} (trans : ∀ s t u, R s t → R t u → R s u)
  (calls : ∀ request, Fallible.Keeps R (base.call world request)) (rest : ∀ s t, t.calls = s.calls → R s t)

include trans calls rest

theorem register_keeps (threadId : Option String) : Fallible.Keeps R (base.register world threadId) := by
  have refl : ∀ s, R s s := fun s => rest s s rfl
  refine .bind trans (.get refl) fun _ => .ite (.pure refl _) ?_
  exact .bind trans (calls _) fun _ => .modify fun s => rest _ _ rfl

theorem checkpointEvent_keeps (event : AdapterEvent Obj) : Fallible.Keeps R (base.checkpointEvent world event) := by
  have refl : ∀ s, R s s := fun s => rest s s rfl
  refine .bind trans (register_keeps trans calls rest _) fun _ => .bind trans (.get refl) fun _ => ?_
  refine .bind trans (.lift refl _) fun _ => .bind trans (calls _) fun commitId => ?_
  cases commitId with
  | none => exact .pure refl _
  | some commitId => exact .bind trans (.modify fun s => rest _ _ rfl) fun _ => .pure refl _

/-- What is kept by the calls of the client, and by all that makes no call, is kept by recording an event. -/
theorem record_keeps (threadId : Option String) (arguments : EventArguments Obj) :
    Fallible.Keeps R (base.record world threadId arguments) := by
  have refl : ∀ s, R s s := fun s => rest s s rfl
  refine .bind trans ?_ (checkpointEvent_keeps trans calls rest)
  refine .bind trans (.get refl) fun _ => .bind trans (.lift refl _) fun _ => .bind trans (.lift refl _) fun _ => ?_
  exact .bind trans (.modify fun s => rest _ _ rfl) fun _ => .pure refl _

end Frame

end NexusAdapterBase

section Wrapping

variable {σ ε α β Callback : Type} {R : σ → σ → Prop}

/-- What every callback keeps is kept by the wrapped call. -/
theorem WrappedCall.run_keeps (refl : ∀ s, R s s) (trans : ∀ s t u, R s t → R t u → R s u)
    {handle : Callback → Fallible σ (Exn Exc) Unit} (handles : ∀ callback, Fallible.Keeps R (handle callback))
    (call : WrappedCall Obj Exc Callback) : Fallible.Keeps R (call.run handle) := by
  induction call with
  | returned result => exact Fallible.Keeps.pure refl _
  | raised exception => exact Fallible.Keeps.fail refl _
  | fires callback goesOn ih =>
    intro s
    exact trans _ _ _ (handles callback s) (ih (handle callback s).1 (handle callback s).2)

end Wrapping

end Python

end AttowNexus
