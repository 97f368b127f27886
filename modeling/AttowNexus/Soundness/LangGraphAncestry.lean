import AttowNexus.Library.Graph.ParentsFirst
import AttowNexus.Library.Graph.Reach
import AttowNexus.Soundness.LangGraphTransparency

/-! # What a LangGraph run can be replayed from

The end of a call is submitted with the commits that its start returned, not with the last commit of the thread. So the
commits that callbacks make in between are no ancestors of the end.
-/

namespace AttowNexus

namespace Python

open AdapterState NexusAdapterBase SuccGraph

variable {Obj Exc : Type} {world : AdapterWorld Obj Exc} {threadId : String} {s t : AdapterState Obj Exc}
  {outcome : Except (Exn Exc) (List String)}

/-- The recorded parents of the commits with an id -/
def recordedParents (commits : List RecordedCommit) (commitId : String) : List String :=
  (commits.filter (·.commitId = commitId)).flatMap (·.parents)

theorem mem_recordedParents_iff {commits : List RecordedCommit} {commitId parent : String} :
    parent ∈ recordedParents commits commitId ↔
      ∃ commit ∈ commits, commit.commitId = commitId ∧ parent ∈ commit.parents := by
  simp only [recordedParents, List.mem_flatMap, List.mem_filter, decide_eq_true_eq, and_assoc]

section Causal

/-- Parents are recorded before their commits, and the last commits are recorded ones. -/
structure Causal (s : AdapterState Obj Exc) : Prop where
  first : ParentsFirst (·.commitId) (·.parents) s.commits
  last : ∀ threadId, ∀ parent ∈ lastParents threadId s, parent ∈ s.commits.map (·.commitId)

theorem causal_initial : Causal (initial : AdapterState Obj Exc) where
  first := .nil
  last threadId parent member := by
    have bare : (initial : AdapterState Obj Exc).lastCommitIdByThread.lookup threadId = none := Finmap.lookup_empty _
    rw [lastParents, bare] at member
    exact absurd member List.not_mem_nil

theorem Causal.quiet (causal : Causal s) (quiet : Quiet s t) : Causal t where
  first := quiet.1 ▸ causal.first
  last threadId := by
    rw [lastParents_of_quiet quiet, quiet.1]
    exact causal.last threadId

theorem Causal.records {commit : RecordedCommit} (causal : Causal s) (records : Records commit s t)
    (known : ∀ parent ∈ commit.parents, parent ∈ s.commits.map (·.commitId)) : Causal t where
  first := by
    rw [records.1]
    exact causal.first.snoc known
  last threadId parent member := by
    rw [records.1, List.map_append, List.mem_append, List.map_singleton]
    by_cases same : threadId = commit.threadId
    · rw [lastParents, records.2, same, Finmap.lookup_insert, Option.mem_toList, present_eq_some_iff] at member
      exact .inr (List.mem_singleton.mpr (Option.some.inj member.1).symm)
    · rw [lastParents, records.2, Finmap.lookup_insert_of_ne _ same] at member
      exact .inl (causal.last threadId parent member)

/-- Commits are only added, and parents stay recorded before their commits. -/
structure Grows (s t : AdapterState Obj Exc) : Prop where
  prefixed : s.commits <+: t.commits
  causal : Causal s → Causal t

theorem Grows.refl (s : AdapterState Obj Exc) : Grows s s := ⟨List.prefix_rfl, id⟩

theorem Grows.trans (s t u : AdapterState Obj Exc) (first : Grows s t) (second : Grows t u) : Grows s u :=
  ⟨first.prefixed.trans second.prefixed, second.causal ∘ first.causal⟩

theorem Grows.of_quiet (quiet : Quiet s t) : Grows s t := ⟨quiet.1 ▸ List.prefix_rfl, fun causal => causal.quiet quiet⟩

/-- These are ids of recorded commits. -/
def Known (s : AdapterState Obj Exc) (parents : List String) : Prop :=
  ∀ parent ∈ parents, parent ∈ s.commits.map (·.commitId)

theorem Known.mono {parents : List String} (known : Known s parents) (grows : Grows s t) : Known t parents :=
  fun parent member => (grows.prefixed.map _).subset (known parent member)

/-- A checkpoint that returns ids of recorded commits -/
structure Yields (s : AdapterState Obj Exc) (outcome : Except (Exn Exc) (List String)) (t : AdapterState Obj Exc) : Prop where
  grows : Grows s t
  known : ∀ given, outcome = .ok given → Known t given

theorem yields_of_checkpoints {summary : String} {parents : List String} (known : Known s parents)
    (checkpoints : Checkpoints world threadId summary parents s outcome t) : Yields s outcome t := by
  rcases checkpoints with ⟨quiet, kept⟩ | ⟨commitId, _, records, rfl⟩
  · refine ⟨.of_quiet quiet, fun given made => ?_⟩
    rw [(kept given made).1]
    exact known.mono (.of_quiet quiet)
  · refine ⟨⟨⟨_, records.1.symm⟩, fun causal => causal.records records known⟩, fun given made parent member => ?_⟩
    rw [← Except.ok.inj made, List.mem_singleton] at member
    rw [records.1, List.map_append, member]
    exact List.mem_append_right _ (List.mem_singleton_self _)

theorem record_yields {base : NexusAdapterBase Obj} {arguments : EventArguments Obj} {explicit : Option String}
    (causal : Causal s) (run : base.record world explicit arguments s = (outcome, t))
    (known : Known s (arguments.parentCommitIds.getD [])) : Yields s outcome t := by
  have checkpoints : Checkpoints world (base.deriveThreadId explicit) _ _ s (base.record world explicit arguments s).1
      (base.record world explicit arguments s).2 := record_checkpoints s
  rw [run] at checkpoints
  refine yields_of_checkpoints ?_ checkpoints
  rw [submittedParents]
  split_ifs
  · exact causal.last _
  · exact known

theorem record_records {base : NexusAdapterBase Obj} {arguments : EventArguments Obj} {given : List String}
    (succeeds : Succeeds world) (run : base.record world (some threadId) arguments s = (.ok given, t)) :
    ∃ commitId, commitId ≠ "" ∧ Records ⟨base.deriveThreadId (some threadId),
      base.frameworkName ++ " " ++ arguments.eventType,
      submittedParents (base.deriveThreadId (some threadId)) (arguments.parentCommitIds.getD []) s, commitId⟩ s t ∧
        given = [commitId] := by
  have checkpoints : Checkpoints world (base.deriveThreadId (some threadId)) _ _ s
      (base.record world (some threadId) arguments s).1 (base.record world (some threadId) arguments s).2 :=
    record_checkpoints s
  rw [run] at checkpoints
  exact checkpoints.records_of_ok succeeds rfl

end Causal

namespace NexusLangGraphProxy

variable {proxy : NexusLangGraphProxy Obj} {method : String}

theorem known_nil : Known s [] := fun _ member => absurd member List.not_mem_nil

section Pairs

variable {converted : Except (Exn Exc) (Value Obj)} {firstType secondType field : String}
  {explicit : Option (List String)}

theorem eventPair_yields (causal : Causal s)
    (run : eventPair world proxy converted firstType secondType field method threadId explicit s = (outcome, t))
    (known : Known s (explicit.getD [])) : Yields s outcome t := by
  rw [eventPair] at run
  rcases Fallible.bind_cases run with ⟨raised, failed, rfl⟩ | ⟨value, m, done, begun⟩
  · obtain ⟨_, rfl⟩ := Fallible.lift_eq_iff.1 failed
    exact ⟨.refl _, nofun⟩
  obtain ⟨_, rfl⟩ := Fallible.lift_eq_iff.1 done
  rcases Fallible.bind_cases begun with ⟨raised, failed, rfl⟩ | ⟨given, m', made, goesOn⟩
  · exact ⟨(record_yields causal failed known).grows, nofun⟩
  have yields := record_yields causal made known
  rcases Fallible.bind_cases goesOn with ⟨raised, failed, rfl⟩ | ⟨value', m'', done', last⟩
  · obtain ⟨_, rfl⟩ := Fallible.lift_eq_iff.1 failed
    exact ⟨yields.grows, nofun⟩
  obtain ⟨_, rfl⟩ := Fallible.lift_eq_iff.1 done'
  have later := record_yields (yields.grows.causal causal) last (yields.known given rfl)
  exact ⟨yields.grows.trans _ _ _ later.grows, later.known⟩

theorem eventPair_records {given : List String} (succeeds : Succeeds world)
    (run : eventPair world proxy converted firstType secondType field method threadId explicit s = (.ok given, t)) :
    ∃ a b, b ≠ "" ∧ given = [b] ∧ t.commits = s.commits ++
      [⟨proxy.base.deriveThreadId (some threadId), proxy.base.frameworkName ++ " " ++ firstType,
          submittedParents (proxy.base.deriveThreadId (some threadId)) (explicit.getD []) s, a⟩,
        ⟨proxy.base.deriveThreadId (some threadId), proxy.base.frameworkName ++ " " ++ secondType, [a], b⟩] := by
  rw [eventPair] at run
  obtain ⟨value, m, done, begun⟩ := Fallible.bind_eq_ok_iff.1 run
  obtain ⟨_, rfl⟩ := Fallible.lift_eq_iff.1 done
  obtain ⟨parents, m', made, goesOn⟩ := Fallible.bind_eq_ok_iff.1 begun
  obtain ⟨value', m'', done', made'⟩ := Fallible.bind_eq_ok_iff.1 goesOn
  obtain ⟨_, rfl⟩ := Fallible.lift_eq_iff.1 done'
  obtain ⟨a, namedA, records, rfl⟩ := record_records succeeds made
  obtain ⟨b, namedB, records', rfl⟩ := record_records succeeds made'
  refine ⟨a, b, namedB, rfl, ?_⟩
  rw [records'.1, records.1, List.append_assoc]
  rfl

end Pairs

theorem handle_grows (prepared : PreparedCall Obj) (callback : ChainCallback Obj Exc) (causal : Causal s) :
    Grows s (proxy.handle world prepared callback s).2 := by
  rcases outcome : proxy.handle world prepared callback s with ⟨result, t⟩
  rw [handle] at outcome
  split_ifs at outcome
  · obtain ⟨_, rfl⟩ := Fallible.pure_eq_iff.1 outcome
    exact .refl _
  rcases Fallible.bind_cases outcome with ⟨raised, failed, rfl⟩ | ⟨arguments, m, done, rest⟩
  · obtain ⟨_, rfl⟩ := Fallible.lift_eq_iff.1 failed
    exact .refl _
  obtain ⟨computed, rfl⟩ := Fallible.lift_eq_iff.1 done
  have known : Known m (arguments.parentCommitIds.getD []) := by
    rw [callbackArguments_parents computed.symm]
    exact known_nil
  rcases Fallible.bind_cases rest with ⟨raised, failed, rfl⟩ | ⟨given, m', made, last⟩
  · exact (record_yields causal failed known).grows
  · obtain ⟨_, rfl⟩ := Fallible.pure_eq_iff.1 last
    exact (record_yields causal made known).grows

/-- Whatever the callbacks of the wrapped call record is added to what was recorded. -/
theorem wrapped_grows (prepared : PreparedCall Obj) (call : WrappedCall Obj Exc (ChainCallback Obj Exc))
    (causal : Causal s) : Grows s (call.run (proxy.handle world prepared) s).2 :=
  WrappedCall.run_keeps (R := fun s t => Causal s → Grows s t) (fun s _ => .refl s)
    (fun _ _ _ first second causal => (first causal).trans _ _ _ (second ((first causal).causal causal)))
    (fun callback _ causal => handle_grows prepared callback causal) call s causal

theorem checkpointError_grows {exception : Exn Exc} {parents : List String} (causal : Causal s) (known : Known s parents) :
    Grows s (proxy.checkpointError world method exception threadId parents s).2 := by
  rcases outcome : proxy.checkpointError world method exception threadId parents s with ⟨result, t⟩
  rw [checkpointError] at outcome
  split_ifs at outcome
  · obtain ⟨_, rfl⟩ := Fallible.pure_eq_iff.1 outcome
    exact .refl _
  rcases Fallible.bind_cases outcome with ⟨raised, failed, rfl⟩ | ⟨error, m, done, rest⟩
  · obtain ⟨_, rfl⟩ := Fallible.lift_eq_iff.1 failed
    exact .refl _
  · obtain ⟨_, rfl⟩ := Fallible.lift_eq_iff.1 done
    exact (record_yields causal rest known).grows

theorem prepareCall_quiet {config : Option (List (Value Obj × Value Obj))} (s : AdapterState Obj Exc) :
    Quiet s (proxy.prepareCall world method config s).2 := by
  rw [prepareCall]
  refine Fallible.Keeps.bind Quiet.trans (Fallible.Keeps.lift Quiet.refl _) (fun prepared => ?_) s
  exact Fallible.Keeps.bind Quiet.trans register_quiet fun _ => Fallible.Keeps.pure Quiet.refl _

/-- A call adds to what was recorded, however it ends. -/
theorem invoke_grows {graph : Graph Obj Exc} {input : Value Obj} {config : Option (List (Value Obj × Value Obj))}
    (causal : Causal s) : Grows s (proxy.invoke world graph input config s).2 := by
  rcases ended : proxy.invoke world graph input config s with ⟨final, t⟩
  rw [invoke] at ended
  have prepares : Quiet s (proxy.prepareCall world "invoke" config s).2 := prepareCall_quiet s
  rcases Fallible.bind_cases ended with ⟨raised, failed, rfl⟩ | ⟨prepared, m, made, rest⟩
  · rw [failed] at prepares
    exact .of_quiet prepares
  rw [made] at prepares
  have causal' := causal.quiet prepares
  refine (Grows.of_quiet prepares).trans _ _ _ ?_
  rcases Fallible.bind_cases rest with ⟨raised, failed, rfl⟩ | ⟨parents, begun, started, rest'⟩
  · exact (eventPair_yields causal' failed known_nil).grows
  have starts := eventPair_yields causal' started known_nil
  refine starts.grows.trans _ _ _ ?_
  have begunCausal := starts.grows.causal causal'
  have body : Grows begun ((graph input prepared.config).run (proxy.handle world prepared) begun).2 :=
    wrapped_grows prepared _ begunCausal
  have bodyKnown : ∀ {m : AdapterState Obj Exc}, Grows begun m → Known m parents :=
    fun grows => (starts.known parents rfl).mono grows
  rcases Fallible.bind_cases rest' with ⟨raised, failed, rfl⟩ | ⟨result, m', done, last⟩
  · rcases Fallible.reraising_cases failed with ⟨_, _, wrong⟩ | ⟨thrown, m', stopped, rfl, _⟩
    · cases wrong
    · rw [stopped] at body
      exact body.trans _ _ _ (checkpointError_grows (body.causal begunCausal) (bodyKnown body))
  rcases Fallible.reraising_cases done with ⟨_, returned, _⟩ | ⟨_, _, _, _, _, wrong⟩
  · rw [returned] at body
    refine body.trans _ _ _ ?_
    rcases Fallible.bind_cases last with ⟨raised, failed, rfl⟩ | ⟨_, m'', done, last'⟩
    · exact (eventPair_yields (body.causal begunCausal) failed (bodyKnown body)).grows
    · obtain ⟨_, rfl⟩ := Fallible.pure_eq_iff.1 last'
      exact (eventPair_yields (body.causal begunCausal) done (bodyKnown body)).grows
  · cases wrong

/-- A call of `invoke`: what the graph does in it, and its arguments -/
structure Invocation (Obj Exc : Type) where
  graph : Graph Obj Exc
  input : Value Obj
  config : Option (List (Value Obj × Value Obj))

/-- The state after calls of `invoke` on a new proxy. The exception of a call ends that call only. -/
def afterInvocations (world : AdapterWorld Obj Exc) (proxy : NexusLangGraphProxy Obj) (calls : List (Invocation Obj Exc)) :
    AdapterState Obj Exc :=
  calls.foldl (fun s call => (proxy.invoke world call.graph call.input call.config s).2) initial

theorem causal_afterInvocations {calls : List (Invocation Obj Exc)} : Causal (afterInvocations world proxy calls) := by
  induction calls using List.reverseRecOn with
  | nil => exact causal_initial
  | append_singleton calls call ih =>
    rw [afterInvocations, List.foldl_append]
    exact (invoke_grows ih).causal ih

/-- What the callbacks record during the wrapped call, which comes after the start of the run -/
def callbackCommits (world : AdapterWorld Obj Exc) (proxy : NexusLangGraphProxy Obj) (call : Invocation Obj Exc)
    (s : AdapterState Obj Exc) : List RecordedCommit :=
  match (do
    let prepared ← proxy.prepareCall world "invoke" call.config
    let _ ← proxy.checkpointStart world "invoke" call.input prepared.threadId
    pure prepared) s with
  | (.ok prepared, m) =>
      ((call.graph call.input prepared.config).run (proxy.handle world prepared) m).2.commits.drop m.commits.length
  | (.error _, _) => []

theorem callbackCommits_of_start {call : Invocation Obj Exc} {prepared : PreparedCall Obj} {parents : List String}
    {m m' : AdapterState Obj Exc} (prepares : proxy.prepareCall world "invoke" call.config s = (.ok prepared, m))
    (starts : proxy.checkpointStart world "invoke" call.input prepared.threadId m = (.ok parents, m')) :
    callbackCommits world proxy call s =
      ((call.graph call.input prepared.config).run (proxy.handle world prepared) m').2.commits.drop m'.commits.length := by
  rw [callbackCommits, Fallible.bind_of_ok prepares, Fallible.bind_of_ok starts]
  rfl

theorem handle_records {prepared : PreparedCall Obj} {callback : ChainCallback Obj Exc} (succeeds : Succeeds world)
    (attached : prepared.attached = true) (run : proxy.handle world prepared callback s = (.ok (), t)) :
    ∃ commit, t.commits = s.commits ++ [commit] := by
  rw [handle, attached, if_neg Bool.noConfusion] at run
  obtain ⟨arguments, m, made, rest⟩ := Fallible.bind_eq_ok_iff.1 run
  obtain ⟨_, rfl⟩ := Fallible.lift_eq_iff.1 made
  obtain ⟨given, m', recorded, last⟩ := Fallible.bind_eq_ok_iff.1 rest
  obtain ⟨_, rfl⟩ := Fallible.pure_eq_iff.1 last
  obtain ⟨commitId, _, records, _⟩ := record_records succeeds recorded
  exact ⟨_, records.1⟩

/-- No callback that the graph fires by itself comes to a handler of the adapter. -/
def Unnoticed (world : AdapterWorld Obj Exc) (proxy : NexusLangGraphProxy Obj) (call : Invocation Obj Exc) : Prop :=
  ∀ prepared, proxy.preparedConfig world "invoke" call.config = .ok prepared →
    callbackEvents world prepared (call.graph call.input prepared.config).fired = []

theorem run_unattached {prepared : PreparedCall Obj} (detached : prepared.attached = false)
    (call : WrappedCall Obj Exc (ChainCallback Obj Exc)) (s : AdapterState Obj Exc) :
    (call.run (proxy.handle world prepared) s).2 = s := by
  induction call generalizing s with
  | returned result => rfl
  | raised exception => rfl
  | fires callback goesOn ih =>
    have silent : proxy.handle world prepared callback s = (.ok (), s) := by
      rw [handle, if_pos detached]
      rfl
    rw [WrappedCall.run_fires, silent]
    exact ih _ s

/-- Where the events of a call can be recorded, its callbacks record nothing only if none is noticed. -/
theorem callbackCommits_eq_nil_iff {call : Invocation Obj Exc} (failOpen : proxy.base.failOpen = true)
    (succeeds : Succeeds world) (causal : Causal s)
    (contained : Contained world proxy call.graph call.input call.config s.events) :
    callbackCommits world proxy call s = [] ↔ Unnoticed world proxy call := by
  obtain ⟨prepared, prepares, recordable⟩ := contained
  have unnoticed : Unnoticed world proxy call ↔
      callbackEvents world prepared (call.graph call.input prepared.config).fired = [] := by
    constructor
    · exact fun bare => bare prepared prepares
    · intro bare other prepares'
      obtain rfl := Except.ok.inj (prepares.symm.trans prepares')
      exact bare
  obtain ⟨first, rest⟩ := allRecordable_append_iff.1 recordable
  obtain ⟨second, _⟩ := allRecordable_append_iff.1 rest
  obtain ⟨m, made, events⟩ := prepareCall_of_failOpen failOpen prepares s
  have starts : Performs world proxy.base prepared.threadId _ _
      (proxy.checkpointStart world "invoke" call.input prepared.threadId) := checkpointStart_performs failOpen
  obtain ⟨parents, begun, started⟩ := starts.goesOn m (events ▸ first)
  have events' := (starts.returned m parents begun started).2.1
  rw [unnoticed, callbackCommits_of_start made started]
  by_cases attached : prepared.attached = true
  · cases body : call.graph call.input prepared.config with
    | returned result => exact iff_of_true List.drop_length (ite_self _)
    | raised exception => exact iff_of_true List.drop_length (ite_self _)
    | fires callback goesOn =>
      rw [body] at second
      refine iff_of_false (fun bare => ?_) fun bare => ?_
      · have handles : Performs world proxy.base prepared.threadId _ _ (proxy.handle world prepared callback) :=
          handle_performs failOpen prepared callback
        have recordable : AllRecordable world proxy.base prepared.threadId (callbackEvents world prepared [callback])
            begun.events := by
          rw [callbackEvents, attached, if_neg Bool.noConfusion, events', events]
          rw [callbackEvents, attached, if_neg Bool.noConfusion] at second
          exact ⟨second.1, trivial⟩
        obtain ⟨⟨⟩, u, handled⟩ := handles.goesOn begun recordable
        obtain ⟨commit, grown⟩ := handle_records succeeds attached handled
        have prepares : Quiet s (proxy.prepareCall world "invoke" call.config s).2 := prepareCall_quiet s
        rw [made] at prepares
        have begunCausal := (eventPair_yields (causal.quiet prepares) started known_nil).grows.causal
          (causal.quiet prepares)
        have grows : Grows begun (proxy.handle world prepared callback begun).2 := handle_grows prepared callback begunCausal
        rw [handled] at grows
        have later : Grows u ((goesOn (.ok ())).run (proxy.handle world prepared) u).2 :=
          wrapped_grows prepared _ (grows.causal begunCausal)
        rw [WrappedCall.run_fires, handled] at bare
        obtain ⟨more, same⟩ := later.prefixed
        rw [← same, grown, List.append_assoc, List.drop_left] at bare
        cases bare
      · rw [callbackEvents, attached, if_neg Bool.noConfusion] at bare
        cases bare
  · have detached : prepared.attached = false := Bool.eq_false_of_not_eq_true attached
    refine iff_of_true ?_ (if_pos detached)
    rw [run_unattached detached, List.drop_length]

/-- The commits of a completed call: two at its start, those of the callbacks, and two at its end -/
structure CallCommits (proxy : NexusLangGraphProxy Obj) (s : AdapterState Obj Exc) (during : List RecordedCommit)
    (t : AdapterState Obj Exc) where
  start : RecordedCommit
  stepStart : RecordedCommit
  stepEnd : RecordedCommit
  last : RecordedCommit
  commits : t.commits = s.commits ++ ([start, stepStart] ++ during ++ [stepEnd, last])
  startParents : start.parents = lastParents start.threadId s
  stepStartParents : stepStart.parents = [start.commitId]
  stepEndParents : stepEnd.parents = [stepStart.commitId]
  lastParents : last.parents = [stepEnd.commitId]
  summary : last.summary = proxy.base.frameworkName ++ " " ++ "run_end"

theorem invoke_commits {call : Invocation Obj Exc} {result : Value Obj} (succeeds : Succeeds world) (causal : Causal s)
    (run : proxy.invoke world call.graph call.input call.config s = (.ok result, t)) :
    Nonempty (CallCommits proxy s (callbackCommits world proxy call s) t) := by
  rw [invoke] at run
  obtain ⟨prepared, m, made, rest⟩ := Fallible.bind_eq_ok_iff.1 run
  have prepares : Quiet s (proxy.prepareCall world "invoke" call.config s).2 := prepareCall_quiet s
  rw [made] at prepares
  obtain ⟨parents, begun, started, rest'⟩ := Fallible.bind_eq_ok_iff.1 rest
  obtain ⟨result', m', done, last⟩ := Fallible.bind_eq_ok_iff.1 rest'
  obtain ⟨ended, m'', closing, last'⟩ := Fallible.bind_eq_ok_iff.1 last
  obtain ⟨_, rfl⟩ := Fallible.pure_eq_iff.1 last'
  have during : callbackCommits world proxy call s =
      ((call.graph call.input prepared.config).run (proxy.handle world prepared) begun).2.commits.drop
        begun.commits.length := by
    rw [callbackCommits, Fallible.bind_of_ok made, Fallible.bind_of_ok started]
    rfl
  have begunCausal : Causal begun := (eventPair_yields (causal.quiet prepares) started known_nil).grows.causal
    (causal.quiet prepares)
  have body : Grows begun ((call.graph call.input prepared.config).run (proxy.handle world prepared) begun).2 :=
    wrapped_grows prepared _ begunCausal
  rcases Fallible.reraising_cases done with ⟨_, returned, _⟩ | ⟨_, _, _, _, _, wrong⟩
  · obtain ⟨a, b, _, rfl, start⟩ := eventPair_records succeeds started
    obtain ⟨c, d, _, _, end_⟩ := eventPair_records succeeds closing
    rw [returned] at body during
    obtain ⟨added, same⟩ := body.prefixed
    have added_eq : callbackCommits world proxy call s = added := by
      rw [during, ← same, List.drop_left]
    have first : submittedParents (proxy.base.deriveThreadId (some prepared.threadId)) ((none : Option (List String)).getD [])
        m = lastParents (proxy.base.deriveThreadId (some prepared.threadId)) s :=
      (if_pos rfl).trans (lastParents_of_quiet prepares)
    have second : submittedParents (proxy.base.deriveThreadId (some prepared.threadId)) ((some [b]).getD []) m' = [b] :=
      if_neg (List.cons_ne_nil _ _)
    let named (eventType : String) (parents : List String) (commitId : String) : RecordedCommit :=
      ⟨proxy.base.deriveThreadId (some prepared.threadId), proxy.base.frameworkName ++ " " ++ eventType, parents, commitId⟩
    refine ⟨⟨named "run_start" _ a, named "step_start" [a] b, named "step_end" _ c, named "run_end" [c] d, ?_, first, rfl,
      second, rfl, rfl⟩⟩
    rw [end_, ← same, start, prepares.1, added_eq]
    simp only [List.append_assoc]
    rfl
  · cases wrong

/-- Every commit of the call is an ancestor-or-self of its last one, which is the end of the run. -/
def ReplayableFromEnd (proxy : NexusLangGraphProxy Obj) (s t : AdapterState Obj Exc) : Prop :=
  ∃ before last, t.commits.drop s.commits.length = before ++ [last] ∧
    last.summary = proxy.base.frameworkName ++ " " ++ "run_end" ∧
    ∀ commit ∈ t.commits.drop s.commits.length, Reach (recordedParents t.commits) last.commitId commit.commitId

namespace CallCommits

variable {during : List RecordedCommit}

theorem added (parts : CallCommits proxy s during t) : t.commits.drop s.commits.length =
    [parts.start, parts.stepStart] ++ during ++ [parts.stepEnd, parts.last] := by
  rw [parts.commits, List.drop_left]

theorem mem (parts : CallCommits proxy s during t) {commit : RecordedCommit} : commit ∈ t.commits ↔
    commit ∈ s.commits ∨ commit ∈ during ∨ commit = parts.start ∨ commit = parts.stepStart ∨ commit = parts.stepEnd ∨
      commit = parts.last := by
  rw [parts.commits]
  simp only [List.mem_append, List.mem_cons, List.not_mem_nil, or_false]
  tauto

theorem replayable_of_nil (parts : CallCommits proxy s [] t) : ReplayableFromEnd proxy s t := by
  have edge : ∀ {commit : RecordedCommit} {parent : String}, commit ∈ t.commits → commit.parents = [parent] →
      Reach (recordedParents t.commits) commit.commitId parent :=
    fun member only => .single (mem_recordedParents_iff.2 ⟨_, member, rfl, only ▸ List.mem_singleton_self _⟩)
  have toStepEnd := edge (parts.mem.mpr (by simp)) parts.lastParents
  have toStepStart := edge (parts.mem.mpr (by simp)) parts.stepEndParents
  have toStart := edge (parts.mem.mpr (by simp)) parts.stepStartParents
  refine ⟨[parts.start, parts.stepStart, parts.stepEnd], parts.last, parts.added, parts.summary, fun commit member => ?_⟩
  rw [parts.added] at member
  simp only [List.append_nil, List.cons_append, List.nil_append, List.mem_cons, List.not_mem_nil, or_false] at member
  rcases member with rfl | rfl | rfl | rfl
  · exact (toStepEnd.trans toStepStart).trans toStart
  · exact toStepEnd.trans toStepStart
  · exact toStepEnd
  · exact .refl _

/-- What lies above the end of the run: the other events of the call, and what was recorded before it -/
theorem above_last (parts : CallCommits proxy s during t) (causal : Causal s)
    (distinct : (t.commits.map (·.commitId)).Nodup) {ancestor : String}
    (path : Reach (recordedParents t.commits) parts.last.commitId ancestor) :
    ancestor ∉ during.map (·.commitId) := by
  have order : t.commits.Perm ((s.commits ++ [parts.start, parts.stepStart, parts.stepEnd, parts.last]) ++ during) := by
    rw [parts.commits, List.append_assoc, List.append_assoc]
    refine List.Perm.append_left s.commits ?_
    exact List.Perm.append_left [parts.start, parts.stepStart] List.perm_append_comm
  have apart : ∀ commit ∈ s.commits ++ [parts.start, parts.stepStart, parts.stepEnd, parts.last],
      commit.commitId ∉ during.map (·.commitId) := by
    have separate := (order.map (·.commitId)).nodup_iff.mp distinct
    rw [List.map_append] at separate
    exact fun commit member inside =>
      (List.nodup_append.mp separate).2.2 _ (List.mem_map_of_mem member) _ inside rfl
  have onlyOthers : ∀ parent ∈ s.commits.map (·.commitId), parent ∉ during.map (·.commitId) := by
    intro parent member
    obtain ⟨commit, listed, rfl⟩ := List.mem_map.mp member
    exact apart commit (List.mem_append_left _ listed)
  have outsideLast : parts.last.commitId ∉ during.map (·.commitId) := apart parts.last (by simp)
  refine path.mem_of_closed {id : String | id ∉ during.map RecordedCommit.commitId} ?_ outsideLast
  intro child outside parent found
  obtain ⟨commit, member, rfl, edge⟩ := mem_recordedParents_iff.1 found
  rcases parts.mem.mp member with old | inside | rfl | rfl | rfl | rfl
  · exact onlyOthers parent (causal.first.mem_of_mem old edge)
  · exact absurd (List.mem_map_of_mem inside) outside
  · rw [parts.startParents] at edge
    exact onlyOthers parent (causal.last _ parent edge)
  · rw [parts.stepStartParents, List.mem_singleton] at edge
    exact edge ▸ apart _ (by simp)
  · rw [parts.stepEndParents, List.mem_singleton] at edge
    exact edge ▸ apart _ (by simp)
  · rw [parts.lastParents, List.mem_singleton] at edge
    exact edge ▸ apart _ (by simp)

end CallCommits

section Completed

variable {calls : List (Invocation Obj Exc)} {call : Invocation Obj Exc} {result : Value Obj}

theorem replayable_of_no_callbacks (succeeds : Succeeds world)
    (run : proxy.invoke world call.graph call.input call.config (afterInvocations world proxy calls) = (.ok result, t))
    (bare : callbackCommits world proxy call (afterInvocations world proxy calls) = []) :
    ReplayableFromEnd proxy (afterInvocations world proxy calls) t := by
  obtain ⟨parts⟩ := invoke_commits succeeds causal_afterInvocations run
  rw [bare] at parts
  exact parts.replayable_of_nil

theorem no_callbacks_of_replayable (succeeds : Succeeds world)
    (run : proxy.invoke world call.graph call.input call.config (afterInvocations world proxy calls) = (.ok result, t))
    (distinct : (t.commits.map (·.commitId)).Nodup)
    (replayable : ReplayableFromEnd proxy (afterInvocations world proxy calls) t) :
    callbackCommits world proxy call (afterInvocations world proxy calls) = [] := by
  have causal : Causal (afterInvocations world proxy calls) := causal_afterInvocations
  obtain ⟨parts⟩ := invoke_commits succeeds causal run
  obtain ⟨before, last, split, _, reaches⟩ := replayable
  rw [parts.added, List.append_cons _ parts.stepEnd] at split
  obtain ⟨_, same⟩ := List.append_inj' split rfl
  obtain rfl := List.singleton_inj.mp same
  apply List.eq_nil_iff_forall_not_mem.mpr
  intro commit inside
  refine parts.above_last causal distinct (reaches commit ?_) (List.mem_map_of_mem inside)
  rw [parts.added]
  exact List.mem_append_left _ (List.mem_append_right _ inside)

/-- A completed call can be replayed from its end if its callbacks record nothing; with commit ids that are all
different, only then. Where its events can be recorded, that means that no callback is noticed. -/
theorem replayableFromEnd_iff (succeeds : Succeeds world)
    (run : proxy.invoke world call.graph call.input call.config (afterInvocations world proxy calls) = (.ok result, t)) :
    (callbackCommits world proxy call (afterInvocations world proxy calls) = [] →
      ReplayableFromEnd proxy (afterInvocations world proxy calls) t) ∧
    ((t.commits.map (·.commitId)).Nodup → ReplayableFromEnd proxy (afterInvocations world proxy calls) t →
      callbackCommits world proxy call (afterInvocations world proxy calls) = []) ∧
    (proxy.base.failOpen = true →
      Contained world proxy call.graph call.input call.config (afterInvocations world proxy calls).events →
        (t.commits.map (·.commitId)).Nodup →
          (ReplayableFromEnd proxy (afterInvocations world proxy calls) t ↔ Unnoticed world proxy call)) := by
  refine ⟨replayable_of_no_callbacks succeeds run, no_callbacks_of_replayable succeeds run, ?_⟩
  intro failOpen contained distinct
  rw [← callbackCommits_eq_nil_iff failOpen succeeds causal_afterInvocations contained]
  exact ⟨no_callbacks_of_replayable succeeds run distinct, replayable_of_no_callbacks succeeds run⟩

end Completed

section Sample

/-- A client that makes a commit with each call -/
def counting (calls : List (ClientCall Unit)) : Reply String :=
  .returned (String.ofList (List.replicate (calls.length + 1) 'c'))

theorem counting_succeeds : Succeeds (bareWorld counting) := by
  refine fun calls request => ⟨_, fun _ bare => ?_, rfl⟩
  have empty := congrArg String.toList bare
  rw [String.toList_ofList] at empty
  cases empty

/-- Every answer tells its place in the log. -/
def Counted (s : AdapterState Unit String) : Prop :=
  s.calls.map (·.2) = (List.range s.calls.length).map fun place =>
    .returned (String.ofList (List.replicate (place + 2) 'c'))

theorem counted_keeps (request : ClientCall Unit) : Fallible.Keeps (fun s t => Counted s → Counted t)
    (bareProxy.base.call (bareWorld counting) request) := by
  intro s counted
  rw [call_returned rfl]
  rw [Counted] at counted
  simp [Counted, counted, List.range_succ]

theorem Counted.distinct {s : AdapterState Unit String} (counted : Counted s) : (s.commits.map (·.commitId)).Nodup := by
  have ids : s.calls.map (fun entry => replyId entry.2) =
      (List.range s.calls.length).map fun place => String.ofList (List.replicate (place + 2) 'c') := by
    have read := congrArg (List.map replyId) counted
    rwa [List.map_map, List.map_map] at read
  have apart : (s.calls.map fun entry => replyId entry.2).Nodup := by
    rw [ids]
    refine List.nodup_range.map fun place other same => ?_
    have lengths := congrArg (fun text : String => text.toList.length) same
    simp only [String.toList_ofList, List.length_replicate] at lengths
    omega
  exact apart.sublist commitIds_sublist

/-- What a call of a sample graph does, from a new proxy -/
theorem bare_invoke {graph : Graph Unit String} (sample : graph = echo ∨ graph = notifying) :
    ∃ t, bareProxy.invoke (bareWorld counting) graph (.int 1) none initial = (.ok (.int 1), t) ∧
      (t.commits.map (·.commitId)).Nodup := by
  have transparent : Transparent (bareWorld counting) bareProxy graph (.int 1) none initial :=
    transparent_of_contained rfl (bare_contained sample 0)
  obtain ⟨prepared, _, outcome⟩ := transparent.outcome
  have alone : (graph (.int 1) prepared.config).alone = .ok (.int 1) := by
    rcases sample with rfl | rfl <;> rfl
  have keeps : Fallible.Keeps (fun s t => Counted s → Counted t)
      (bareProxy.invoke (bareWorld counting) graph (.int 1) none) := by
    refine invoke_keeps (fun _ _ _ first second counted => second (first counted)) counted_keeps fun s t same counted => ?_
    rw [Counted, same]
    exact counted
  have counted := keeps initial rfl
  rw [alone] at outcome
  rcases ended : bareProxy.invoke (bareWorld counting) graph (.int 1) none initial with ⟨final, t⟩
  rw [ended] at outcome counted
  obtain rfl : final = .ok (.int 1) := outcome
  exact ⟨t, rfl, counted.distinct⟩

/-- A call without callbacks can be replayed from its end. -/
theorem echo_replayable : ∃ t : AdapterState Unit String, ReplayableFromEnd bareProxy initial t ∧
    Unnoticed (bareWorld counting) bareProxy ⟨echo, .int 1, none⟩ := by
  let call : Invocation Unit String := ⟨echo, .int 1, none⟩
  obtain ⟨t, ended, distinct⟩ := bare_invoke (.inl rfl)
  have run : bareProxy.invoke (bareWorld counting) call.graph call.input call.config
      (afterInvocations (bareWorld counting) bareProxy []) = (.ok (.int 1), t) := ended
  have bare : callbackCommits (bareWorld counting) bareProxy call
      (afterInvocations (bareWorld counting) bareProxy []) = [] := by
    rw [callbackCommits]
    split
    · exact List.drop_length
    · rfl
  obtain ⟨enough, _, contained⟩ := replayableFromEnd_iff counting_succeeds run
  exact ⟨t, enough bare, (contained rfl (bare_contained (.inl rfl) 0) distinct).1 (enough bare)⟩

/-- The commit of a callback is no ancestor of the end. -/
theorem notifying_not_replayable : ¬ ∀ (world : AdapterWorld Unit String) (proxy : NexusLangGraphProxy Unit)
    (calls : List (Invocation Unit String)) (call : Invocation Unit String) (result : Value Unit)
    (t : AdapterState Unit String), Succeeds world →
      proxy.invoke world call.graph call.input call.config (afterInvocations world proxy calls) = (.ok result, t) →
        ReplayableFromEnd proxy (afterInvocations world proxy calls) t := by
  intro claim
  let call : Invocation Unit String := ⟨notifying, .int 1, none⟩
  obtain ⟨t, ended, distinct⟩ := bare_invoke (.inr rfl)
  have run : bareProxy.invoke (bareWorld counting) call.graph call.input call.config
      (afterInvocations (bareWorld counting) bareProxy []) = (.ok (.int 1), t) := ended
  have replayable := claim (bareWorld counting) bareProxy [] call (.int 1) t counting_succeeds run
  have bare := no_callbacks_of_replayable counting_succeeds run distinct replayable
  have unnoticed : Unnoticed (bareWorld counting) bareProxy call :=
    (callbackCommits_eq_nil_iff rfl counting_succeeds causal_initial (bare_contained (.inr rfl) 0)).1 bare
  cases unnoticed _ rfl

end Sample

end NexusLangGraphProxy

end Python

end AttowNexus
