import AttowNexus.Library.Listing
import AttowNexus.Proofs.PythonAdapters

/-! # The history of a crew is a chain

Every event of the CrewAI adapter is submitted with the last commit of the thread as its only parent, or without parents
while there is none, whatever calls of the client and conversions fail in between.
-/

namespace AttowNexus

namespace Python

open AdapterState NexusAdapterBase

variable {Obj Exc : Type} {threadId : String} {s t : AdapterState Obj Exc}
  {outcome : Except (Exn Exc) (List String)}

/-- The first commit has no parents, and each later one has the one before it. -/
def IsChain (commits : List RecordedCommit) : Prop :=
  ∀ before commit after, commits = before ++ commit :: after →
    commit.parents = (before.getLast?.map (·.commitId)).toList

theorem isChain_nil : IsChain [] := fun _ _ _ split => absurd split (by simp)

theorem isChain_concat_iff {commits : List RecordedCommit} {commit : RecordedCommit} :
    IsChain (commits ++ [commit]) ↔
      IsChain commits ∧ commit.parents = (commits.getLast?.map (·.commitId)).toList :=
  Listing.forall_split_concat_iff
    (P := fun (before : List RecordedCommit) commit => commit.parents = (before.getLast?.map (·.commitId)).toList)

/-- The commits of the thread are a chain, whose end is the last commit that the adapter knows. -/
structure Chained (threadId : String) (s : AdapterState Obj Exc) : Prop where
  thread : ∀ commit ∈ s.commits, commit.threadId = threadId
  named : ∀ commit ∈ s.commits, commit.commitId ≠ ""
  chain : IsChain s.commits
  last : s.lastCommitIdByThread.lookup threadId = s.commits.getLast?.map (·.commitId)

theorem chained_initial : Chained threadId (initial : AdapterState Obj Exc) where
  thread _ member := absurd member List.not_mem_nil
  named _ member := absurd member List.not_mem_nil
  chain := isChain_nil
  last := Finmap.lookup_empty _

namespace Chained

theorem lastParents (chained : Chained threadId s) :
    NexusAdapterBase.lastParents threadId s = (s.commits.getLast?.map (·.commitId)).toList := by
  rw [NexusAdapterBase.lastParents, chained.last]
  cases last : s.commits.getLast? with
  | none => rfl
  | some commit =>
    have named : commit.commitId ≠ "" := chained.named commit (List.mem_of_getLast? last)
    rw [Option.map_some, present_eq_some_iff.2 ⟨rfl, named⟩]

theorem quiet (chained : Chained threadId s) (quiet : Quiet s t) : Chained threadId t where
  thread := quiet.1 ▸ chained.thread
  named := quiet.1 ▸ chained.named
  chain := quiet.1 ▸ chained.chain
  last := by rw [quiet.2, quiet.1, chained.last]

theorem records {summary commitId : String} (chained : Chained threadId s) (named : commitId ≠ "")
    (records : Records ⟨threadId, summary, NexusAdapterBase.lastParents threadId s, commitId⟩ s t) :
    Chained threadId t where
  thread commit member := by
    rw [records.1, List.mem_append, List.mem_singleton] at member
    rcases member with old | rfl
    · exact chained.thread commit old
    · rfl
  named commit member := by
    rw [records.1, List.mem_append, List.mem_singleton] at member
    rcases member with old | rfl
    · exact chained.named commit old
    · exact named
  chain := by
    rw [records.1]
    exact isChain_concat_iff.2 ⟨chained.chain, chained.lastParents⟩
  last := by rw [records.2, Finmap.lookup_insert, records.1, List.getLast?_concat, Option.map_some]

end Chained

/-- The chain goes on, and a last commit stays known. -/
def Follows (threadId : String) (s t : AdapterState Obj Exc) : Prop :=
  (Chained threadId s → Chained threadId t) ∧ (lastParents threadId t = [] → lastParents threadId s = [])

namespace Follows

theorem refl (s : AdapterState Obj Exc) : Follows threadId s s := ⟨id, id⟩

theorem trans (s t u : AdapterState Obj Exc) (first : Follows threadId s t) (second : Follows threadId t u) :
    Follows threadId s u :=
  ⟨second.1 ∘ first.1, first.2 ∘ second.2⟩

theorem of_quiet (quiet : Quiet s t) : Follows threadId s t :=
  ⟨fun chained => chained.quiet quiet, fun none_ => lastParents_of_quiet quiet ▸ none_⟩

end Follows

/-- A checkpoint in the chain: without a last commit after it, it returns no parents. -/
structure Continues (threadId : String) (s : AdapterState Obj Exc) (outcome : Except (Exn Exc) (List String))
    (t : AdapterState Obj Exc) : Prop where
  follows : Follows threadId s t
  bare : ∀ given, outcome = .ok given → lastParents threadId t = [] → given = []

/-- A checkpoint with the last commit for its parent goes on with the chain. -/
theorem continues_of_last {world : AdapterWorld Obj Exc} {summary : String} {parents : List String}
    (checkpoints : Checkpoints world threadId summary parents s outcome t) (last : parents = lastParents threadId s) :
    Continues threadId s outcome t := by
  rcases checkpoints with ⟨quiet, kept⟩ | ⟨commitId, named, records, rfl⟩
  · refine ⟨.of_quiet quiet, fun given made none_ => ?_⟩
    rw [(kept given made).1, last, ← lastParents_of_quiet quiet, none_]
  · have known : lastParents threadId t = [commitId] := lastParents_of_records records named
    have some_ : lastParents threadId t ≠ [] := known ▸ List.cons_ne_nil _ _
    exact ⟨⟨fun chained => chained.records named (last ▸ records), fun none_ => absurd none_ some_⟩,
      fun given made none_ => absurd none_ some_⟩

theorem record_continues {world : AdapterWorld Obj Exc} {base : NexusAdapterBase Obj} {arguments : EventArguments Obj}
    (named : threadId ≠ "")
    (last : submittedParents threadId (arguments.parentCommitIds.getD []) s = lastParents threadId s)
    (run : base.record world (some threadId) arguments s = (outcome, t)) : Continues threadId s outcome t := by
  have checkpoints : Checkpoints world (base.deriveThreadId (some threadId)) _ _ s
      (base.record world (some threadId) arguments s).1 (base.record world (some threadId) arguments s).2 :=
    record_checkpoints s
  rw [deriveThreadId_some named, run] at checkpoints
  exact continues_of_last checkpoints last

namespace NexusCrewAIProxy

variable {world : AdapterWorld Obj Exc} {proxy : NexusCrewAIProxy Obj} {method : String}

theorem submittedParents_none : submittedParents threadId [] s = lastParents threadId s := if_pos rfl

theorem submittedParents_latest {parents : List String} (bare : lastParents threadId s = [] → parents = []) :
    submittedParents threadId (latestParents threadId parents s) s = lastParents threadId s := by
  rw [submittedParents, latestParents]
  by_cases none_ : lastParents threadId s = []
  · rw [if_pos none_, if_pos (bare none_)]
  · rw [if_neg none_, if_neg none_]

theorem composedStepCallback_follows (step : StepCallback Obj) :
    Fallible.Keeps (Follows (proxy.base.deriveThreadId none)) (proxy.composedStepCallback world step) := by
  rw [composedStepCallback]
  refine Fallible.Keeps.ite (Fallible.Keeps.pure Follows.refl _) ?_
  refine Fallible.Keeps.bind Follows.trans (Fallible.Keeps.lift Follows.refl _) fun output => ?_
  refine Fallible.Keeps.bind Follows.trans (fun now => ?_) fun _ => Fallible.Keeps.pure Follows.refl _
  exact (record_continues deriveThreadId_ne_empty submittedParents_none rfl).follows

/-- An event whose data may fail to be converted -/
theorem continues_of_converted {converted : Except (Exn Exc) (Value Obj)} {arguments : Value Obj → EventArguments Obj}
    (named : threadId ≠ "")
    (last : ∀ value, submittedParents threadId ((arguments value).parentCommitIds.getD []) s = lastParents threadId s)
    (run : (Fallible.lift converted >>= fun value => proxy.base.record world (some threadId) (arguments value)) s =
      (outcome, t)) : Continues threadId s outcome t := by
  rcases Fallible.bind_cases run with ⟨raised, failed, rfl⟩ | ⟨value, m, done, rest⟩
  · obtain ⟨_, rfl⟩ := Fallible.lift_eq_iff.1 failed
    exact ⟨Follows.refl _, nofun⟩
  · obtain ⟨_, same⟩ := Fallible.lift_eq_iff.1 done
    subst same
    exact record_continues named (last value) rest

theorem checkpointStart_continues {args : List (Value Obj)} {kwargs : List (String × Value Obj)} (named : threadId ≠ "")
    (run : proxy.checkpointStart world method threadId args kwargs s = (outcome, t)) : Continues threadId s outcome t :=
  continues_of_converted named (fun _ => submittedParents_none) run

theorem checkpointEnd_continues {result : Value Obj} {parents : List String} (named : threadId ≠ "")
    (bare : lastParents threadId s = [] → parents = [])
    (run : proxy.checkpointEnd world method threadId result parents s = (outcome, t)) :
    Continues threadId s outcome t := by
  rw [checkpointEnd, Fallible.bind_of_ok (show Fallible.get s = (.ok s, s) from rfl)] at run
  refine continues_of_converted named ?_ run
  exact fun _ => submittedParents_latest bare

theorem checkpointError_continues {exception : Exn Exc} {parents : List String} (named : threadId ≠ "")
    (bare : lastParents threadId s = [] → parents = [])
    (run : proxy.checkpointError world method exception threadId parents s = (outcome, t)) :
    Continues threadId s outcome t := by
  rw [checkpointError] at run
  split_ifs at run
  · obtain ⟨rfl, rfl⟩ := Fallible.pure_eq_iff.1 run
    exact ⟨Follows.refl _, fun given same none_ => Except.ok.inj same ▸ bare none_⟩
  · rw [Fallible.bind_of_ok (show Fallible.get s = (.ok s, s) from rfl)] at run
    refine continues_of_converted named ?_ run
    exact fun _ => submittedParents_latest bare

/-- One call goes on with the chain, however it ends. -/
theorem runSync_follows {func : Crew Obj Exc} {args : List (Value Obj)} {kwargs : List (String × Value Obj)} :
    Fallible.Keeps (Follows (proxy.base.deriveThreadId none)) (proxy.runSync world method func args kwargs) := by
  intro s
  have named : proxy.base.deriveThreadId none ≠ "" := deriveThreadId_ne_empty
  rcases ended : proxy.runSync world method func args kwargs s with ⟨final, t⟩
  rw [runSync] at ended
  have registers : Follows (proxy.base.deriveThreadId none) s
      (proxy.base.register world (some (proxy.base.deriveThreadId none)) s).2 := .of_quiet (register_quiet s)
  rcases Fallible.bind_cases ended with ⟨raised, failed, rfl⟩ | ⟨_, m, registered, rest⟩
  · rwa [failed] at registers
  rw [registered] at registers
  refine registers.trans _ _ _ ?_
  rcases Fallible.bind_cases rest with ⟨raised, failed, rfl⟩ | ⟨parents, begun, started, rest⟩
  · exact (checkpointStart_continues named failed).follows
  have starts := checkpointStart_continues named started
  refine starts.follows.trans _ _ _ ?_
  have bodyKeeps : Fallible.Keeps (Follows (proxy.base.deriveThreadId none)) ((do
      Fallible.lift (Value.deepcopy world.interpreter world.interpreter.recursionLimit [] (Value.ofEntries kwargs))
      (func args kwargs).run (proxy.composedStepCallback world)) : Adapter Obj Exc (Value Obj)) := by
    refine Fallible.Keeps.bind Follows.trans (Fallible.Keeps.lift Follows.refl _) fun _ => ?_
    exact WrappedCall.run_keeps Follows.refl Follows.trans composedStepCallback_follows _
  have body := bodyKeeps begun
  -- the parents that the start returned are empty as long as there is no last commit
  have bare : ∀ {m : AdapterState Obj Exc}, Follows (proxy.base.deriveThreadId none) begun m →
      lastParents (proxy.base.deriveThreadId none) m = [] → parents = [] :=
    fun follows none_ => starts.bare parents rfl (follows.2 none_)
  rcases Fallible.bind_cases rest with ⟨raised, failed, rfl⟩ | ⟨result, m', done, rest⟩
  · rcases Fallible.reraising_cases failed with ⟨_, _, wrong⟩ | ⟨thrown, m', stopped, rfl, _⟩
    · cases wrong
    · rw [stopped] at body
      exact body.trans _ _ _ (checkpointError_continues named (bare body) rfl).follows
  · rcases Fallible.reraising_cases done with ⟨_, returned, _⟩ | ⟨_, _, _, _, _, wrong⟩
    · rw [returned] at body
      refine body.trans _ _ _ ?_
      rcases Fallible.bind_cases rest with ⟨raised, failed, rfl⟩ | ⟨_, m'', done, rest⟩
      · exact (checkpointEnd_continues named (bare body) failed).follows
      · obtain ⟨_, rfl⟩ := Fallible.pure_eq_iff.1 rest
        exact (checkpointEnd_continues named (bare body) done).follows
    · cases wrong

/-- A call of `kickoff`: what the crew does in it, and its arguments -/
structure Kickoff (Obj Exc : Type) where
  crew : Crew Obj Exc
  args : List (Value Obj)
  kwargs : List (String × Value Obj)

/-- The state after calls of `kickoff` on a new proxy. The exception of a call ends that call only. -/
def afterKickoffs (world : AdapterWorld Obj Exc) (proxy : NexusCrewAIProxy Obj) (calls : List (Kickoff Obj Exc)) :
    AdapterState Obj Exc :=
  calls.foldl (fun s call => (proxy.kickoff world call.crew call.args call.kwargs s).2) initial

theorem kickoffs_chain (world : AdapterWorld Obj Exc) (proxy : NexusCrewAIProxy Obj) (calls : List (Kickoff Obj Exc)) :
    (∀ commit ∈ (afterKickoffs world proxy calls).commits, commit.threadId = proxy.base.deriveThreadId none) ∧
      IsChain (afterKickoffs world proxy calls).commits := by
  have chained : Chained (proxy.base.deriveThreadId none) (afterKickoffs world proxy calls) := by
    induction calls using List.reverseRecOn with
    | nil => exact chained_initial
    | append_singleton calls call ih =>
      rw [afterKickoffs, List.foldl_append]
      exact (runSync_follows _).1 ih
  exact ⟨chained.thread, chained.chain⟩

end NexusCrewAIProxy

end Python

end AttowNexus
