import AttowNexus.Model.StreamText
import AttowNexus.Proofs.Attempts

/-! # The events of a streamed run

An event of `streamText` reads its parents when it is built, or when it is sent if there were none. Both are the last
commit on its thread. Once the start of a run has got its commit with no other event in flight, the last commit leads
back to it, whatever is answered when.
-/

namespace AttowNexus

namespace TypeScript

open Checks NexusAdapterContext NexusAISDKAdapter Fallible

variable {Obj : Type}

namespace StreamRecord

variable (record : StreamRecord Obj)

def parents : List String := record.event.fields.parentCommitIds

def threadId : String := record.event.fields.threadId

def IsStart : Prop := record.event.fields.eventType = "run_start"

/-- It waits for `register`. -/
def Waits : Prop := record.stage = .registering ∨ ∃ outcome, record.stage = .registered outcome

/-- The client is sent it. -/
def IsSent : Prop := ∃ answer, record.stage = .sent answer

/-- The parents that it is sent with are read. -/
def Reads : Prop := record.IsSent ∨ record.Waits ∧ record.parents ≠ []

/-- The parents that it is sent with are read, and it may still be answered. -/
def InFlight : Prop := record.stage = .sent none ∨ record.Waits ∧ record.parents ≠ []

end StreamRecord

section Leading

variable {s t : StreamState Obj}

/-- A commit has this parent. -/
def HasParent (s : StreamState Obj) (child parent : String) : Prop :=
  ∃ record ∈ s.records, record.commitId.map (·.val) = some child ∧ parent ∈ record.parents

/-- Parents lead back to a commit. -/
def LeadBack (s : StreamState Obj) (parents : List String) (commitId : String) : Prop :=
  parents ≠ [] ∧ ∀ parent ∈ parents, Relation.ReflTransGen (HasParent s) parent commitId

/-- An event of a call leads back to the commit of its start. -/
def LeadsToStart (s : StreamState Obj) (record : StreamRecord Obj) : Prop :=
  ∃ start ∈ s.records, start.call = record.call ∧ start.IsStart ∧ ∃ commitId, start.commitId = some commitId ∧
    LeadBack s record.parents commitId.val

/-- Every event that is sent leads back to the start of its call. -/
def OneChain (s : StreamState Obj) : Prop :=
  ∀ record ∈ s.records, record.event.fields.eventType ∈ ["step_end", "run_end", "error"] → record.IsSent →
    LeadsToStart s record

/-- The start of a call has got its commit. -/
def Arrived (s : StreamState Obj) (call : ℕ) : Prop :=
  ∃ record ∈ s.records, record.call = call ∧ record.IsStart ∧ record.commitId ≠ none

/-- Events that have their commits stay. -/
def Stays (s t : StreamState Obj) : Prop := ∀ record ∈ s.records, record.commitId ≠ none → record ∈ t.records

theorem LeadBack.stays {parents : List String} {commitId : String} (leads : LeadBack s parents commitId)
    (stays : Stays s t) : LeadBack t parents commitId := by
  refine ⟨leads.1, fun parent member => Relation.ReflTransGen.mono ?_ _ _ (leads.2 parent member)⟩
  rintro child parent ⟨record, inside, committed, member⟩
  refine ⟨record, stays record inside ?_, committed, member⟩
  intro none
  rw [none] at committed
  exact absurd committed nofun

theorem LeadsToStart.stays {record next : StreamRecord Obj} (leads : LeadsToStart s record) (stays : Stays s t)
    (call : next.call = record.call) (parents : next.parents = record.parents) : LeadsToStart t next := by
  obtain ⟨start, inside, own, isStart, commitId, committed, leads⟩ := leads
  refine ⟨start, stays start inside ?_, own.trans call.symm, isStart, commitId, committed, parents ▸ leads.stays stays⟩
  rw [committed]
  exact nofun

end Leading

section Timing

variable (world : AdapterWorld Obj) (options : NexusAISDKAdapterOptions Obj)

/-- What `register` of an event comes to in this action -/
def registration (action : StreamAction Obj) (record : StreamRecord Obj) : Option (Except (Thrown Obj) Unit) :=
  match action, record.stage with
  | .registered _ answer, .registering => some (registerOutcome world options answer)
  | .resume _, .registered outcome => some outcome
  | _, _ => none

/-- The start of a call has got its commit when another event of the call reads the last commit of its thread, and no
event on the thread of a start is in flight when that gets its commit. -/
def InTime (s : StreamState Obj) (action : StreamAction Obj) : Prop :=
  match action with
  | .start _ => True
  | .fire index _ _ => ∀ call, s.calls[index]? = some call → s.context.lastParents call.threadId ≠ [] → Arrived s index
  | .finish _ (.ok _) => True
  | .finish index (.error _) =>
      ∀ call, s.calls[index]? = some call → s.context.lastParents call.threadId ≠ [] → Arrived s index
  | .registered index _ => ∀ record, s.records[index]? = some record → ¬ record.IsStart → record.parents = [] →
      registration world options action record = some (.ok ()) → Arrived s record.call
  | .resume index => ∀ record, s.records[index]? = some record → ¬ record.IsStart → record.parents = [] →
      registration world options action record = some (.ok ()) → Arrived s record.call
  | .answered index answer => ∀ record, s.records[index]? = some record → record.IsStart →
      ({ record with stage := .sent (some answer) } : StreamRecord Obj).commitId ≠ none →
        ∀ other ∈ s.records.eraseIdx index, other.threadId = record.threadId → ¬ other.InFlight

/-- Each action is in time. -/
def AllInTime (actions : List (StreamAction Obj)) : Prop :=
  ∀ before action after, actions = before ++ action :: after →
    InTime world options (performAll world options before) action

end Timing

section Moves

variable {world : AdapterWorld Obj} {options : NexusAISDKAdapterOptions Obj} {s t : StreamState Obj}
  {action : StreamAction Obj} {index call : ℕ} {threadId : String} {given : Except (Thrown Obj) (EventInput Obj)}

/-- Calls stay on their threads. -/
def Placed (s t : StreamState Obj) : Prop :=
  ∀ (index : ℕ) (call : StreamCall Obj), s.calls[index]? = some call →
    ∃ later, t.calls[index]? = some later ∧ later.threadId = call.threadId

/-- What an action does -/
inductive Moves (s t : StreamState Obj) : Prop where
  | quiet (records : t.records = s.records)
      (last : t.context.lastCommitByThread = s.context.lastCommitByThread) : Moves s t
  | launched {record : StreamRecord Obj} (records : t.records = s.records ++ [record])
      (last : t.context.lastCommitByThread = s.context.lastCommitByThread)
      (reads : record.parents = s.context.lastParents record.threadId) (waits : record.Waits)
      (belongs : ∃ call, t.calls[record.call]? = some call ∧ call.threadId = record.threadId)
      (timely : ¬ record.IsStart → record.parents ≠ [] → Arrived s record.call) : Moves s t
  | dropped {index : ℕ} {record next : StreamRecord Obj} (found : s.records[index]? = some record)
      (waits : record.Waits) (records : t.records = s.records.set index next)
      (last : t.context.lastCommitByThread = s.context.lastCommitByThread) (call : next.call = record.call)
      (thread : next.threadId = record.threadId) (unsent : next.stage = .unsent) : Moves s t
  | sent {index : ℕ} {record next : StreamRecord Obj} (found : s.records[index]? = some record)
      (waits : record.Waits) (records : t.records = s.records.set index next)
      (last : t.context.lastCommitByThread = s.context.lastCommitByThread) (call : next.call = record.call)
      (thread : next.threadId = record.threadId) (start : next.IsStart ↔ record.IsStart)
      (stage : next.stage = .sent none)
      (reads : next.parents = if record.parents = [] then s.context.lastParents record.threadId else record.parents)
      (timely : ¬ record.IsStart → record.parents = [] → Arrived s record.call) : Moves s t
  | completed {index : ℕ} {record next : StreamRecord Obj} (found : s.records[index]? = some record)
      (flies : record.stage = .sent none) (records : t.records = s.records.set index next)
      (event : next.event = record.event) (call : next.call = record.call)
      (sent : ∃ answer, next.stage = .sent (some answer))
      (last : t.context.lastCommitByThread = match next.commitId with
        | some commitId => s.context.lastCommitByThread.insert record.threadId commitId
        | none => s.context.lastCommitByThread)
      (timely : record.IsStart → next.commitId ≠ none →
        ∀ other ∈ s.records.eraseIdx index, other.threadId = record.threadId → ¬ other.InFlight) : Moves s t

theorem StreamRecord.commitId_of_waits {record : StreamRecord Obj} (waits : record.Waits) : record.commitId = none := by
  rw [commitId]
  rcases waits with stage | ⟨outcome, stage⟩
  · rw [stage]
  · rw [stage]

theorem StreamRecord.not_waits_of_sent {record : StreamRecord Obj} (sent : record.IsSent) : ¬ record.Waits := by
  obtain ⟨answer, stage⟩ := sent
  rintro (waits | ⟨outcome, waits⟩)
  · exact absurd (stage.symm.trans waits) nofun
  · exact absurd (stage.symm.trans waits) nofun

theorem StreamRecord.InFlight.reads {record : StreamRecord Obj} (flies : record.InFlight) : record.Reads := by
  rcases flies with sent | waits
  · exact .inl ⟨none, sent⟩
  · exact .inr waits

theorem stays_set {next record : StreamRecord Obj} (found : s.records[index]? = some record)
    (uncommitted : record.commitId = none) (records : t.records = s.records.set index next) : Stays s t := by
  intro other inside committed
  obtain ⟨place, bound, rfl⟩ := List.mem_iff_getElem.mp inside
  have apart : index ≠ place := by
    rintro rfl
    rw [List.getElem?_eq_getElem bound] at found
    exact committed (Option.some.inj found ▸ uncommitted)
  rw [records]
  exact List.mem_iff_getElem.mpr ⟨place, by rw [List.length_set]; exact bound, List.getElem_set_ne apart _⟩

/-- Whatever is answered when, the last commit on the thread of a start that has got its commit leads back to it, and
so do the events in flight there. -/
structure Chained (s : StreamState Obj) : Prop where
  placed : ∀ record ∈ s.records, ∃ call, s.calls[record.call]? = some call ∧ call.threadId = record.threadId
  last : ∀ start ∈ s.records, start.IsStart → ∀ commitId, start.commitId = some commitId →
    LeadBack s (s.context.lastParents start.threadId) commitId.val
  flight : ∀ start ∈ s.records, start.IsStart → ∀ commitId, start.commitId = some commitId →
    ∀ record ∈ s.records, record.threadId = start.threadId → record.InFlight → LeadBack s record.parents commitId.val
  chained : ∀ record ∈ s.records, ¬ record.IsStart → record.Reads → LeadsToStart s record

theorem chained_empty : Chained (.empty : StreamState Obj) where
  placed _ member := absurd member List.not_mem_nil
  last _ member := absurd member List.not_mem_nil
  flight _ member := absurd member List.not_mem_nil
  chained _ member := absurd member List.not_mem_nil

/-- What an event without a commit has to meet -/
structure Fits (s t : StreamState Obj) (record : StreamRecord Obj) : Prop where
  uncommitted : record.commitId = none
  placed : ∃ call, t.calls[record.call]? = some call ∧ call.threadId = record.threadId
  flight : record.InFlight → ∀ start ∈ s.records, start.IsStart → ∀ commitId, start.commitId = some commitId →
    record.threadId = start.threadId → LeadBack s record.parents commitId.val
  leads : ¬ record.IsStart → record.Reads → LeadsToStart t record

theorem Chained.extend (chained : Chained s) (placed : Placed s t) (stays : Stays s t)
    (last : t.context.lastCommitByThread = s.context.lastCommitByThread)
    (fits : ∀ record ∈ t.records, record ∈ s.records ∨ Fits s t record) : Chained t := by
  have old : ∀ start ∈ t.records, ∀ {commitId}, start.commitId = some commitId → start ∈ s.records := by
    intro start inside commitId committed
    rcases fits start inside with old | new
    · exact old
    · exact absurd (new.uncommitted.symm.trans committed) nofun
  constructor
  · intro record inside
    rcases fits record inside with old | new
    · obtain ⟨call, found, thread⟩ := chained.placed record old
      obtain ⟨later, found, same⟩ := placed _ _ found
      exact ⟨later, found, same.trans thread⟩
    · exact new.placed
  · intro start inside isStart commitId committed
    rw [ContextState.lastParents, last]
    exact (chained.last start (old start inside committed) isStart commitId committed).stays stays
  · intro start inside isStart commitId committed record member thread flies
    have before := old start inside committed
    rcases fits record member with own | new
    · exact (chained.flight start before isStart commitId committed record own thread flies).stays stays
    · exact (new.flight flies start before isStart commitId committed thread).stays stays
  · intro record member notStart reads
    rcases fits record member with own | new
    · exact (chained.chained record own notStart reads).stays stays rfl rfl
    · exact new.leads notStart reads

/-- What the last commit leads to, when the start of the call has got its commit -/
theorem Chained.leadsToStart (chained : Chained s) (placed : Placed s t) (stays : Stays s t)
    {record : StreamRecord Obj} (arrived : Arrived s record.call)
    (belongs : ∃ call, t.calls[record.call]? = some call ∧ call.threadId = record.threadId)
    (reads : record.parents = s.context.lastParents record.threadId) : LeadsToStart t record := by
  obtain ⟨start, inside, own, isStart, got⟩ := arrived
  obtain ⟨commitId, committed⟩ := Option.ne_none_iff_exists'.mp got
  obtain ⟨call, found, thread⟩ := chained.placed start inside
  obtain ⟨later, found, same⟩ := placed _ _ found
  obtain ⟨_, found', thread'⟩ := belongs
  rw [own, found'] at found
  obtain rfl := Option.some.inj found
  refine ⟨start, stays start inside got, own, isStart, commitId, committed, ?_⟩
  rw [reads, ← thread', same, thread]
  exact (chained.last start inside isStart commitId committed).stays stays

theorem StreamRecord.not_inFlight_of_answered {record : StreamRecord Obj}
    (sent : ∃ answer, record.stage = .sent (some answer)) : ¬ record.InFlight := by
  obtain ⟨answer, stage⟩ := sent
  rintro (flies | ⟨waits, _⟩)
  · exact absurd (stage.symm.trans flies) nofun
  · exact StreamRecord.not_waits_of_sent ⟨_, stage⟩ waits

theorem ContextState.lastParents_of_insert {context later : ContextState} {commitId : CommitId}
    (last : later.lastCommitByThread = context.lastCommitByThread.insert threadId commitId) (other : String) :
    later.lastParents other = if other = threadId then [commitId.val] else context.lastParents other := by
  rw [lastParents, last]
  split_ifs with same
  · rw [same, Finmap.lookup_insert]
    rfl
  · rw [Finmap.lookup_insert_of_ne _ same]
    rfl

/-- A commit leads to where its parents lead. -/
theorem LeadBack.step {parents : List String} {child commitId : String} (leads : LeadBack s parents commitId)
    {record : StreamRecord Obj} (inside : record ∈ s.records) (committed : record.commitId.map (·.val) = some child)
    (reads : record.parents = parents) : LeadBack s [child] commitId := by
  obtain ⟨parent, member⟩ := List.exists_mem_of_ne_nil _ leads.1
  refine ⟨List.cons_ne_nil _ _, List.forall_mem_singleton.mpr ?_⟩
  exact .head ⟨record, inside, committed, reads ▸ member⟩ (leads.2 parent member)

/-- An event gets its commit, which becomes the last on its thread. -/
theorem Chained.completed {record next : StreamRecord Obj} (chained : Chained s) (placed : Placed s t)
    (found : s.records[index]? = some record) (flies : record.stage = .sent none)
    (records : t.records = s.records.set index next) (event : next.event = record.event)
    (call : next.call = record.call) (sent : ∃ answer, next.stage = .sent (some answer))
    (last : t.context.lastCommitByThread = match next.commitId with
      | some commitId => s.context.lastCommitByThread.insert record.threadId commitId
      | none => s.context.lastCommitByThread)
    (timely : record.IsStart → next.commitId ≠ none →
      ∀ other ∈ s.records.eraseIdx index, other.threadId = record.threadId → ¬ other.InFlight) : Chained t := by
  have before := List.mem_of_getElem? found
  have stays : Stays s t := stays_set found (by rw [StreamRecord.commitId, flies]) records
  have parents : next.parents = record.parents := congrArg (·.fields.parentCommitIds) event
  have thread : next.threadId = record.threadId := congrArg (·.fields.threadId) event
  have starts : next.IsStart ↔ record.IsStart := by rw [StreamRecord.IsStart, event, StreamRecord.IsStart]
  have members : ∀ other ∈ t.records, other = next ∨ other ∈ s.records.eraseIdx index := by
    intro other inside
    rw [records] at inside
    exact Listing.mem_set_cases inside
  have belongs : ∃ call, t.calls[next.call]? = some call ∧ call.threadId = next.threadId := by
    obtain ⟨own, place, same⟩ := chained.placed record before
    obtain ⟨later, place, still⟩ := placed _ _ place
    exact ⟨later, call ▸ place, (still.trans same).trans thread.symm⟩
  have leads : ¬ next.IsStart → LeadsToStart t next := fun notStart =>
    (chained.chained record before (mt starts.mpr notStart) (.inl ⟨none, flies⟩)).stays stays call parents
  cases committed : next.commitId with
  | none =>
    rw [committed] at last
    refine chained.extend placed stays last fun other inside => ?_
    rcases members other inside with rfl | old
    · exact .inr ⟨committed, belongs, fun flies => absurd flies (StreamRecord.not_inFlight_of_answered sent),
        fun notStart _ => leads notStart⟩
    · exact .inl (List.mem_of_mem_eraseIdx old)
  | some commitId =>
    rw [committed] at last
    have inside : next ∈ t.records := by
      obtain ⟨bound, _⟩ := List.getElem?_eq_some_iff.mp found
      rw [records]
      exact List.mem_set bound next
    have becomes := ContextState.lastParents_of_insert last
    constructor
    · intro other member
      rcases members other member with rfl | old
      · exact belongs
      · obtain ⟨own, place, same⟩ := chained.placed other (List.mem_of_mem_eraseIdx old)
        obtain ⟨later, place, still⟩ := placed _ _ place
        exact ⟨later, place, still.trans same⟩
    · intro start member isStart own got
      rw [becomes]
      rcases members start member with rfl | old
      · rw [if_pos thread]
        obtain rfl := Option.some.inj (committed.symm.trans got)
        exact ⟨List.cons_ne_nil _ _, List.forall_mem_singleton.mpr .refl⟩
      · have early := List.mem_of_mem_eraseIdx old
        split_ifs with same
        · have flown := chained.flight start early isStart own got record before same.symm (.inl flies)
          exact (flown.stays stays).step inside (by rw [committed]; rfl) parents
        · exact (chained.last start early isStart own got).stays stays
    · intro start member isStart own got other among onThread flies
      rcases members other among with rfl | old
      · exact absurd flies (StreamRecord.not_inFlight_of_answered sent)
      rcases members start member with rfl | early
      · exact absurd flies (timely (starts.mp isStart) (by rw [committed]; exact nofun) other old
          (onThread.trans thread))
      · exact (chained.flight start (List.mem_of_mem_eraseIdx early) isStart own got other
          (List.mem_of_mem_eraseIdx old) onThread flies).stays stays
    · intro other among notStart reads
      rcases members other among with rfl | old
      · exact leads notStart
      · exact (chained.chained other (List.mem_of_mem_eraseIdx old) notStart reads).stays stays rfl rfl

theorem Chained.moves (chained : Chained s) (placed : Placed s t) (moves : Moves s t) : Chained t := by
  cases moves with
  | quiet records last =>
    have stays : Stays s t := fun record inside _ => records ▸ inside
    exact chained.extend placed stays last fun record inside => .inl (records ▸ inside)
  | @launched record records last reads waits belongs timely =>
    have stays : Stays s t := fun record inside _ => records ▸ List.mem_append_left _ inside
    refine chained.extend placed stays last fun other inside => ?_
    rw [records] at inside
    rcases List.mem_append.mp inside with old | new
    · exact .inl old
    obtain rfl := List.mem_singleton.mp new
    refine .inr ⟨StreamRecord.commitId_of_waits waits, belongs, ?_, ?_⟩
    · intro _ start member isStart commitId committed thread
      rw [reads, thread]
      exact chained.last start member isStart commitId committed
    · rintro notStart (sent | ⟨_, parents⟩)
      · exact absurd waits (StreamRecord.not_waits_of_sent sent)
      · exact chained.leadsToStart placed stays (timely notStart parents) belongs reads
  | @dropped index record next found waits records last call thread unsent =>
    have stays := stays_set found (StreamRecord.commitId_of_waits waits) records
    refine chained.extend placed stays last fun other inside => ?_
    rw [records] at inside
    rcases Listing.mem_set_cases inside with rfl | old
    · obtain ⟨own, place, same⟩ := chained.placed record (List.mem_of_getElem? found)
      have notSent : ¬ other.IsSent := fun ⟨_, sent⟩ => absurd (unsent.symm.trans sent) nofun
      have notWaits : ¬ other.Waits := by
        rintro (waits | ⟨_, waits⟩)
        · exact absurd (unsent.symm.trans waits) nofun
        · exact absurd (unsent.symm.trans waits) nofun
      have notReads : ¬ other.Reads := by
        rintro (sent | ⟨waits, _⟩)
        · exact notSent sent
        · exact notWaits waits
      obtain ⟨later, place, still⟩ := placed _ _ place
      refine .inr ⟨?_, ⟨later, call ▸ place, (still.trans same).trans thread.symm⟩, ?_, ?_⟩
      · rw [StreamRecord.commitId, unsent]
      · exact fun flies => absurd flies.reads notReads
      · exact fun _ reads => absurd reads notReads
    · exact .inl (List.mem_of_mem_eraseIdx old)
  | @sent index record next found waits records last call thread isStart stage reads timely =>
    have stays := stays_set found (StreamRecord.commitId_of_waits waits) records
    have before := List.mem_of_getElem? found
    refine chained.extend placed stays last fun other inside => ?_
    rw [records] at inside
    rcases Listing.mem_set_cases inside with rfl | old
    · obtain ⟨own, place, same⟩ := chained.placed record before
      obtain ⟨later, place, still⟩ := placed _ _ place
      have belongs : ∃ call, t.calls[other.call]? = some call ∧ call.threadId = other.threadId :=
        ⟨later, call ▸ place, (still.trans same).trans thread.symm⟩
      refine .inr ⟨by rw [StreamRecord.commitId, stage], belongs, ?_, ?_⟩
      · intro _ start member isStart commitId committed onThread
        by_cases bare : record.parents = []
        · rw [reads, if_pos bare, ← thread, onThread]
          exact chained.last start member isStart commitId committed
        · rw [reads, if_neg bare]
          exact chained.flight start member isStart commitId committed record before (thread.symm.trans onThread)
            (.inr ⟨waits, bare⟩)
      · intro notStart _
        by_cases bare : record.parents = []
        · rw [if_pos bare, ← thread] at reads
          exact chained.leadsToStart placed stays (call ▸ timely (mt isStart.mpr notStart) bare) belongs reads
        · rw [if_neg bare] at reads
          exact (chained.chained record before (mt isStart.mpr notStart) (.inr ⟨waits, bare⟩)).stays stays call reads
    · exact .inl (List.mem_of_mem_eraseIdx old)
  | completed found flies records event call sent last timely =>
    exact chained.completed placed found flies records event call sent last timely

variable (s t call threadId given) in
/-- An event is built, and waits for `register`. -/
structure Launched (record : StreamRecord Obj) : Prop where
  records : t.records = s.records ++ [record]
  call : record.call = call
  thread : record.threadId = threadId
  reads : record.parents = s.context.lastParents threadId
  waits : record.Waits
  typed : ∃ input, given = .ok input ∧ record.event.fields.eventType = input.eventType

theorem waits_beginRegister {context : ContextState} (record : StreamRecord Obj)
    (stage : record.stage = (beginRegister world options threadId context).1) : record.Waits := by
  rw [beginRegister] at stage
  split_ifs at stage
  · exact .inr ⟨_, stage⟩
  · split at stage
    · exact .inr ⟨_, stage⟩
    · exact .inl stage

theorem lastCommitByThread_beginRegister (context : ContextState) :
    (beginRegister world options threadId context).2.lastCommitByThread = context.lastCommitByThread := by
  rw [beginRegister]
  split_ifs
  · rfl
  · split
    · rfl
    · rfl

/-- An event is built on its thread, or nothing happens to the others. -/
theorem launch_cases {outcome : Except (Thrown Obj) Unit}
    (run : launch world options call threadId given s = (outcome, t)) :
    t.calls = s.calls ∧ t.context.lastCommitByThread = s.context.lastCommitByThread ∧
      ((t.records = s.records ∧ outcome ≠ .ok ()) ∨
        (outcome = .ok () ∧ ∃ record, Launched s t call threadId given record)) := by
  rcases bind_cases run with ⟨raised, lifted, rfl⟩ | ⟨input, m, lifted, built⟩
  · obtain ⟨_, rfl⟩ := lift_eq_iff.1 lifted
    exact ⟨rfl, rfl, .inl ⟨rfl, nofun⟩⟩
  obtain ⟨made, rfl⟩ := lift_eq_iff.1 lifted
  rcases bind_cases built with ⟨raised, zoomed, rfl⟩ | ⟨event, m, zoomed, modified⟩
  · obtain ⟨after, fails, rfl⟩ := zoom_eq_iff.1 zoomed
    have keeps : Keeps (fun s t : ContextState => t.lastCommitByThread = s.lastCommitByThread)
        (NexusAdapterContext.event world options.context threadId input) :=
      event_keeps (R := fun s t => t.lastCommitByThread = s.lastCommitByThread) (fun _ => rfl)
        (fun _ _ _ first second => second.trans first) (fun _ => rfl) input
    have kept := keeps m.context
    dsimp only at kept
    rw [fails] at kept
    exact ⟨rfl, kept, .inl ⟨rfl, nofun⟩⟩
  · obtain ⟨after, builds, rfl⟩ := zoom_eq_iff.1 zoomed
    obtain ⟨version, _, rfl, rfl⟩ := event_eq_ok_iff.1 builds
    obtain ⟨rfl, rfl⟩ := modify_eq_iff.1 modified
    refine ⟨rfl, lastCommitByThread_beginRegister _, .inr ⟨rfl, _, rfl, rfl, rfl, rfl, ?_, input, made.symm, rfl⟩⟩
    exact waits_beginRegister _ rfl

theorem Launched.moves {record : StreamRecord Obj} {m : StreamState Obj}
    (launched : Launched s m call threadId given record) (records : t.records = m.records)
    (last : t.context.lastCommitByThread = s.context.lastCommitByThread)
    (belongs : ∃ own, t.calls[call]? = some own ∧ own.threadId = threadId)
    (timely : ¬ record.IsStart → s.context.lastParents threadId ≠ [] → Arrived s call) : Moves s t := by
  obtain ⟨grown, rfl, rfl, reads, waits, _⟩ := launched
  exact .launched (records.trans grown) last reads waits belongs fun notStart parents =>
    timely notStart (reads ▸ parents)

theorem Moves.of_eq (same : t = s) : Moves s t :=
  .quiet (congrArg (·.records) same) (congrArg (·.context.lastCommitByThread) same)

theorem streamText_moves {inputOptions : InputOptions Obj} {outcome : Except (Thrown Obj) Unit}
    (run : streamText world options inputOptions s = (outcome, t)) : Placed s t ∧ Moves s t := by
  rcases bind_cases run with ⟨raised, lifted, rfl⟩ | ⟨given, m, lifted, rest⟩
  · obtain ⟨_, rfl⟩ := lift_eq_iff.1 lifted
    exact ⟨fun _ call found => ⟨call, found, rfl⟩, .of_eq rfl⟩
  obtain ⟨_, rfl⟩ := lift_eq_iff.1 lifted
  rw [bind_of_ok (get_eq_iff.2 ⟨rfl, rfl⟩)] at rest
  rcases bind_cases rest with ⟨raised, launches, rfl⟩ | ⟨_, n, launches, modified⟩
  · obtain ⟨calls, last, ⟨records, _⟩ | ⟨wrong, _⟩⟩ := launch_cases launches
    · exact ⟨fun _ call found => ⟨call, calls ▸ found, rfl⟩, .quiet records last⟩
    · exact absurd wrong nofun
  · obtain ⟨calls, last, ⟨_, wrong⟩ | ⟨_, record, launched⟩⟩ := launch_cases launches
    · exact absurd rfl wrong
    obtain ⟨rfl, rfl⟩ := modify_eq_iff.1 modified
    constructor
    · intro index call found
      obtain ⟨bound, _⟩ := List.getElem?_eq_some_iff.mp found
      refine ⟨call, ?_, rfl⟩
      rw [calls, List.getElem?_append_left bound]
      exact found
    · refine launched.moves rfl last ?_ ?_
      · have found : ∀ own : StreamCall Obj, (n.calls ++ [own])[m.calls.length]? = some own := by
          intro own
          rw [calls, List.getElem?_concat_length]
        exact ⟨_, found _, rfl⟩
      · obtain ⟨input, made, typed⟩ := launched.typed
        obtain ⟨_, rfl⟩ := startEvent_eq made
        exact fun notStart => absurd typed notStart

theorem fire_moves {callback : AICallback} {value : Value Obj} {outcome : Except (Thrown Obj) Unit}
    (timely : InTime world options s (.fire call callback value))
    (run : fire world options call callback value s = (outcome, t)) : Placed s t ∧ Moves s t := by
  rw [fire, bind_of_ok (get_eq_iff.2 ⟨rfl, rfl⟩)] at run
  have unchanged : Placed s s ∧ Moves s s := ⟨fun _ call found => ⟨call, found, rfl⟩, .of_eq rfl⟩
  rcases found : s.calls[call]? with _ | ⟨threadId, raised | wrapped, running⟩
  · rw [found] at run
    obtain ⟨_, rfl⟩ := pure_eq_iff.1 run
    exact unchanged
  · rw [found] at run
    obtain ⟨_, rfl⟩ := pure_eq_iff.1 run
    exact unchanged
  · rw [found] at run
    rcases bind_cases run with ⟨raised, lifted, rfl⟩ | ⟨_, m, lifted, launches⟩
    · obtain ⟨_, rfl⟩ := lift_eq_iff.1 lifted
      exact unchanged
    obtain ⟨_, rfl⟩ := lift_eq_iff.1 lifted
    obtain ⟨calls, last, ⟨records, _⟩ | ⟨_, record, launched⟩⟩ := launch_cases launches
    · exact ⟨fun _ call found => ⟨call, calls ▸ found, rfl⟩, .quiet records last⟩
    · refine ⟨fun _ call found => ⟨call, calls ▸ found, rfl⟩, launched.moves rfl last ⟨_, calls ▸ found, rfl⟩ ?_⟩
      exact fun _ => timely _ found

variable (world options call) in
/-- What the end of a call still does about the result -/
private def afterwards (threadId : String) (result : Except (Thrown Obj) (Value Obj)) : Streaming Obj Unit :=
  match result with
  | .ok _ => pure ()
  | .error raised => launch world options call threadId (errorEvent world "streamText" raised)

theorem finish_moves {result : Except (Thrown Obj) (Value Obj)} {outcome : Except (Thrown Obj) Unit}
    (timely : InTime world options s (.finish call result))
    (run : finish world options call result s = (outcome, t)) : Placed s t ∧ Moves s t := by
  rw [finish, bind_of_ok (get_eq_iff.2 ⟨rfl, rfl⟩)] at run
  have unchanged : Placed s s ∧ Moves s s := ⟨fun _ call found => ⟨call, found, rfl⟩, .of_eq rfl⟩
  rcases found : s.calls[call]? with _ | ⟨threadId, wrapped, _ | _⟩
  · rw [found] at run
    obtain ⟨_, rfl⟩ := pure_eq_iff.1 run
    exact unchanged
  · rw [found] at run
    obtain ⟨_, rfl⟩ := pure_eq_iff.1 run
    exact unchanged
  · obtain ⟨bound, _⟩ := List.getElem?_eq_some_iff.mp found
    obtain ⟨m, calls, records, last, rest⟩ : ∃ m : StreamState Obj,
        m.calls = s.calls.set call ⟨threadId, wrapped, false⟩ ∧ m.records = s.records ∧
          m.context.lastCommitByThread = s.context.lastCommitByThread ∧
            afterwards world options call threadId result m = (outcome, t) := by
      rw [found] at run
      dsimp only at run
      rw [bind_of_ok (modify_eq_iff.2 ⟨rfl, rfl⟩)] at run
      exact ⟨{ s with calls := s.calls.set call ⟨threadId, wrapped, false⟩ }, rfl, rfl, rfl, run⟩
    have placed : ∀ {t : StreamState Obj}, t.calls = m.calls → Placed s t := by
      intro t same index other foundOther
      rw [same, calls]
      by_cases here : call = index
      · subst here
        refine ⟨_, List.getElem?_set_self bound, ?_⟩
        rw [found] at foundOther
        rw [← Option.some.inj foundOther]
      · exact ⟨other, (List.getElem?_set_ne here).trans foundOther, rfl⟩
    cases result with
    | ok result =>
      obtain ⟨_, rfl⟩ := pure_eq_iff.1 rest
      exact ⟨placed rfl, .quiet records last⟩
    | error raised =>
      obtain ⟨calls', last', ⟨records', _⟩ | ⟨_, record, launched⟩⟩ := launch_cases rest
      · exact ⟨placed calls', .quiet (records'.trans records) (last'.trans last)⟩
      · have parents : record.parents = s.context.lastParents threadId := by
          rw [launched.reads, ContextState.lastParents, last, ContextState.lastParents]
        have fromStart : Launched s t call threadId (errorEvent world "streamText" raised) record :=
          ⟨records ▸ launched.records, launched.call, launched.thread, parents, launched.waits, launched.typed⟩
        have belongs : ∃ own, t.calls[call]? = some own ∧ own.threadId = threadId := by
          obtain ⟨later, foundLater, thread⟩ := placed calls' call _ found
          exact ⟨later, foundLater, thread⟩
        exact ⟨placed calls', fromStart.moves rfl (last'.trans last) belongs fun _ => timely _ found⟩

theorem parents_withLastParents (event : AdapterEvent Obj) (context : ContextState) :
    (withLastParents context event).fields.parentCommitIds = if event.fields.parentCommitIds = [] then
      context.lastParents event.fields.threadId else event.fields.parentCommitIds := by
  rw [withLastParents]
  split_ifs
  · rfl
  · rfl

theorem eventType_withLastParents (event : AdapterEvent Obj) (context : ContextState) :
    (withLastParents context event).fields.eventType = event.fields.eventType := by
  rw [withLastParents]
  split_ifs
  · rfl
  · rfl

/-- What comes after `register` -/
theorem afterRegister_moves {record next : StreamRecord Obj} {result : Except (Thrown Obj) Unit} {context : ContextState}
    (found : s.records[index]? = some record) (waits : record.Waits)
    (timely : ¬ record.IsStart → record.parents = [] → result = .ok () → Arrived s record.call)
    (run : afterRegister world options result record s.context = (next, context)) :
    Moves s { s with context := context, records := s.records.set index next } := by
  cases result with
  | error raised =>
    obtain ⟨rfl, rfl⟩ := Prod.mk.inj run
    exact .dropped found waits rfl rfl rfl rfl rfl
  | ok _ =>
    rw [afterRegister] at run
    dsimp only at run
    split at run
    · obtain ⟨rfl, rfl⟩ := Prod.mk.inj run
      exact .dropped found waits rfl rfl rfl (threadId_withLastParents _) rfl
    · obtain ⟨rfl, rfl⟩ := Prod.mk.inj run
      refine .sent found waits rfl rfl rfl (threadId_withLastParents _) ?_ rfl (parents_withLastParents _ _) ?_
      · rw [StreamRecord.IsStart, eventType_withLastParents, StreamRecord.IsStart]
      · exact fun notStart bare => timely notStart bare rfl

theorem lastCommitByThread_afterAnswer (answer : Reply Obj) (record : StreamRecord Obj) (context : ContextState) :
    (afterAnswer answer record context).2.lastCommitByThread = match (afterAnswer answer record context).1.commitId with
      | some commitId => context.lastCommitByThread.insert record.threadId commitId
      | none => context.lastCommitByThread := by
  unfold afterAnswer
  dsimp only
  cases ({ record with stage := .sent (some answer) } : StreamRecord Obj).commitId with
  | none => rfl
  | some commitId => rfl

theorem advance_moves {action : StreamAction Obj}
    (registers : ∀ record, s.records[index]? = some record → ¬ record.IsStart → record.parents = [] →
      registration world options action record = some (.ok ()) → Arrived s record.call)
    (answers : ∀ record place answer, s.records[index]? = some record → action = .answered place answer →
      record.IsStart → ({ record with stage := .sent (some answer) } : StreamRecord Obj).commitId ≠ none →
        ∀ other ∈ s.records.eraseIdx index, other.threadId = record.threadId → ¬ other.InFlight) :
    Placed s (advance world options action index s) ∧ Moves s (advance world options action index s) := by
  have unchanged : Placed s s ∧ Moves s s := ⟨fun _ call found => ⟨call, found, rfl⟩, .of_eq rfl⟩
  rw [advance]
  split_ifs
  · split
    · exact unchanged
    rename_i record found
    split
    · exact unchanged
    rename_i next context ran
    refine ⟨fun _ call found => ⟨call, found, rfl⟩, ?_⟩
    unfold goesOn at ran
    split at ran
    · rename_i answer stage
      refine afterRegister_moves found (.inl stage) (fun notStart bare same => registers record found notStart bare ?_)
        (Option.some.inj ran)
      unfold registration
      rw [stage]
      exact congrArg some same
    · rename_i outcome stage
      refine afterRegister_moves found (.inr ⟨outcome, stage⟩)
        (fun notStart bare same => registers record found notStart bare ?_) (Option.some.inj ran)
      unfold registration
      rw [stage]
      exact congrArg some same
    · rename_i place answer stage
      obtain ⟨rfl, rfl⟩ := Prod.mk.inj (Option.some.inj ran)
      refine .completed found stage rfl rfl rfl ⟨answer, rfl⟩ ?_ (answers record place answer found rfl)
      exact lastCommitByThread_afterAnswer answer record s.context
    · exact absurd ran nofun
  · exact unchanged

theorem perform_moves {action : StreamAction Obj} (timely : InTime world options s action) :
    Placed s (perform world options action s) ∧ Moves s (perform world options action s) := by
  cases action with
  | start inputOptions => exact streamText_moves rfl
  | fire call callback value => exact fire_moves timely rfl
  | finish call outcome => exact finish_moves timely rfl
  | registered index answer =>
    refine advance_moves timely ?_
    rintro _ _ _ _ ⟨⟩
  | resume index =>
    refine advance_moves timely ?_
    rintro _ _ _ _ ⟨⟩
  | answered index answer =>
    refine advance_moves ?_ ?_
    · intro record _ _ _ wrong
      unfold registration at wrong
      exact absurd wrong nofun
    · rintro record _ _ found ⟨⟩
      exact timely record found

end Moves

section Runs

variable {world : AdapterWorld Obj} {options : NexusAISDKAdapterOptions Obj} {actions : List (StreamAction Obj)}

theorem allInTime_of_forall (each : ∀ index action, actions[index]? = some action →
    InTime world options (performAll world options (actions.take index)) action) : AllInTime world options actions := by
  rintro before action after rfl
  have found : (before ++ action :: after)[before.length]? = some action := by
    rw [List.getElem?_append_right (Nat.le_refl _), Nat.sub_self]
    rfl
  have timely := each _ _ found
  rwa [List.take_left] at timely

theorem chained_performAll (inTime : AllInTime world options actions) : Chained (performAll world options actions) := by
  induction actions using List.reverseRecOn with
  | nil => exact chained_empty
  | append_singleton actions action ih =>
    obtain ⟨before, last⟩ := Listing.forall_split_concat_iff.mp inTime
    rw [performAll, List.foldl_append]
    obtain ⟨placed, moves⟩ := perform_moves last
    exact (ih before).moves placed moves

/-- When every action is in time, every event of a step, of the end and of an error that is sent leads back to the start
of its call. -/
theorem streamText_one_chain (inTime : AllInTime world options actions) :
    OneChain (performAll world options actions) := by
  intro record inside typed sent
  refine (chained_performAll inTime).chained record inside ?_ (.inl sent)
  intro isStart
  rw [isStart] at typed
  exact absurd typed (by decide)

end Runs

section Sample

private def streamWorld : AdapterWorld Empty where
  runtime := ⟨nofun, nofun, nofun, fun _ _ => .ok .undefined⟩
  engine := .plain
  numbers := .plain
  ambient _ := ⟨0, [], 1⟩
  client _ := .resolved none
  meanwhile s := s

private def streamOptions : NexusAISDKAdapterOptions Empty where
  context := ⟨"vercel-ai", "run-1", "vercel-ai-frontend", none, true, ["vercel-ai"], []⟩
  captureInputs := true
  captureOutputs := true

/-- The step is fired when the start has got its commit. -/
private def patient : List (StreamAction Empty) :=
  [.start [], .finish 0 (.ok .undefined), .registered 0 (.resolved none), .answered 0 (.resolved (some "c0")),
    .fire 0 .onStepFinish .undefined, .resume 1]

/-- The events of a state -/
private def outline (s : StreamState Empty) : List (ℕ × String × List String × Option String) :=
  s.records.map fun record =>
    (record.call, record.event.fields.eventType, record.parents, record.commitId.map (·.val))

private theorem outline_of_getElem? {s : StreamState Empty} {index : ℕ} {record : StreamRecord Empty}
    (found : s.records[index]? = some record) : (outline s)[index]? =
      some (record.call, record.event.fields.eventType, record.parents, record.commitId.map (·.val)) := by
  rw [outline, List.getElem?_map, found]
  rfl

set_option maxRecDepth 4000 in
private theorem patient_inTime : AllInTime streamWorld streamOptions patient := by
  apply allInTime_of_forall
  intro index action found
  match index, found with
  | 0, rfl => trivial
  | 1, rfl => trivial
  | 2, rfl =>
    have starts : outline (performAll streamWorld streamOptions (patient.take 2)) = [(0, "run_start", [], none)] := by
      decide
    intro record found notStart
    have own := outline_of_getElem? found
    rw [starts] at own
    have isStart : "run_start" = record.event.fields.eventType := congrArg (·.2.1) (Option.some.inj own)
    exact absurd isStart.symm notStart
  | 3, rfl =>
    have alone : (performAll streamWorld streamOptions (patient.take 3)).records.length = 1 := by decide
    intro record found _ _ other inside
    have none := List.length_eraseIdx_of_lt (List.getElem?_eq_some_iff.mp found).1
    rw [alone] at none
    rw [List.eq_nil_of_length_eq_zero none] at inside
    exact absurd inside List.not_mem_nil
  | 4, rfl =>
    have arrives : outline (performAll streamWorld streamOptions (patient.take 4)) =
        [(0, "run_start", [], some "c0")] := by decide
    intro _ _ _
    obtain ⟨record, inside, own⟩ := List.mem_map.mp (arrives ▸ List.mem_singleton_self _ :
      (0, "run_start", [], some "c0") ∈ outline (performAll streamWorld streamOptions (patient.take 4)))
    obtain ⟨call, own⟩ := Prod.mk.inj own
    obtain ⟨isStart, own⟩ := Prod.mk.inj own
    refine ⟨record, inside, call, isStart, fun none => ?_⟩
    rw [none] at own
    exact absurd (Prod.mk.inj own).2 nofun
  | 5, rfl =>
    have reads : outline (performAll streamWorld streamOptions (patient.take 5)) =
        [(0, "run_start", [], some "c0"), (0, "step_end", ["c0"], none)] := by decide
    intro record found _ bare
    have own := outline_of_getElem? found
    rw [reads] at own
    have parents : ["c0"] = record.parents := congrArg (·.2.2.1) (Option.some.inj own)
    exact absurd (parents.trans bare) (List.cons_ne_nil _ _)

theorem streamText_one_chain_of_patient : OneChain (performAll streamWorld streamOptions patient) :=
  streamText_one_chain patient_inTime

/-- The end of the run is fired while the base function runs. -/
private def hasty : List (StreamAction Empty) :=
  [.start [], .fire 0 .onFinish .undefined, .finish 0 (.ok .undefined), .registered 0 (.resolved none),
    .registered 1 (.resolved none), .answered 0 (.resolved (some "c0")), .answered 1 (.resolved (some "c1"))]

/-- The end of a run that is fired before its start has got its commit is sent without parents. -/
theorem streamText_end_without_parents :
    ¬ ∀ (world : AdapterWorld Empty) (options : NexusAISDKAdapterOptions Empty) (actions : List (StreamAction Empty)),
      (∀ index answer, .answered index answer ∈ actions → ∃ commitId ≠ "", answer = .resolved (some commitId)) →
      OneChain (performAll world options actions) := by
  intro claim
  have ends : outline (performAll streamWorld streamOptions hasty) =
      [(0, "run_start", [], some "c0"), (0, "run_end", [], some "c1")] := by decide
  have chain := claim streamWorld streamOptions hasty (by
    intro index answer member
    simp only [hasty, List.mem_cons, reduceCtorEq, StreamAction.answered.injEq, List.not_mem_nil, false_or, or_false]
      at member
    rcases member with ⟨_, rfl⟩ | ⟨_, rfl⟩
    · exact ⟨"c0", by decide, rfl⟩
    · exact ⟨"c1", by decide, rfl⟩)
  have member : (0, "run_end", [], some "c1") ∈ outline (performAll streamWorld streamOptions hasty) := by
    rw [ends]
    decide
  obtain ⟨record, inside, own⟩ := List.mem_map.mp member
  obtain ⟨_, own⟩ := Prod.mk.inj own
  obtain ⟨typed, own⟩ := Prod.mk.inj own
  obtain ⟨bare, committed⟩ := Prod.mk.inj own
  have sent : record.IsSent := by
    rw [StreamRecord.commitId] at committed
    split at committed
    · exact ⟨_, ‹_›⟩
    · exact absurd committed nofun
  obtain ⟨_, _, _, _, _, _, leads⟩ := chain record inside (by rw [typed]; decide) sent
  exact leads.1 bare

end Sample

end TypeScript

end AttowNexus
