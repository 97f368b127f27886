import AttowNexus.Model.Service
import AttowNexus.Library.Run

/-! # Runs of the daemon

A call is a request together with what its environment decides; an event is a call with its outcome. A
history is a run of events from the empty database. The ledger is the part of the state that the
commit graph, the stored commits and the heads make up.
-/

namespace AttowNexus

open Fallible AppState

inductive Request where
  | registerAgent (request : RegisterAgentRequest)
  | publishDelta (request : PublishDeltaRequest)
  | checkpoint (request : CheckpointRequest)
  | rollback (request : RollbackRequest)
  | fork (request : ForkRequest)

inductive Response where
  | registerAgent (response : RegisterAgentResponse)
  | publishDelta (response : PublishDeltaResponse)
  | checkpoint (response : CheckpointResponse)
  | rollback (response : RollbackResponse)
  | fork (response : ForkResult)

structure Call where
  request : Request
  ambient : Ambient

structure Event where
  call : Call
  outcome : Except Error Response

section Execution

variable (deps : External) (config : Config)

/-- One call, from start to end. -/
def exec (call : Call) : Fallible AppState Error Response :=
  match call.request with
  | .registerAgent request => do
      let response ← registerAgentInner config request
      pure (.registerAgent response)
  | .publishDelta request => do
      let response ← publishDeltaInner deps config call.ambient request
      pure (.publishDelta response)
  | .checkpoint request => do
      let response ← checkpointInner deps config call.ambient request
      pure (.checkpoint response)
  | .rollback request => do
      let response ← rollbackInner deps call.ambient request
      pure (.rollback response)
  | .fork request => do
      let response ← forkInner deps call.ambient request
      pure (.fork response)

def Step (s : AppState) (event : Event) (t : AppState) : Prop := exec deps config event.call s = (event.outcome, t)

/-- A run of calls on a daemon that started on an empty database. -/
abbrev History (events : List Event) (s : AppState) : Prop := Run (Step deps config) .initial events s

/-- The states that some history ends in. -/
def Reachable (s : AppState) : Prop := ∃ events, History deps config events s

/-- Where a list of calls leads from the empty database. -/
def runCalls (calls : List Call) : AppState :=
  calls.foldl (fun state call => (exec deps config call state).2) .initial

theorem step_runCalls (calls : List Call) (call : Call) :
    Step deps config (runCalls deps config calls)
      ⟨call, (exec deps config call (runCalls deps config calls)).1⟩ (runCalls deps config (calls ++ [call])) := by
  rw [runCalls, runCalls, List.foldl_append]
  rfl

theorem history_runCalls (calls : List Call) :
    ∃ events : List Event, events.map (·.call) = calls ∧ History deps config events (runCalls deps config calls) := by
  induction calls using List.reverseRecOn with
  | nil => exact ⟨[], rfl, .nil⟩
  | append_singleton calls call ih =>
    obtain ⟨events, made, history⟩ := ih
    refine ⟨_, ?_, .snoc history (step_runCalls deps config calls call)⟩
    rw [List.map_append, made, List.map_singleton]

theorem reachable_runCalls (calls : List Call) : Reachable deps config (runCalls deps config calls) := by
  obtain ⟨events, _, history⟩ := history_runCalls deps config calls
  exact ⟨events, history⟩

end Execution

namespace Sample

/-- No authentication, no loop detection, and everything stays inline. -/
def config : Config := ⟨false, false, true, false, 65536, 4096, "artifacts"⟩

def lineage (runId : String) : Lineage := ⟨runId, "thread", "agent", "channel"⟩

/-- An irreversible side effect. -/
def sideEffect : ExternalSideEffect := ⟨"effect", "email", "", "", "", none, false, false, none⟩

/-- A checkpoint of an empty state. -/
def checkpointRequest (runId : String) (parents : List String) (sideEffects : List ExternalSideEffect) :
    CheckpointRequest :=
  ⟨"agent", runId, "thread", "channel", "", none, parents, [], "", none, [], [], [], sideEffects⟩

/-- A checkpoint on the head of the run, in the given second. -/
def checkpoint (runId : String) (second : ℕ) : Call :=
  ⟨.checkpoint (checkpointRequest runId [] []), .calm ⟨second, 0⟩ second⟩

/-- A durable publish of an empty state with a clock, in the given second. -/
def publishRequest (runId : String) (clock : UInt64) (second : ℕ) (parents : List String) :
    PublishDeltaRequest :=
  ⟨some ⟨"delta", "channel", "agent", runId, "thread", clock, some ⟨second, 0⟩, none, true, [], "", none⟩,
    parents, ""⟩

def publish (runId : String) (clock : UInt64) (second : ℕ) (parents : List String) : Call :=
  ⟨.publishDelta (publishRequest runId clock second parents), .calm ⟨second, 0⟩ second⟩

/-- The head of a sample lineage, once it has one. -/
def headOf (state : AppState) (runId : String) : String :=
  (AttowNexus.headOf state.store.heads (lineage runId)).getD ""

end Sample

/-- The event succeeded. -/
def Event.Succeeded (event : Event) : Prop := ∃ response, event.outcome = .ok response

structure Ledger where
  dag : DagIndex
  tables : CommitTables
  heads : List HeadRow

def AppState.ledger (state : AppState) : Ledger := ⟨state.dag, state.store.tables, state.store.heads⟩

namespace Ledger

def empty : Ledger := ⟨.empty, .empty, []⟩

def index (commit : Commit) (ledger : Ledger) : Ledger := { ledger with dag := ledger.dag.record commit }

def append (commit : Commit) (ledger : Ledger) : Ledger :=
  { ledger with tables := ledger.tables.appendCommit commit }

def setHead (lineage : Lineage) (commitId : String) (ledger : Ledger) : Ledger :=
  { ledger with heads := moveHead lineage commitId ledger.heads }

/-- The three writes of `persist_commit`. -/
def persist (commit : Commit) (ledger : Ledger) : Ledger :=
  ((ledger.index commit).append commit).setHead commit.lineage commit.commitId

@[simp] theorem persist_dag (commit : Commit) (ledger : Ledger) :
    (ledger.persist commit).dag = ledger.dag.record commit := rfl

@[simp] theorem persist_tables (commit : Commit) (ledger : Ledger) :
    (ledger.persist commit).tables = ledger.tables.appendCommit commit := rfl

@[simp] theorem persist_heads (commit : Commit) (ledger : Ledger) :
    (ledger.persist commit).heads = moveHead commit.lineage commit.commitId ledger.heads := rfl

/-- One write of an operation. -/
inductive Write : Ledger → Ledger → Prop
  | index {ledger : Ledger} {commit : Commit} (accepts : ledger.dag.Accepts commit)
      (named : commit.commitId.length = 34) : Write ledger (ledger.index commit)
  | append {ledger : Ledger} {commit : Commit} (known : commit.commitId ∈ ledger.dag.parents)
      (named : commit.commitId.length = 34) : Write ledger (ledger.append commit)
  | setHead {ledger : Ledger} (lineage : Lineage) {commitId : String}
      (stored : ∃ commit, ledger.tables.getCommit commitId = some commit) :
      Write ledger (ledger.setHead lineage commitId)

/-- Any number of writes. -/
abbrev Writes : Ledger → Ledger → Prop := Relation.ReflTransGen Write

end Ledger

end AttowNexus
