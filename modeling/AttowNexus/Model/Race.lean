import AttowNexus.Model.Bus
import AttowNexus.Model.System

/-! # Requests that race for a head

A checkpoint or a publish reads its head in one step and persists its commit in a later one; nothing
holds the head in between. A race is any number of such requests on one lineage, with their steps
interleaved in any order. A live race keeps apart the broadcast as well, which comes after the commit is persisted
and is all that the channels of the bus see.
-/

namespace AttowNexus

open SuccGraph AppState

/-- The daemon, the requests between their two steps, and the commits persisted so far. -/
structure Race where
  state : AppState
  waiting : List Plan
  made : List Commit

/-- A step of a request. -/
inductive Turn where
  | resolve (call : Call)
  | persist (ambient : Ambient) (plan : Plan)

namespace Race

def start (state : AppState) : Race := ⟨state, [], []⟩

/-- A request of the lineage that names no parents plans its commit, or persists the one it planned. -/
inductive Step (deps : External) (config : Config) (lineage : Lineage) : Race → Turn → Race → Prop
  | publish {race : Race} {request : PublishDeltaRequest} {ambient : Ambient} {plan : Plan} {t : AppState}
      (bare : request.parentCommitIds = [])
      (run : planPublish deps config ambient request race.state = (.ok (.durable plan), t))
      (here : plan.commit.lineage = lineage) :
      Step deps config lineage race (.resolve ⟨.publishDelta request, ambient⟩)
        ⟨t, race.waiting ++ [plan], race.made⟩
  | checkpoint {race : Race} {request : CheckpointRequest} {ambient : Ambient} {plan : Plan} {t : AppState}
      (bare : request.parentCommitIds = [])
      (run : planCheckpoint deps config ambient request race.state = (.ok plan, t))
      (here : plan.commit.lineage = lineage) :
      Step deps config lineage race (.resolve ⟨.checkpoint request, ambient⟩)
        ⟨t, race.waiting ++ [plan], race.made⟩
  | persist {race : Race} {ambient : Ambient} {plan : Plan} {before after : List Plan} {t : AppState}
      (waits : race.waiting = before ++ plan :: after)
      (run : persistCommit ambient plan.commit race.state = (.ok (), t)) :
      Step deps config lineage race (.persist ambient plan) ⟨t, before ++ after, race.made ++ [plan.commit]⟩

/-- The head of the lineage is still the one that the plan was made on. -/
def Undisturbed (lineage : Lineage) (race : Race) : Turn → Prop
  | .resolve _ => True
  | .persist _ plan => plan.commit.parentCommitIds = (headOf race.state.store.heads lineage).toList

/-- A step after which no request has persisted on an old head. -/
def UndisturbedStep (deps : External) (config : Config) (lineage : Lineage) (race : Race) (turn : Turn)
    (race' : Race) : Prop := Step deps config lineage race turn race' ∧ race.Undisturbed lineage turn

/-- Every commit that was made is the head of the lineage or an ancestor of it. -/
def KeepsUpdates (lineage : Lineage) (race : Race) : Prop :=
  ∀ commit ∈ race.made, ∃ head, headOf race.state.store.heads lineage = some head ∧
    Reach race.state.dag.parents.next head commit.commitId

end Race

/-- `update_channel` of every broadcast made so far -/
def liveChannels (calls : List BusCall) : HashMap String ChannelState :=
  calls.foldl (fun channels call =>
    match call with
    | .broadcast delta _ => updateChannel delta channels
    | .registerAgent _ => channels
    | .heartbeat _ => channels) ∅

/-- `bus.snapshot` -/
def AppState.snapshot (state : AppState) (channel : String) : ChannelSnapshotResponse :=
  channelSnapshot (liveChannels state.bus) channel

/-- The daemon, the publishes between two of their steps, and the plans persisted and announced so far. -/
structure LiveRace where
  state : AppState
  planned : List Plan
  persisted : List Plan
  made : List Plan
  announced : List Plan

/-- A step of a publish. -/
inductive LiveTurn where
  | resolve (request : PublishDeltaRequest) (ambient : Ambient)
  | persist (ambient : Ambient) (plan : Plan)
  | broadcast (plan : Plan)

namespace LiveRace

def start (state : AppState) : LiveRace := ⟨state, [], [], [], []⟩

/-- A durable publish of the lineage plans its commit, persists it and announces it, unless it fails on the way. -/
inductive Step (deps : External) (config : Config) (lineage : Lineage) : LiveRace → LiveTurn → LiveRace → Prop
  | resolve {race : LiveRace} {request : PublishDeltaRequest} {ambient : Ambient} {plan : Plan} {t : AppState}
      (run : planPublish deps config ambient request race.state = (.ok (.durable plan), t))
      (durable : plan.delta.durable = true) (here : plan.commit.lineage = lineage) :
      Step deps config lineage race (.resolve request ambient)
        ⟨t, race.planned ++ [plan], race.persisted, race.made, race.announced⟩
  | reject {race : LiveRace} {request : PublishDeltaRequest} {ambient : Ambient} {error : Error} {t : AppState}
      (run : planPublish deps config ambient request race.state = (.error error, t)) :
      Step deps config lineage race (.resolve request ambient)
        ⟨t, race.planned, race.persisted, race.made, race.announced⟩
  | persist {race : LiveRace} {ambient : Ambient} {plan : Plan} {before after : List Plan} {t : AppState}
      (waits : race.planned = before ++ plan :: after)
      (run : persistCommit ambient plan.commit race.state = (.ok (), t)) :
      Step deps config lineage race (.persist ambient plan)
        ⟨t, before ++ after, race.persisted ++ [plan], race.made ++ [plan], race.announced⟩
  | lose {race : LiveRace} {ambient : Ambient} {plan : Plan} {before after : List Plan} {error : Error} {t : AppState}
      (waits : race.planned = before ++ plan :: after)
      (run : persistCommit ambient plan.commit race.state = (.error error, t)) :
      Step deps config lineage race (.persist ambient plan)
        ⟨t, before ++ after, race.persisted, race.made, race.announced⟩
  | broadcast {race : LiveRace} {plan : Plan} {before after : List Plan} {t : AppState}
      (waits : race.persisted = before ++ plan :: after)
      (run : AppState.broadcast plan.delta plan.commit.commitId race.state = (.ok (), t)) :
      Step deps config lineage race (.broadcast plan)
        ⟨t, race.planned, before ++ after, race.made, race.announced ++ [plan]⟩

/-- No request is on its way. -/
def Done (race : LiveRace) : Prop := race.planned = [] ∧ race.persisted = []

/-- The snapshot of the channel shows the state of the commit that the head names. -/
def Agrees (lineage : Lineage) (race : LiveRace) : Prop :=
  ∃ commitId commit, headOf race.state.store.heads lineage = some commitId ∧
    race.state.store.tables.getCommit commitId = some commit ∧
    (race.state.snapshot lineage.channel).latestPayload = commit.stateDelta

end LiveRace

end AttowNexus
