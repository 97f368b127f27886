import AttowNexus.Model.DagIndex
import AttowNexus.Model.Permissions
import AttowNexus.Library.Table
import Mathlib.Data.List.Perm.Basic

/-! # The bus

`bus/mod.rs`. A subscription holds the sending end of a bounded queue, which is named by its place in the list of all
queues. A broadcast reads the subscriptions once and then serves its targets one by one; it stays in flight until the
last is served, and other calls may come in between. A map has no order, so a broadcast is told in which order
it meets its targets.
-/

namespace AttowNexus

structure SubscriptionFilter where
  channelPatterns : List String
  durableOnly : Bool
deriving DecidableEq, Repr, Inhabited

structure SubscribeRequest where
  subscriberId : String
  filter : Option SubscriptionFilter
  queueCapacity : ℕ
deriving DecidableEq, Repr, Inhabited

structure AgentPresence where
  agentId : String
  runId : String
  threadId : String
  status : String
  lastSeen : Option Timestamp
  metadata : Option AgentMetadata
  capabilities : Option AgentCapabilities
  activeChannels : List String
deriving Repr, Inhabited

structure ChannelSnapshotResponse where
  channel : String
  latestPayload : Option Payload
  durableCount : ℕ
  ephemeralCount : ℕ
deriving Repr, Inhabited

structure DeltaInfo where
  deltaId : String
  commitId : String
  channel : String
  agentId : String
  runId : String
  durable : Bool
  summary : String
  wallTimeSeconds : ℤ
deriving DecidableEq, Repr, Inhabited

structure ChannelState where
  latest : Option StateDelta
  durableCount : ℕ
  ephemeralCount : ℕ
  publishers : List String
deriving Repr, Inhabited

structure Subscription where
  subscriberId : String
  filter : SubscriptionFilter
  sender : ℕ
  droppedCount : ℕ
deriving DecidableEq, Repr, Inhabited

/-- `mpsc::channel`, with the messages that its receiver has taken out so far -/
structure Queue where
  capacity : ℕ
  taken : List BroadcastDelta
  contents : List BroadcastDelta
  isOpen : Bool
deriving Repr, Inhabited

/-- A broadcast after its look at the subscriptions: what is left to serve, and whether it waits in `send` for the
first of it. -/
structure Flight where
  delta : StateDelta
  commitId : String
  targets : List (String × ℕ)
  waits : Bool
deriving Repr, Inhabited

/-- The gauges and counters that the bus writes -/
structure BusMetrics where
  agentsConnected : ℕ
  channelsTotal : ℕ
  subscriptionsTotal : ℕ
  deltasTotal : ℕ
  durableDeltasTotal : ℕ
  ephemeralDeltasTotal : ℕ
  backpressureEventsTotal : ℕ
  droppedEphemeralTotal : ℕ
deriving DecidableEq, Repr, Inhabited

structure Bus where
  channels : HashMap String ChannelState
  subscriptions : List Subscription
  presence : HashMap String AgentPresence
  recentDeltas : List DeltaInfo
  queues : List Queue
  flights : List Flight
  metrics : BusMetrics

/-- `channel_pattern_matches`: the test that scopes are put to -/
def channelPatternMatches (pattern channel : String) : Bool := scopeMatches pattern channel

def filterMatches (filter : SubscriptionFilter) (channel : String) (durable : Bool) : Bool :=
  if filter.durableOnly = true ∧ durable = false then false
  else filter.channelPatterns.any fun pattern => channelPatternMatches pattern channel

def subscriptionMatches (subscription : Subscription) (delta : StateDelta) : Bool :=
  filterMatches subscription.filter delta.channel delta.durable

/-- What a subscriber gets of a broadcast -/
def Flight.message (flight : Flight) : BroadcastDelta := ⟨some flight.delta, flight.commitId, true⟩

namespace Queue

/-- The outcome of `try_send` -/
inductive TrySend where
  | ok
  | full
  | closed
deriving DecidableEq, Repr

def trySend (queue : Queue) : TrySend :=
  if queue.isOpen = false then .closed
  else if queue.contents.length < queue.capacity then .ok
  else .full

def push (message : BroadcastDelta) (queue : Queue) : Queue := { queue with contents := queue.contents ++ [message] }

/-- The receiver takes the first message. -/
def recv (queue : Queue) : Queue :=
  { queue with taken := queue.taken ++ queue.contents.take 1, contents := queue.contents.drop 1 }

/-- The receiver is dropped. -/
def close (queue : Queue) : Queue := { queue with contents := [], isOpen := false }

end Queue

/-- `update_channel`, on the channels -/
def updateChannel (delta : StateDelta) (channels : HashMap String ChannelState) : HashMap String ChannelState :=
  let state := (channels.lookup delta.channel).getD ⟨none, 0, 0, []⟩
  channels.insert delta.channel
    { latest := some delta
      durableCount := if delta.durable = true then state.durableCount + 1 else state.durableCount
      ephemeralCount := if delta.durable = true then state.ephemeralCount else state.ephemeralCount + 1
      publishers := if delta.agentId ∈ state.publishers then state.publishers else state.publishers ++ [delta.agentId] }

/-- `snapshot`, on the channels -/
def channelSnapshot (channels : HashMap String ChannelState) (channel : String) : ChannelSnapshotResponse :=
  match channels.lookup channel with
  | none => ⟨channel, none, 0, 0⟩
  | some state =>
      ⟨channel, state.latest.bind (·.payload), state.durableCount, state.ephemeralCount⟩

namespace Bus

def new : Bus := ⟨∅, [], ∅, [], [], [], ⟨0, 0, 0, 0, 0, 0, 0, 0⟩⟩

def registerAgent (now : Timestamp) (request : RegisterAgentRequest) (bus : Bus) : Bus :=
  let presence := bus.presence.insert request.agentId
    ⟨request.agentId, request.runId, request.threadId, "online", some now, request.metadata, request.capabilities, []⟩
  { bus with presence := presence, metrics := { bus.metrics with agentsConnected := presence.keys.card } }

def heartbeat (now : Timestamp) (agentId : String) (bus : Bus) : Bus :=
  match bus.presence.lookup agentId with
  | none => bus
  | some agent => { bus with presence := bus.presence.insert agentId { agent with status := "online", lastSeen := some now } }

/-- `subscribe`: the receiver is the queue that is added. -/
def subscribe (subscriberId : String) (filter : SubscriptionFilter) (capacity : ℕ) (bus : Bus) : Bus :=
  let subscriptions := Table.insertOrReplace (·.subscriberId) ⟨subscriberId, filter, bus.queues.length, 0⟩
    bus.subscriptions
  { bus with
    queues := bus.queues ++ [⟨max 1 (min capacity 8192), [], [], true⟩]
    subscriptions := subscriptions
    metrics := { bus.metrics with subscriptionsTotal := subscriptions.length } }

def snapshot (bus : Bus) (channel : String) : ChannelSnapshotResponse := channelSnapshot bus.channels channel

def pushRecent (delta : StateDelta) (commitId : String) (recent : List DeltaInfo) : List DeltaInfo :=
  let kept := if recent.length = 256 then recent.drop 1 else recent
  kept ++ [⟨delta.deltaId, commitId, delta.channel, delta.agentId, delta.runId, delta.durable, delta.summary,
    (delta.wallTime.map (·.seconds)).getD 0⟩]

/-- `recent_deltas` -/
def recentDeltasOf (bus : Bus) (channel : Option String) : List DeltaInfo :=
  bus.recentDeltas.filter fun delta => channel.all (· = delta.channel)

/-- The subscriptions that a delta goes to -/
def targets (bus : Bus) (delta : StateDelta) : List (String × ℕ) :=
  (bus.subscriptions.filter (subscriptionMatches · delta)).map fun sub => (sub.subscriberId, sub.sender)

/-- The counters at the end of a broadcast -/
def countDelta (durable : Bool) (metrics : BusMetrics) : BusMetrics :=
  { metrics with
    deltasTotal := metrics.deltasTotal + 1
    durableDeltasTotal := if durable = true then metrics.durableDeltasTotal + 1 else metrics.durableDeltasTotal
    ephemeralDeltasTotal := if durable = true then metrics.ephemeralDeltasTotal else metrics.ephemeralDeltasTotal + 1 }

/-- `broadcast` up to its look at the subscriptions, which it meets in the given order -/
def broadcast (delta : StateDelta) (commitId : String) (order : List (String × ℕ)) (bus : Bus) : Bus :=
  let channels := updateChannel delta bus.channels
  let metrics := { bus.metrics with channelsTotal := channels.keys.card }
  { bus with
    channels := channels
    recentDeltas := pushRecent delta commitId bus.recentDeltas
    flights := bus.flights ++ [⟨delta, commitId, order, false⟩]
    metrics := if order = [] then countDelta delta.durable metrics else metrics }

def recordDrop (subscriberId : String) (bus : Bus) : Bus :=
  { bus with
    subscriptions := Table.update (·.subscriberId) subscriberId
      (fun sub => { sub with droppedCount := sub.droppedCount + 1 }) bus.subscriptions
    metrics := { bus.metrics with
      backpressureEventsTotal := bus.metrics.backpressureEventsTotal + 1
      droppedEphemeralTotal := bus.metrics.droppedEphemeralTotal + 1 } }

/-- `subscriptions.remove` -/
def unsubscribe (subscriberId : String) (bus : Bus) : Bus :=
  { bus with subscriptions := bus.subscriptions.filter (·.subscriberId ≠ subscriberId) }

def onQueue (sender : ℕ) (change : Queue → Queue) (bus : Bus) : Bus :=
  { bus with queues := bus.queues.modify sender change }

/-- The broadcast waits for room in the queue of its first target. -/
def wait (place : ℕ) (flight : Flight) (bus : Bus) : Bus :=
  { bus with flights := bus.flights.set place { flight with waits := true } }

/-- The broadcast is done with its first target. -/
def advance (place : ℕ) (flight : Flight) (bus : Bus) : Bus :=
  { bus with
    flights := bus.flights.set place { flight with targets := flight.targets.tail, waits := false }
    metrics := if flight.targets.tail = [] then countDelta flight.delta.durable bus.metrics else bus.metrics }

/-- One turn of the loop of `broadcast` -/
def serve (place : ℕ) (flight : Flight) (subscriberId : String) (sender : ℕ) (queue : Queue) (bus : Bus) : Bus :=
  match queue.trySend with
  | .ok => (bus.onQueue sender (.push flight.message)).advance place flight
  | .full => if flight.delta.durable = true then bus.wait place flight else (bus.recordDrop subscriberId).advance place flight
  | .closed => (bus.unsubscribe subscriberId).advance place flight

/-- The end of `send`, whose error is ignored; while there is no room it goes on waiting. -/
def finishSend (place : ℕ) (flight : Flight) (sender : ℕ) (queue : Queue) (bus : Bus) : Option Bus :=
  match queue.trySend with
  | .ok => some ((bus.onQueue sender (.push flight.message)).advance place flight)
  | .full => none
  | .closed => some (bus.advance place flight)

/-- What can happen next on the bus. -/
inductive Action where
  | registerAgent (now : Timestamp) (request : RegisterAgentRequest)
  | heartbeat (now : Timestamp) (agentId : String)
  | subscribe (subscriberId : String) (filter : SubscriptionFilter) (capacity : ℕ)
  | broadcast (delta : StateDelta) (commitId : String) (order : List (String × ℕ))
  /-- The broadcast in the given place goes on. -/
  | proceed (place : ℕ)
  /-- The receiver of the queue takes a message. -/
  | recv (queue : ℕ)
  /-- The receiver of the queue is dropped. -/
  | close (queue : ℕ)

def proceed (place : ℕ) (bus : Bus) : Option Bus := do
  let flight ← bus.flights[place]?
  match flight.targets with
  | [] => none
  | (subscriberId, sender) :: _ =>
      let queue ← bus.queues[sender]?
      if flight.waits = true then bus.finishSend place flight sender queue
      else some (bus.serve place flight subscriberId sender queue)

def act (bus : Bus) : Action → Option Bus
  | .registerAgent now request => some (bus.registerAgent now request)
  | .heartbeat now agentId => some (bus.heartbeat now agentId)
  | .subscribe subscriberId filter capacity => some (bus.subscribe subscriberId filter capacity)
  | .broadcast delta commitId order =>
      if order.Perm (bus.targets delta) then some (bus.broadcast delta commitId order) else none
  | .proceed place => bus.proceed place
  | .recv queue => some (bus.onQueue queue .recv)
  | .close queue => some (bus.onQueue queue .close)

/-- One step of the bus -/
def Acts (bus : Bus) (action : Action) (after : Bus) : Prop := bus.act action = some after

/-- `dropped_for` -/
def droppedFor (bus : Bus) (subscriberId : String) : ℕ :=
  ((Table.lookup (·.subscriberId) subscriberId bus.subscriptions).map (·.droppedCount)).getD 0

end Bus

end AttowNexus
