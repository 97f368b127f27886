import AttowNexus.Library.Listing
import AttowNexus.Library.Run
import AttowNexus.Library.Window
import AttowNexus.Proofs.Bus

/-! # The log of broadcasts

What the bus keeps of a broadcast is written at its start, apart from the counters, which count it at its end. So the
channels and the ring are functions of the log, and the counters of the broadcasts that are over.
-/

namespace AttowNexus

/-- A delta that is broadcast, with its commit id -/
abbrev Broadcast := StateDelta × String

namespace Broadcast

def info (sent : Broadcast) : DeltaInfo :=
  ⟨sent.1.deltaId, sent.2, sent.1.channel, sent.1.agentId, sent.1.runId, sent.1.durable, sent.1.summary,
    (sent.1.wallTime.map (·.seconds)).getD 0⟩

end Broadcast

/-- The deltas of a log that went to the channel -/
def deltasOn (channel : String) (log : List Broadcast) : List StateDelta :=
  (log.map (·.1)).filter (·.channel = channel)

/-- What a channel knows of its deltas -/
def channelSummary (sent : List StateDelta) : ChannelState :=
  ⟨sent.getLast?, sent.countP (·.durable), sent.countP (!·.durable), (sent.map (·.agentId)).eraseDups⟩

section Channels

variable {delta : StateDelta} {channel other : String} {sent : List StateDelta} {log : List Broadcast}
  {channels : HashMap String ChannelState}

theorem channelSummary_concat : channelSummary (sent ++ [delta]) =
    { latest := some delta
      durableCount := if delta.durable = true then sent.countP (·.durable) + 1 else sent.countP (·.durable)
      ephemeralCount := if delta.durable = true then sent.countP (!·.durable) else sent.countP (!·.durable) + 1
      publishers := if delta.agentId ∈ (sent.map (·.agentId)).eraseDups then (sent.map (·.agentId)).eraseDups
        else (sent.map (·.agentId)).eraseDups ++ [delta.agentId] } := by
  rw [channelSummary, List.map_append, List.map_singleton, Listing.eraseDups_concat, List.getLast?_concat]
  simp only [List.mem_eraseDups, List.countP_append, List.countP_singleton]
  cases kind : delta.durable
  · simp
  · simp

/-- What the map of channels knows of a log -/
def summaries (log : List Broadcast) (channel : String) : Option ChannelState :=
  if deltasOn channel log = [] then none else some (channelSummary (deltasOn channel log))

theorem deltasOn_concat {sent : Broadcast} :
    deltasOn channel (log ++ [sent]) = deltasOn channel log ++ if sent.1.channel = channel then [sent.1] else [] := by
  rw [deltasOn, List.map_append, List.filter_append, deltasOn, List.map_singleton, List.filter_cons, List.filter_nil]
  simp only [decide_eq_true_eq]

/-- `update_channel` goes on with the summary. -/
theorem lookup_updateChannel {commitId : String} (kept : ∀ channel, channels.lookup channel = summaries log channel) :
    (updateChannel delta channels).lookup channel = summaries (log ++ [(delta, commitId)]) channel := by
  have old : (channels.lookup delta.channel).getD ⟨none, 0, 0, []⟩ = channelSummary (deltasOn delta.channel log) := by
    rw [kept, summaries]
    split_ifs with bare
    · rw [bare]
      rfl
    · rfl
  rw [updateChannel, old, summaries, deltasOn_concat]
  by_cases here : delta.channel = channel
  · subst here
    rw [if_pos rfl, Finmap.lookup_insert, if_neg (List.append_ne_nil_of_right_ne_nil _ (List.cons_ne_nil _ _)),
      channelSummary_concat]
    rfl
  · rw [if_neg here, List.append_nil, Finmap.lookup_insert_of_ne _ (Ne.symm here), kept, summaries]

end Channels

namespace Bus

variable {bus after : Bus} {place : ℕ} {flight : Flight} {subscriberId : String} {sender : ℕ} {queue : Queue}
  {action : Action} {log : List Broadcast}

/-- The broadcast that begins with an action -/
def Action.announced : Action → Option Broadcast
  | .broadcast delta commitId _ => some (delta, commitId)
  | _ => none

/-- The broadcasts of a run, in the order in which they began -/
def broadcastLog (actions : List Action) : List Broadcast := actions.filterMap Action.announced

/-- The bus keeps what the log says, and has counted the broadcasts that are over. -/
structure Summarizes (bus : Bus) (log : List Broadcast) : Prop where
  channels : ∀ channel, bus.channels.lookup channel = summaries log channel
  recent : bus.recentDeltas = (log.map Broadcast.info).rtake 256
  flights : bus.flights.map (fun flight => (flight.delta, flight.commitId)) = log
  counted : bus.metrics.deltasTotal = bus.flights.countP fun flight => flight.targets = []

theorem summarizes_new : new.Summarizes [] where
  channels _ := Finmap.lookup_empty _
  recent := rfl
  flights := rfl
  counted := rfl

/-- A turn keeps the channels and the ring, and counts its broadcast if it was the last one. -/
theorem Turn.kept (turn : Turn bus place flight subscriberId sender queue after) (open_ : flight.targets ≠ []) :
    after.channels = bus.channels ∧ after.recentDeltas = bus.recentDeltas ∧ ∃ next : Flight,
      after.flights = bus.flights.set place next ∧ next.delta = flight.delta ∧ next.commitId = flight.commitId ∧
        after.metrics.deltasTotal = bus.metrics.deltasTotal + if next.targets = [] then 1 else 0 := by
  have counted : ∀ (durable : Bool) (metrics : BusMetrics),
      (if flight.targets.tail = [] then countDelta durable metrics else metrics).deltasTotal =
        metrics.deltasTotal + if flight.targets.tail = [] then 1 else 0 := by
    intro durable metrics
    split_ifs
    · rfl
    · rfl
  cases turn with
  | delivered => exact ⟨rfl, rfl, _, rfl, rfl, rfl, counted _ _⟩
  | blocked => exact ⟨rfl, rfl, _, rfl, rfl, rfl, (if_neg open_).symm ▸ rfl⟩
  | dropped => exact ⟨rfl, rfl, _, rfl, rfl, rfl, counted _ _⟩
  | removed => exact ⟨rfl, rfl, _, rfl, rfl, rfl, counted _ _⟩
  | abandoned => exact ⟨rfl, rfl, _, rfl, rfl, rfl, counted _ _⟩

theorem pushRecent_eq {delta : StateDelta} {commitId : String} {recent : List DeltaInfo} :
    pushRecent delta commitId recent = Window.push 256 recent (Broadcast.info (delta, commitId)) := by
  rw [pushRecent, Window.push, List.drop_one]
  rfl

theorem Summarizes.turn (summarizes : bus.Summarizes log) (turn : Turn bus place flight subscriberId sender queue after)
    (found : bus.flights[place]? = some flight) (open_ : flight.targets ≠ []) : after.Summarizes log := by
  obtain ⟨channels, recent, next, flights, delta, commitId, counted⟩ := turn.kept open_
  obtain ⟨bound, rfl⟩ := List.getElem?_eq_some_iff.mp found
  refine ⟨channels ▸ summarizes.channels, recent ▸ summarizes.recent, ?_, ?_⟩
  · rw [flights, List.map_set, delta, commitId, ← summarizes.flights]
    have listed : place < (bus.flights.map fun flight => (flight.delta, flight.commitId)).length := by
      rwa [List.length_map]
    have same : (bus.flights[place].delta, bus.flights[place].commitId) =
        (bus.flights.map fun flight => (flight.delta, flight.commitId))[place] := by
      rw [List.getElem_map]
    rw [same, List.set_getElem_self]
  · rw [counted, flights, List.countP_set bound, summarizes.counted]
    simp only [decide_eq_true_eq, if_neg open_, Nat.sub_zero]

/-- Every other action keeps what a broadcast writes. -/
theorem Acts.cases (acts : bus.Acts action after) :
    (∃ delta commitId order, action = .broadcast delta commitId order ∧ after = bus.broadcast delta commitId order) ∨
    (action.announced = none ∧ ∃ place flight subscriberId sender queue, bus.flights[place]? = some flight ∧
      flight.targets ≠ [] ∧ Turn bus place flight subscriberId sender queue after) ∨
    (action.announced = none ∧ after.channels = bus.channels ∧ after.recentDeltas = bus.recentDeltas ∧
      after.flights = bus.flights ∧ after.metrics.deltasTotal = bus.metrics.deltasTotal) := by
  cases action with
  | broadcast delta commitId order => exact .inl ⟨_, _, _, rfl, (acts_broadcast_iff.1 acts).2⟩
  | proceed place =>
    obtain ⟨flight, subscriberId, sender, _, queue, found, left, _, turn⟩ := proceed_turn acts
    exact .inr (.inl ⟨rfl, place, flight, subscriberId, sender, queue, found, left ▸ List.cons_ne_nil _ _, turn⟩)
  | heartbeat now agentId =>
    obtain rfl := Option.some.inj acts
    obtain ⟨presence, same⟩ := bus.heartbeat_eq now agentId
    rw [same]
    exact .inr (.inr ⟨rfl, rfl, rfl, rfl, rfl⟩)
  | registerAgent now request =>
    obtain rfl := Option.some.inj acts
    exact .inr (.inr ⟨rfl, rfl, rfl, rfl, rfl⟩)
  | subscribe subscriberId filter capacity =>
    obtain rfl := Option.some.inj acts
    exact .inr (.inr ⟨rfl, rfl, rfl, rfl, rfl⟩)
  | recv queue =>
    obtain rfl := Option.some.inj acts
    exact .inr (.inr ⟨rfl, rfl, rfl, rfl, rfl⟩)
  | close queue =>
    obtain rfl := Option.some.inj acts
    exact .inr (.inr ⟨rfl, rfl, rfl, rfl, rfl⟩)

theorem Summarizes.acts (summarizes : bus.Summarizes log) (acts : bus.Acts action after) :
    after.Summarizes (log ++ action.announced.toList) := by
  rcases acts.cases with ⟨delta, commitId, order, rfl, rfl⟩ | ⟨quiet, _, _, _, _, _, found, open_, turn⟩ |
    ⟨quiet, channels, recent, flights, counted⟩
  · change (bus.broadcast delta commitId order).Summarizes (log ++ [(delta, commitId)])
    refine ⟨fun channel => lookup_updateChannel summarizes.channels, ?_, ?_, ?_⟩
    · change pushRecent delta commitId bus.recentDeltas = _
      rw [pushRecent_eq, summarizes.recent, Window.push_rtake (by decide), List.map_append, List.map_singleton]
    · rw [broadcast, List.map_append, summarizes.flights, List.map_singleton]
    · rw [broadcast, List.countP_append, List.countP_singleton, ← summarizes.counted]
      simp only [decide_eq_true_eq]
      split_ifs
      · rfl
      · rfl
  · rw [quiet, Option.toList_none, List.append_nil]
    exact summarizes.turn turn found open_
  · rw [quiet, Option.toList_none, List.append_nil]
    exact ⟨channels ▸ summarizes.channels, recent ▸ summarizes.recent, flights ▸ summarizes.flights,
      counted.trans (flights ▸ summarizes.counted)⟩

/-- After every run the bus keeps what the log of the run says. -/
theorem Summarizes.run {actions : List Action} (summarizes : bus.Summarizes log) (run : Run Acts bus actions after) :
    after.Summarizes (log ++ broadcastLog actions) := by
  induction run with
  | nil => exact (List.append_nil log).symm ▸ summarizes
  | snoc earlier acts ih =>
    rw [broadcastLog, List.filterMap_append, ← List.append_assoc]
    have step := ih.acts acts
    rename_i events s t event
    have single : [event].filterMap Action.announced = event.announced.toList := by
      cases named : event.announced <;> simp [named]
    rw [single]
    exact step

/-- The ring holds the last 256 broadcasts, and a channel is shown its part of them. -/
theorem Summarizes.recentDeltasOf (summarizes : bus.Summarizes log) (channel : String) :
    bus.recentDeltasOf (some channel) = ((log.rtake 256).filter fun sent => sent.1.channel = channel).map Broadcast.info := by
  have shown : bus.recentDeltas = (log.rtake 256).map Broadcast.info := by
    rw [summarizes.recent, List.rtake, List.rtake, List.length_map, List.map_drop]
  rw [Bus.recentDeltasOf, shown, List.filter_map]
  refine congrArg _ (List.filter_congr fun sent _ => ?_)
  simp only [Option.all_some, Function.comp_apply, Broadcast.info]
  exact decide_eq_decide.mpr eq_comm

end Bus

end AttowNexus
