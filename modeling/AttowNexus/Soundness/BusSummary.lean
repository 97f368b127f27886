import AttowNexus.Proofs.BroadcastLog
import Mathlib.Algebra.BigOperators.Group.Finset.Basic

/-! # The bus as a summary of its log

Between broadcasts the bus is a function of the log: each channel keeps its last payload, its counts and its
publishers, the ring keeps the last deltas of all channels, and the counter of deltas is the sum of the counts.
-/

namespace AttowNexus

namespace Bus

variable {bus : Bus} {log : List Broadcast} {channel : String}

theorem Summarizes.snapshot (summarizes : bus.Summarizes log) (channel : String) :
    bus.snapshot channel = ⟨channel, (deltasOn channel log).getLast?.bind (·.payload),
      (deltasOn channel log).countP (·.durable), (deltasOn channel log).countP (!·.durable)⟩ := by
  rw [Bus.snapshot, channelSnapshot, summarizes.channels, summaries]
  split_ifs with bare
  · rw [bare]
    rfl
  · rfl

theorem Summarizes.publishers (summarizes : bus.Summarizes log) (channel : String) :
    ((bus.channels.lookup channel).map (·.publishers)).getD [] = ((deltasOn channel log).map (·.agentId)).eraseDups := by
  rw [summarizes.channels, summaries]
  split_ifs with bare
  · rw [bare]
    rfl
  · rfl

/-- A delta is either durable or not. -/
theorem Summarizes.counts (summarizes : bus.Summarizes log) (channel : String) :
    (bus.snapshot channel).durableCount + (bus.snapshot channel).ephemeralCount =
      (log.map (·.1.channel)).count channel := by
  have kinds : (deltasOn channel log).length =
      (deltasOn channel log).countP (·.durable) + (deltasOn channel log).countP (!·.durable) := by
    rw [List.length_eq_countP_add_countP (·.durable)]
    simp only [Bool.not_eq_true, Bool.decide_eq_false]
  have sent : (deltasOn channel log).length = (log.map (·.1.channel)).count channel := by
    rw [deltasOn, ← List.countP_eq_length_filter, List.countP_map, List.count, List.countP_map]
    exact List.countP_congr fun _ _ => by simp
  rw [summarizes.snapshot, ← sent, kinds]

theorem Summarizes.keys (summarizes : bus.Summarizes log) : bus.channels.keys = (log.map (·.1.channel)).toFinset := by
  ext channel
  have sent : deltasOn channel log ≠ [] ↔ channel ∈ log.map (·.1.channel) := by
    simp [deltasOn, List.filter_eq_nil_iff]
  rw [Finmap.mem_keys, ← Finmap.lookup_isSome, summarizes.channels, summaries, List.mem_toFinset, ← sent]
  split_ifs with bare
  · simp [bare]
  · simp [bare]

/-- After a run whose broadcasts are all over: what the bus shows of each channel, and the sum of the counts. -/
theorem summary_of_completed {actions : List Action} (run : Run Acts new actions bus)
    (completed : ∀ flight ∈ bus.flights, flight.targets = []) :
    (∀ channel,
      bus.snapshot channel = ⟨channel, (deltasOn channel (broadcastLog actions)).getLast?.bind (·.payload),
        (deltasOn channel (broadcastLog actions)).countP (·.durable),
        (deltasOn channel (broadcastLog actions)).countP (!·.durable)⟩ ∧
      ((bus.channels.lookup channel).map (·.publishers)).getD [] =
        ((deltasOn channel (broadcastLog actions)).map (·.agentId)).eraseDups ∧
      bus.recentDeltasOf (some channel) =
        (((broadcastLog actions).rtake 256).filter fun sent => sent.1.channel = channel).map Broadcast.info) ∧
    bus.metrics.deltasTotal =
      ∑ channel ∈ bus.channels.keys, ((bus.snapshot channel).durableCount + (bus.snapshot channel).ephemeralCount) := by
  have summarizes : bus.Summarizes (broadcastLog actions) := summarizes_new.run run
  refine ⟨fun channel => ⟨summarizes.snapshot channel, summarizes.publishers channel, summarizes.recentDeltasOf channel⟩, ?_⟩
  have count : bus.metrics.deltasTotal = (broadcastLog actions).length := by
    rw [summarizes.counted, ← summarizes.flights, List.length_map, List.countP_eq_length]
    exact fun flight member => decide_eq_true (completed flight member)
  rw [count, Finset.sum_congr rfl fun channel _ => summarizes.counts channel, summarizes.keys,
    List.sum_toFinset_count_eq_length, List.length_map]

section Sample

private def pulse (channel agentId : String) (durable : Bool) : StateDelta :=
  { (default : StateDelta) with channel := channel, agentId := agentId, durable := durable }

private def pulses : List Action :=
  [.broadcast (pulse "topic:a" "x" true) "c1" [], .broadcast (pulse "topic:b" "y" false) "" [],
    .broadcast (pulse "topic:a" "y" false) "" []]

private def pulsed : Bus :=
  ((new.broadcast (pulse "topic:a" "x" true) "c1" []).broadcast (pulse "topic:b" "y" false) "" []).broadcast
    (pulse "topic:a" "y" false) "" []

/-- Three broadcasts that nobody is subscribed to -/
theorem pulses_summarized : (pulsed.snapshot "topic:a").durableCount = 1 ∧
    ((pulsed.channels.lookup "topic:a").map (·.publishers)).getD [] = ["x", "y"] ∧
    pulsed.metrics.deltasTotal =
      ∑ channel ∈ pulsed.channels.keys, ((pulsed.snapshot channel).durableCount + (pulsed.snapshot channel).ephemeralCount) := by
  have run : Run Acts new pulses pulsed :=
    .snoc (.snoc (.single (acts_broadcast_iff.2 ⟨.nil, rfl⟩)) (acts_broadcast_iff.2 ⟨.nil, rfl⟩))
      (acts_broadcast_iff.2 ⟨.nil, rfl⟩)
  have completed : ∀ flight ∈ pulsed.flights, flight.targets = [] := by decide
  obtain ⟨channels, total⟩ := summary_of_completed run completed
  obtain ⟨snapshot, publishers, _⟩ := channels "topic:a"
  refine ⟨?_, ?_, total⟩
  · rw [snapshot]
    rfl
  · rw [publishers]
    rfl

end Sample

end Bus

end AttowNexus
