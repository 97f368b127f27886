import AttowNexus.Model.Polling
import AttowNexus.Proofs.BroadcastLog

/-! # What a poller shows

An answer is the part on the channel of the last 256 broadcasts. The loop of the CLI counts the items of an answer,
so it goes wrong once the ring loses an entry of the channel; the loops of the SDKs go by the ids of the deltas.
-/

namespace AttowNexus

/-- The part of a log on the channel, as it is answered -/
def infosOn (channel : String) (log : List Broadcast) : List DeltaInfo :=
  (log.filter fun sent => sent.1.channel = channel).map Broadcast.info

/-- The entries that the ring loses when further deltas are broadcast -/
def pushedOut (log later : List Broadcast) : List Broadcast := (log.rtake 256).rdrop (256 - later.length)

section Answers

variable {channel : String} {log later : List Broadcast}

theorem infosOn_append : infosOn channel (log ++ later) = infosOn channel log ++ infosOn channel later := by
  rw [infosOn, List.filter_append, List.map_append, infosOn, infosOn]

/-- The next answer starts with what the ring still has of the last one. -/
theorem infosOn_next (bound : later.length ≤ 256) : infosOn channel ((log ++ later).rtake 256) =
    infosOn channel (log.rtake (256 - later.length)) ++ infosOn channel later := by
  rw [Window.rtake_append bound, infosOn_append]

theorem infosOn_last : infosOn channel (log.rtake 256) =
    infosOn channel (pushedOut log later) ++ infosOn channel (log.rtake (256 - later.length)) := by
  rw [← infosOn_append, pushedOut, ← Window.rtake_rtake (Nat.sub_le 256 later.length) log, Window.rdrop_append_rtake]

end Answers

namespace Bus

variable {channel : String} {bus joined : Bus} {history : List Action} {rounds : List (List Action)}

theorem broadcastLog_append (first second : List Action) :
    broadcastLog (first ++ second) = broadcastLog first ++ broadcastLog second := List.filterMap_append ..

/-- What the poller should have shown: what the ring held at the first poll, and everything after it -/
def due (channel : String) (history : List Action) (rounds : List (List Action)) : List DeltaInfo :=
  infosOn channel ((broadcastLog history).rtake 256 ++ broadcastLog rounds.flatten)

theorem due_nil : due channel history [] = infosOn channel ((broadcastLog history).rtake 256) :=
  congrArg (infosOn channel) (List.append_nil _)

theorem due_concat {round : List Action} :
    due channel history (rounds ++ [round]) = due channel history rounds ++ infosOn channel (broadcastLog round) := by
  rw [due, List.flatten_append, broadcastLog_append, List.flatten_singleton, ← List.append_assoc, infosOn_append, due]

/-- What is answered after the rounds -/
def answer (channel : String) (history : List Action) (rounds : List (List Action)) : List DeltaInfo :=
  infosOn channel ((broadcastLog (history ++ rounds.flatten)).rtake 256)

theorem answer_nil : answer channel history [] = due channel history [] := by
  rw [answer, due_nil, List.flatten_nil, List.append_nil]

theorem log_concat {round : List Action} : broadcastLog (history ++ (rounds ++ [round]).flatten) =
    broadcastLog (history ++ rounds.flatten) ++ broadcastLog round := by
  rw [List.flatten_append, List.flatten_singleton, ← List.append_assoc, broadcastLog_append]

/-- What the ring still has was due before. -/
theorem mem_due_of_held {kept : ℕ} (smaller : kept ≤ 256) {info : DeltaInfo}
    (held : info ∈ infosOn channel ((broadcastLog (history ++ rounds.flatten)).rtake kept)) :
    info ∈ due channel history rounds := by
  have part : (broadcastLog (history ++ rounds.flatten)).rtake kept ⊆
      (broadcastLog history).rtake 256 ++ broadcastLog rounds.flatten := by
    rw [← Window.rtake_rtake smaller, broadcastLog_append]
    refine List.Subset.trans (Window.rtake_suffix _).subset ?_
    rcases Nat.le_total (broadcastLog rounds.flatten).length 256 with short | long
    · rw [Window.rtake_append short, ← Window.rtake_rtake (Nat.sub_le _ _) (broadcastLog history)]
      exact List.append_subset.mpr ⟨List.subset_append_of_subset_left _ (Window.rtake_suffix _).subset,
        List.subset_append_right _ _⟩
    · rw [List.rtake, List.length_append, List.drop_append, List.drop_eq_nil_of_le (by omega), List.nil_append]
      exact List.subset_append_of_subset_right _ (List.drop_subset _ _)
  obtain ⟨sent, kept, rfl⟩ := List.mem_map.mp held
  obtain ⟨listed, onChannel⟩ := List.mem_filter.mp kept
  exact List.mem_map_of_mem (List.mem_filter.mpr ⟨part listed, onChannel⟩)

section Watch

variable {σ : Type} {poll : List DeltaInfo → σ → σ} {start loop : σ}

/-- What holds after the first poll and survives every round of at most 256 broadcasts holds of the loop. -/
theorem Watch.invariant {I : List (List Action) → σ → Prop} (watch : Watch channel poll start history rounds loop)
    (bounded : ∀ round ∈ rounds, (broadcastLog round).length ≤ 256) (first : I [] (poll (due channel history []) start))
    (next : ∀ rounds round loop, (broadcastLog round).length ≤ 256 → I rounds loop →
      I (rounds ++ [round]) (poll (answer channel history (rounds ++ [round])) loop)) : I rounds loop := by
  obtain ⟨joined, bus, past, run⟩ := watch
  have joins : joined.Summarizes (broadcastLog history) := summarizes_new.run past
  have held : ∀ {rounds} {after : Bus × σ}, (∀ round ∈ rounds, (broadcastLog round).length ≤ 256) →
      Run (Round channel poll) (joined, poll (joined.recentDeltasOf (some channel)) start) rounds after →
        after.1.Summarizes (broadcastLog (history ++ rounds.flatten)) ∧ I rounds after.2 := by
    intro rounds after bounded run
    induction run with
    | nil =>
      have shown : joined.recentDeltasOf (some channel) = due channel history [] := by
        rw [joins.recentDeltasOf, due_nil, infosOn]
      refine ⟨?_, shown ▸ first⟩
      rwa [List.flatten_nil, List.append_nil]
    | @snoc rounds before now actions _ round ih =>
      obtain ⟨goesOn, polled⟩ := round
      obtain ⟨summarizes, kept⟩ := ih fun round member => bounded round (List.mem_append_left _ member)
      have summarizes' : now.1.Summarizes (broadcastLog (history ++ (rounds ++ [actions]).flatten)) := by
        rw [log_concat]
        exact summarizes.run goesOn
      have shown : now.1.recentDeltasOf (some channel) = answer channel history (rounds ++ [actions]) :=
        summarizes'.recentDeltasOf channel
      refine ⟨summarizes', ?_⟩
      rw [polled, shown]
      exact next _ _ _ (bounded actions (List.mem_append_right _ (List.mem_singleton_self _))) kept
  exact (held bounded run).2

end Watch

section Sample

/-- A delta that nobody is subscribed to -/
private def tick (channel deltaId : String) : Action :=
  .broadcast { (default : StateDelta) with channel := channel, deltaId := deltaId } "" []

private def IsTick (action : Action) : Prop := ∃ channel deltaId, action = tick channel deltaId

private theorem run_ticks {bus : Bus} (quiet : bus.subscriptions = []) {actions : List Action}
    (ticks : ∀ action ∈ actions, IsTick action) : ∃ after, Run Acts bus actions after ∧ after.subscriptions = [] := by
  induction actions using List.reverseRecOn with
  | nil => exact ⟨bus, .nil, quiet⟩
  | append_singleton actions action ih =>
    obtain ⟨middle, run, still⟩ := ih fun action member => ticks action (List.mem_append_left _ member)
    obtain ⟨channel, deltaId, rfl⟩ := ticks action (List.mem_append_right _ (List.mem_singleton_self _))
    refine ⟨_, run.snoc (acts_broadcast_iff.2 ⟨?_, rfl⟩), still⟩
    rw [targets, still]
    exact .nil

private theorem watch_ticks {σ : Type} (channel : String) (poll : List DeltaInfo → σ → σ) (start : σ)
    (past : ∀ action ∈ history, IsTick action) (ticks : ∀ round ∈ rounds, ∀ action ∈ round, IsTick action) :
    ∃ loop, Watch channel poll start history rounds loop := by
  obtain ⟨joined, run, quiet⟩ : ∃ after, Run Acts new history after ∧ after.subscriptions = [] := run_ticks rfl past
  have goesOn : ∃ after : Bus × σ, Run (Round channel poll)
      (joined, poll (joined.recentDeltasOf (some channel)) start) rounds after ∧ after.1.subscriptions = [] := by
    induction rounds using List.reverseRecOn with
    | nil => exact ⟨_, .nil, quiet⟩
    | append_singleton rounds round ih =>
      obtain ⟨middle, earlier, still⟩ := ih fun round member => ticks round (List.mem_append_left _ member)
      obtain ⟨after, last, still'⟩ := run_ticks still (ticks round (List.mem_append_right _ (List.mem_singleton_self _)))
      exact ⟨(after, poll (after.recentDeltasOf (some channel)) middle.2), earlier.snoc ⟨last, rfl⟩, still'⟩
  obtain ⟨⟨bus, loop⟩, rounds, _⟩ := goesOn
  exact ⟨loop, joined, bus, run, rounds⟩

private def calmPast : List Action := [tick "topic:a" "1"]

private def calmRounds : List (List Action) := [[tick "topic:b" "2", tick "topic:a" "3"], []]

private theorem calm_ticks : (∀ action ∈ calmPast, IsTick action) ∧ ∀ round ∈ calmRounds, ∀ action ∈ round, IsTick action := by
  refine ⟨fun action member => ?_, fun round member action inside => ?_⟩
  · rw [List.mem_singleton.mp member]
    exact ⟨_, _, rfl⟩
  · simp only [calmRounds, List.mem_cons, List.not_mem_nil, or_false] at member
    rcases member with rfl | rfl
    · simp only [List.mem_cons, List.not_mem_nil, or_false] at inside
      rcases inside with rfl | rfl
      · exact ⟨_, _, rfl⟩
      · exact ⟨_, _, rfl⟩
    · exact absurd inside List.not_mem_nil

private theorem calm_bounded : ∀ round ∈ calmRounds, (broadcastLog round).length ≤ 256 := by decide

end Sample

section Cli

variable {loop : CliSubscription}

/-- In every round nothing new comes on the channel, or nothing of the channel is lost from the ring. -/
def KeepsCount (channel : String) (history : List Action) (rounds : List (List Action)) : Prop :=
  ∀ before round after, rounds = before ++ round :: after →
    infosOn channel (broadcastLog round) = [] ∨
      infosOn channel (pushedOut (broadcastLog (history ++ before.flatten)) (broadcastLog round)) = []

theorem keepsCount_nil : KeepsCount channel history [] := fun _ _ _ split => absurd split (by simp)

theorem keepsCount_concat {round : List Action} : KeepsCount channel history (rounds ++ [round]) ↔
    KeepsCount channel history rounds ∧ (infosOn channel (broadcastLog round) = [] ∨
      infosOn channel (pushedOut (broadcastLog (history ++ rounds.flatten)) (broadcastLog round)) = []) :=
  Listing.forall_split_concat_iff (P := fun before round => infosOn channel (broadcastLog round) = [] ∨
    infosOn channel (pushedOut (broadcastLog (history ++ before.flatten)) (broadcastLog round)) = [])

/-- A round prints what is new less as many items as the ring has lost. -/
theorem drop_answer {round : List Action} (bound : (broadcastLog round).length ≤ 256) :
    (answer channel history (rounds ++ [round])).drop (answer channel history rounds).length =
      (infosOn channel (broadcastLog round)).drop
        (infosOn channel (pushedOut (broadcastLog (history ++ rounds.flatten)) (broadcastLog round))).length := by
  have next : answer channel history (rounds ++ [round]) =
      infosOn channel ((broadcastLog (history ++ rounds.flatten)).rtake (256 - (broadcastLog round).length)) ++
        infosOn channel (broadcastLog round) := by
    rw [answer, log_concat, infosOn_next bound]
  rw [next, answer, infosOn_last, List.length_append, Nat.add_comm, ← List.drop_drop, List.drop_left]

theorem drop_eq_self_iff {α : Type*} {items : List α} {count : ℕ} : items.drop count = items ↔ items = [] ∨ count = 0 := by
  constructor
  · intro same
    have shorter := congrArg List.length same
    rw [List.length_drop] at shorter
    rcases Nat.eq_zero_or_pos items.length with bare | some_
    · exact .inl (List.length_eq_zero_iff.mp bare)
    · exact .inr (by omega)
  · rintro (rfl | rfl)
    · exact List.drop_nil
    · exact List.drop_zero

/-- The loop counts the last answer, never prints too much, and printed everything as long as its count was right. -/
theorem Watch.cli_invariant (watch : Watch channel CliSubscription.poll .start history rounds loop)
    (bounded : ∀ round ∈ rounds, (broadcastLog round).length ≤ 256) :
    loop.seen = (answer channel history rounds).length ∧ loop.printed.length ≤ (due channel history rounds).length ∧
      (loop.printed = due channel history rounds ↔ KeepsCount channel history rounds) := by
  refine watch.invariant (I := fun rounds loop => loop.seen = (answer channel history rounds).length ∧
    loop.printed.length ≤ (due channel history rounds).length ∧
      (loop.printed = due channel history rounds ↔ KeepsCount channel history rounds)) bounded ?_ ?_
  · have printed : (CliSubscription.poll (due channel history []) .start).printed = due channel history [] := by
      rw [CliSubscription.poll, CliSubscription.start, List.nil_append, List.drop_zero]
    refine ⟨?_, le_of_eq (congrArg List.length printed), iff_of_true printed keepsCount_nil⟩
    rw [answer_nil, CliSubscription.poll]
  · rintro rounds round loop bound ⟨seen, shorter, right⟩
    simp only [keepsCount_concat, due_concat, CliSubscription.poll, seen, drop_answer bound]
    refine ⟨trivial, ?_, ?_⟩
    · simp only [List.length_append, List.length_drop]
      omega
    · rw [← List.length_eq_zero_iff (l := infosOn channel (pushedOut _ _)), ← drop_eq_self_iff]
      constructor
      · intro same
        have lengths := congrArg List.length same
        rw [List.length_append, List.length_append, List.length_drop] at lengths
        obtain ⟨old, new⟩ := List.append_inj same (by omega)
        exact ⟨right.1 old, new⟩
      · rintro ⟨kept, same⟩
        rw [right.2 kept, same]

/-- The loop of the CLI prints what is due exactly as long as its count is kept. -/
theorem cli_printed_iff (watch : Watch channel CliSubscription.poll .start history rounds loop)
    (bounded : ∀ round ∈ rounds, (broadcastLog round).length ≤ 256) :
    loop.printed = due channel history rounds ↔ KeepsCount channel history rounds :=
  (watch.cli_invariant bounded).2.2

/-- With few broadcasts nothing is lost from the ring. -/
theorem cli_printed_calm : ∃ loop, Watch "topic:a" CliSubscription.poll .start calmPast calmRounds loop ∧
    loop.printed = due "topic:a" calmPast calmRounds := by
  obtain ⟨loop, watch⟩ := watch_ticks "topic:a" CliSubscription.poll .start calm_ticks.1 calm_ticks.2
  refine ⟨loop, watch, (cli_printed_iff watch calm_bounded).mpr ?_⟩
  change KeepsCount _ _ (([] ++ [[tick "topic:b" "2", tick "topic:a" "3"]]) ++ [[]])
  rw [keepsCount_concat, keepsCount_concat]
  exact ⟨⟨keepsCount_nil, .inr (by decide)⟩, .inl rfl⟩

/-- The ring is full of deltas of the channel. -/
private def fullPast : List Action := (List.range 256).map fun n => tick "topic:a" (toString n)

/-- The next delta on the channel is not printed. -/
theorem cli_printed_full : ∃ loop, Watch "topic:a" CliSubscription.poll .start fullPast [[tick "topic:a" "256"]] loop ∧
    (∀ round ∈ [[tick "topic:a" "256"]], (broadcastLog round).length ≤ 256) ∧
    loop.printed ≠ due "topic:a" fullPast [[tick "topic:a" "256"]] := by
  have past : ∀ action ∈ fullPast, IsTick action := by
    intro action member
    obtain ⟨n, _, rfl⟩ := List.mem_map.mp member
    exact ⟨_, _, rfl⟩
  have ticks : ∀ round ∈ [[tick "topic:a" "256"]], ∀ action ∈ round, IsTick action := by
    intro round member action inside
    rw [List.mem_singleton.mp member] at inside
    exact ⟨_, _, List.mem_singleton.mp inside⟩
  have bounded : ∀ round ∈ [[tick "topic:a" "256"]], (broadcastLog round).length ≤ 256 := by decide
  obtain ⟨loop, watch⟩ := watch_ticks "topic:a" CliSubscription.poll .start past ticks
  refine ⟨loop, watch, bounded, fun right => ?_⟩
  rcases (watch.cli_invariant bounded).2.2.mp right [] [tick "topic:a" "256"] [] rfl with bare | kept
  · exact absurd bare (by decide)
  · exact absurd kept (by decide +kernel)

end Cli

section Sdk

variable {κ : Type} [DecidableEq κ] {key : DeltaInfo → κ} {items : List DeltaInfo} {loop : PollJson κ}

theorem poll_of_seen (seen : ∀ item ∈ items, key item ∈ loop.seen) : PollJson.poll key items loop = loop := by
  induction items with
  | nil => rfl
  | cons item rest ih =>
    obtain ⟨here, later⟩ := List.forall_mem_cons.mp seen
    have same : PollJson.take key loop item = loop := if_pos here
    rw [PollJson.poll, List.foldl_cons, same]
    exact ih later

theorem poll_of_fresh (distinct : (items.map key).Nodup) (fresh : ∀ item ∈ items, key item ∉ loop.seen) :
    (PollJson.poll key items loop).yielded = loop.yielded ++ items ∧
      ∀ k, k ∈ (PollJson.poll key items loop).seen ↔ k ∈ loop.seen ∨ k ∈ items.map key := by
  induction items generalizing loop with
  | nil => exact ⟨(List.append_nil _).symm, fun k => by simp [PollJson.poll]⟩
  | cons item rest ih =>
    obtain ⟨here, later⟩ := List.forall_mem_cons.mp fresh
    obtain ⟨apart, distinct⟩ := List.nodup_cons.mp distinct
    have taken : PollJson.take key loop item = ⟨insert (key item) loop.seen, loop.yielded ++ [item]⟩ := if_neg here
    have unseen : ∀ other ∈ rest, key other ∉ insert (key item) loop.seen := by
      intro other member marked
      rcases Finset.mem_insert.mp marked with same | old
      · exact apart (same ▸ List.mem_map_of_mem member)
      · exact later other member old
    rw [PollJson.poll, List.foldl_cons, taken]
    obtain ⟨yielded, seen⟩ := @ih ⟨insert (key item) loop.seen, loop.yielded ++ [item]⟩ distinct unseen
    refine ⟨?_, fun k => ?_⟩
    · exact yielded.trans (List.append_assoc _ _ _)
    · rw [List.map_cons, List.mem_cons, ← or_assoc, or_comm (a := k ∈ loop.seen), ← Finset.mem_insert]
      exact seen k

omit [DecidableEq κ] in
/-- Keys that tell different ids apart are as distinct as the ids. -/
theorem nodup_keys (telling : ∀ a b, key a = key b → a.deltaId = b.deltaId) {log : List Broadcast}
    (distinct : (log.map (·.1.deltaId)).Nodup) : ((infosOn channel log).map key).Nodup := by
  have ids : ((infosOn channel log).map (·.deltaId)).Nodup := by
    rw [infosOn, List.map_map]
    exact (List.filter_sublist.map _).nodup distinct
  exact List.pairwise_map.mpr ((List.pairwise_map.mp ids).imp fun apart same => apart (telling _ _ same))

omit [DecidableEq κ] in
theorem deltaId_mem {log : List Broadcast} {info : DeltaInfo} (member : info ∈ infosOn channel log) :
    info.deltaId ∈ log.map (·.1.deltaId) := by
  obtain ⟨sent, kept, rfl⟩ := List.mem_map.mp member
  exact List.mem_map.mpr ⟨sent, List.mem_of_mem_filter kept, rfl⟩

theorem deltaId_mem_of_due {info : DeltaInfo} (member : info ∈ due channel history rounds) :
    info.deltaId ∈ (broadcastLog (history ++ rounds.flatten)).map (·.1.deltaId) := by
  have part : (broadcastLog history).rtake 256 ++ broadcastLog rounds.flatten ⊆ broadcastLog (history ++ rounds.flatten) := by
    rw [broadcastLog_append]
    exact List.append_subset.mpr ⟨List.subset_append_of_subset_left _ (Window.rtake_suffix _).subset,
      List.subset_append_right _ _⟩
  exact List.map_subset _ part (deltaId_mem member)

/-- The loop has yielded what is due, and has seen the keys of that. -/
theorem Watch.yielded (telling : ∀ a b, key a = key b → a.deltaId = b.deltaId)
    (watch : Watch channel (PollJson.poll key) .start history rounds loop)
    (bounded : ∀ round ∈ rounds, (broadcastLog round).length ≤ 256)
    (distinct : ((broadcastLog (history ++ rounds.flatten)).map (·.1.deltaId)).Nodup) :
    loop.yielded = due channel history rounds := by
  have kept := watch.invariant (I := fun rounds loop =>
    ((broadcastLog (history ++ rounds.flatten)).map (·.1.deltaId)).Nodup →
      loop.yielded = due channel history rounds ∧ ∀ k, k ∈ loop.seen ↔ k ∈ (due channel history rounds).map key)
    bounded ?_ ?_
  · exact (kept distinct).1
  · intro distinct
    rw [List.flatten_nil, List.append_nil] at distinct
    have recent : (((broadcastLog history).rtake 256).map (·.1.deltaId)).Nodup :=
      (List.Sublist.map _ (Window.rtake_suffix _).sublist).nodup distinct
    have apart : ((due channel history []).map key).Nodup := by
      rw [due_nil]
      exact nodup_keys telling recent
    have fresh : ∀ item ∈ due channel history [], key item ∉ (PollJson.start : PollJson κ).seen :=
      fun _ _ => Finset.notMem_empty _
    obtain ⟨yielded, seen⟩ := poll_of_fresh apart fresh
    refine ⟨yielded.trans (List.nil_append _), fun k => (seen k).trans (or_iff_right ?_)⟩
    exact Finset.notMem_empty k
  · intro rounds round loop bound ih distinct
    rw [log_concat, List.map_append] at distinct
    obtain ⟨old, new, disjoint⟩ := List.nodup_append.mp distinct
    obtain ⟨yielded, seen⟩ := ih old
    have held : ∀ item ∈ infosOn channel ((broadcastLog (history ++ rounds.flatten)).rtake
        (256 - (broadcastLog round).length)), key item ∈ loop.seen :=
      fun item member => (seen _).mpr (List.mem_map_of_mem (mem_due_of_held (Nat.sub_le _ _) member))
    have fresh : ∀ item ∈ infosOn channel (broadcastLog round), key item ∉ loop.seen := by
      intro item member marked
      obtain ⟨earlier, listed, same⟩ := List.mem_map.mp ((seen _).mp marked)
      exact disjoint _ (deltaId_mem_of_due listed) _ (deltaId_mem member) (telling _ _ same)
    have apart : ((infosOn channel (broadcastLog round)).map key).Nodup := nodup_keys telling new
    obtain ⟨yielded', seen'⟩ := poll_of_fresh apart fresh
    have polled : PollJson.poll key (answer channel history (rounds ++ [round])) loop =
        PollJson.poll key (infosOn channel (broadcastLog round)) loop := by
      rw [answer, log_concat, infosOn_next bound, PollJson.poll, List.foldl_append]
      exact congrArg (List.foldl _ · _) (poll_of_seen held)
    rw [polled, due_concat, List.map_append]
    refine ⟨yielded'.trans (congrArg (· ++ _) yielded), fun k => ?_⟩
    rw [seen', seen, List.mem_append]

/-- Both SDKs yield what the ring held at the first poll and everything after it, each delta once and in order. -/
theorem sdk_yielded (bounded : ∀ round ∈ rounds, (broadcastLog round).length ≤ 256)
    (distinct : ((broadcastLog (history ++ rounds.flatten)).map (·.1.deltaId)).Nodup) :
    (∀ loop, Watch channel (PollJson.poll Python.deltaKey) .start history rounds loop →
      loop.yielded = due channel history rounds) ∧
    ∀ loop, Watch channel (PollJson.poll TypeScript.deltaKey) .start history rounds loop →
      loop.yielded = due channel history rounds := by
  refine ⟨fun loop watch => watch.yielded (fun a b same => ?_) bounded distinct,
    fun loop watch => watch.yielded (fun a b same => same) bounded distinct⟩
  rw [Python.deltaKey, Python.deltaKey] at same
  split_ifs at same with first second
  · rw [first, second]
  · exact Option.some.inj same

/-- Deltas on two channels, and a round without any -/
theorem sdk_yielded_calm : (∃ loop, Watch "topic:a" (PollJson.poll Python.deltaKey) .start calmPast calmRounds loop ∧
      loop.yielded.map (·.deltaId) = ["1", "3"]) ∧
    ∃ loop, Watch "topic:a" (PollJson.poll TypeScript.deltaKey) .start calmPast calmRounds loop ∧
      loop.yielded.map (·.deltaId) = ["1", "3"] := by
  have distinct : ((broadcastLog (calmPast ++ calmRounds.flatten)).map (·.1.deltaId)).Nodup := by decide
  obtain ⟨python, typeScript⟩ := @sdk_yielded "topic:a" _ _ calm_bounded distinct
  have ids : (due "topic:a" calmPast calmRounds).map (·.deltaId) = ["1", "3"] := by decide
  obtain ⟨left, watchLeft⟩ := watch_ticks "topic:a" (PollJson.poll Python.deltaKey) .start calm_ticks.1 calm_ticks.2
  obtain ⟨right, watchRight⟩ := watch_ticks "topic:a" (PollJson.poll TypeScript.deltaKey) .start calm_ticks.1 calm_ticks.2
  refine ⟨⟨left, watchLeft, ?_⟩, right, watchRight, ?_⟩
  · rw [python left watchLeft, ids]
  · rw [typeScript right watchRight, ids]

end Sdk

end Bus

end AttowNexus
