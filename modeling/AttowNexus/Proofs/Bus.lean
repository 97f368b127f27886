import AttowNexus.Model.Bus

/-! # How a broadcast goes on

One turn of a broadcast hands its message over, waits, drops it or gives its subscriber up. The other broadcasts in
flight are not touched.
-/

namespace AttowNexus

namespace Queue

variable {queue : Queue}

theorem trySend_ok_iff : queue.trySend = .ok ↔ queue.isOpen = true ∧ queue.contents.length < queue.capacity := by
  rw [trySend]
  split_ifs <;> simp_all

theorem trySend_full_iff : queue.trySend = .full ↔ queue.isOpen = true ∧ queue.capacity ≤ queue.contents.length := by
  rw [trySend]
  split_ifs <;> simp_all

theorem trySend_closed_iff : queue.trySend = .closed ↔ queue.isOpen = false := by
  rw [trySend]
  split_ifs <;> simp_all

end Queue

namespace Bus

variable {bus after : Bus} {place : ℕ} {flight : Flight}

/-- The turn of the broadcast in the given place, whose first target is the given one. -/
inductive Turn (bus : Bus) (place : ℕ) (flight : Flight) (subscriberId : String) (sender : ℕ) (queue : Queue) : Bus → Prop
  | delivered (isOpen : queue.isOpen = true) (room : queue.contents.length < queue.capacity) :
      Turn bus place flight subscriberId sender queue
        ((bus.onQueue sender (.push flight.message)).advance place flight)
  | blocked (isOpen : queue.isOpen = true) (full : queue.capacity ≤ queue.contents.length)
      (durable : flight.delta.durable = true) (fresh : flight.waits = false) :
      Turn bus place flight subscriberId sender queue (bus.wait place flight)
  | dropped (isOpen : queue.isOpen = true) (full : queue.capacity ≤ queue.contents.length)
      (ephemeral : flight.delta.durable = false) (fresh : flight.waits = false) :
      Turn bus place flight subscriberId sender queue ((bus.recordDrop subscriberId).advance place flight)
  | removed (closed : queue.isOpen = false) (fresh : flight.waits = false) :
      Turn bus place flight subscriberId sender queue ((bus.unsubscribe subscriberId).advance place flight)
  | abandoned (closed : queue.isOpen = false) (waited : flight.waits = true) :
      Turn bus place flight subscriberId sender queue (bus.advance place flight)

/-- A broadcast that goes on takes a turn for its first target. -/
theorem proceed_turn (went : bus.proceed place = some after) :
    ∃ flight subscriberId sender rest queue, bus.flights[place]? = some flight ∧
      flight.targets = (subscriberId, sender) :: rest ∧ bus.queues[sender]? = some queue ∧
      Turn bus place flight subscriberId sender queue after := by
  obtain ⟨flight, found, went⟩ := Option.bind_eq_some_iff.mp went
  cases left : flight.targets with
  | nil =>
    simp only [left] at went
    exact absurd went nofun
  | cons target rest =>
    obtain ⟨subscriberId, sender⟩ := target
    simp only [left] at went
    obtain ⟨queue, there, went⟩ := Option.bind_eq_some_iff.mp went
    refine ⟨flight, subscriberId, sender, rest, queue, found, left, there, ?_⟩
    cases waited : flight.waits with
    | true =>
      rw [if_pos waited, finishSend] at went
      cases sent : queue.trySend with
      | ok =>
        obtain ⟨isOpen, room⟩ := Queue.trySend_ok_iff.1 sent
        simp only [sent, Option.some.injEq] at went
        exact went ▸ .delivered isOpen room
      | full =>
        simp only [sent] at went
        exact absurd went nofun
      | closed =>
        simp only [sent, Option.some.injEq] at went
        exact went ▸ .abandoned (Queue.trySend_closed_iff.1 sent) waited
    | false =>
      rw [if_neg (by simp [waited]), Option.some.injEq, serve] at went
      cases sent : queue.trySend with
      | ok =>
        obtain ⟨isOpen, room⟩ := Queue.trySend_ok_iff.1 sent
        simp only [sent] at went
        exact went ▸ .delivered isOpen room
      | full =>
        obtain ⟨isOpen, full⟩ := Queue.trySend_full_iff.1 sent
        simp only [sent] at went
        split_ifs at went with durable
        · exact went ▸ .blocked isOpen full durable waited
        · exact went ▸ .dropped isOpen full (by simpa using durable) waited
      | closed =>
        simp only [sent] at went
        exact went ▸ .removed (Queue.trySend_closed_iff.1 sent) waited

/-- The targets that a broadcast has not tried yet; it does not look at the one it waits for again. -/
def untried (flight : Flight) : List (String × ℕ) := if flight.waits = true then flight.targets.tail else flight.targets

/-- A turn changes its own broadcast only, and leaves it its targets or all but the first. -/
theorem Turn.flights {subscriberId : String} {sender : ℕ} {queue : Queue}
    (turn : Turn bus place flight subscriberId sender queue after) :
    ∃ next : Flight, after.flights = bus.flights.set place next ∧ next.message = flight.message ∧
      (next.targets = flight.targets ∧ next.waits = true ∨ next.targets = flight.targets.tail ∧ next.waits = false) := by
  cases turn with
  | delivered => exact ⟨_, rfl, rfl, .inr ⟨rfl, rfl⟩⟩
  | blocked => exact ⟨_, rfl, rfl, .inl ⟨rfl, rfl⟩⟩
  | dropped => exact ⟨_, rfl, rfl, .inr ⟨rfl, rfl⟩⟩
  | removed => exact ⟨_, rfl, rfl, .inr ⟨rfl, rfl⟩⟩
  | abandoned => exact ⟨_, rfl, rfl, .inr ⟨rfl, rfl⟩⟩

/-- What is left to try after a turn was left to try before it. -/
theorem Turn.untried {subscriberId : String} {sender : ℕ} {queue : Queue}
    (turn : Turn bus place flight subscriberId sender queue after) (found : bus.flights[place]? = some flight)
    {other : Flight} (member : other ∈ after.flights) {target : String × ℕ} (left : target ∈ untried other) :
    ∃ earlier ∈ bus.flights, target ∈ Bus.untried earlier := by
  obtain ⟨next, flights, _, kept⟩ := turn.flights
  rw [flights] at member
  rcases List.mem_or_eq_of_mem_set member with old | rfl
  · exact ⟨other, old, left⟩
  · refine ⟨flight, List.mem_of_getElem? found, ?_⟩
    have tail : target ∈ flight.targets.tail := by
      rcases kept with ⟨same, waits⟩ | ⟨fewer, fresh⟩
      · rwa [Bus.untried, if_pos waits, same] at left
      · rwa [Bus.untried, if_neg (by simp [fresh]), fewer] at left
    rw [Bus.untried]
    split
    · exact tail
    · exact List.mem_of_mem_tail tail

/-- The receiver of the queue has not been dropped. -/
def IsOpen (bus : Bus) (sender : ℕ) : Prop := ∃ queue, bus.queues[sender]? = some queue ∧ queue.isOpen = true

/-- The table holds the subscription. -/
def Holds (bus : Bus) (subscriberId : String) (filter : SubscriptionFilter) (sender : ℕ) : Prop :=
  ∃ sub, Table.lookup (·.subscriberId) subscriberId bus.subscriptions = some sub ∧ sub.filter = filter ∧ sub.sender = sender

section Effects

variable {subscriberId other : String} {filter filter' : SubscriptionFilter} {capacity sender sender' : ℕ} {queue : Queue}

theorem isOpen_onQueue {change : Queue → Queue} (steady : ∀ queue, (change queue).isOpen = queue.isOpen) :
    (bus.onQueue sender change).IsOpen sender' ↔ bus.IsOpen sender' := by
  simp only [IsOpen, onQueue, List.getElem?_modify]
  by_cases same : sender = sender'
  · simp [same, steady]
  · simp [same]

/-- Closing one queue opens none. -/
theorem IsOpen.of_close (isOpen : (bus.onQueue sender .close).IsOpen sender') : bus.IsOpen sender' := by
  obtain ⟨queue, found, live⟩ := isOpen
  simp only [onQueue, List.getElem?_modify] at found
  by_cases same : sender = sender'
  · simp only [if_pos same, Option.map_eq_map, Option.map_eq_some_iff] at found
    obtain ⟨before, _, rfl⟩ := found
    exact absurd live nofun
  · simp only [if_neg same, id_map'] at found
    exact ⟨queue, found, live⟩

theorem IsOpen.of_subscribe (isOpen : (bus.subscribe subscriberId filter capacity).IsOpen sender)
    (old : sender ≠ bus.queues.length) : bus.IsOpen sender := by
  obtain ⟨queue, found, live⟩ := isOpen
  refine ⟨queue, ?_, live⟩
  rw [subscribe, List.getElem?_append] at found
  split at found
  · exact found
  · have bound := (List.getElem?_eq_some_iff.mp found).1
    simp only [List.length_singleton] at bound
    omega

theorem holds_subscribe_iff :
    (bus.subscribe subscriberId filter capacity).Holds other filter' sender ↔
      if other = subscriberId then filter = filter' ∧ bus.queues.length = sender else bus.Holds other filter' sender := by
  simp only [Holds, subscribe, Table.lookup_insertOrReplace]
  split
  · simp
  · rfl

theorem holds_unsubscribe_iff :
    (bus.unsubscribe subscriberId).Holds other filter sender ↔ other ≠ subscriberId ∧ bus.Holds other filter sender := by
  simp only [Holds, unsubscribe, Table.lookup_filter_ne]
  split <;> simp [*]

theorem holds_recordDrop_iff :
    (bus.recordDrop subscriberId).Holds other filter sender ↔ bus.Holds other filter sender := by
  have steady : ∀ sub : Subscription, ({ sub with droppedCount := sub.droppedCount + 1 } : Subscription).subscriberId =
      sub.subscriberId := fun _ => rfl
  simp only [Holds, recordDrop, Table.lookup_update steady]
  split
  · simp [Option.map_eq_some_iff]
  · rfl

/-- A turn opens and closes no queue. -/
theorem Turn.isOpen_iff (turn : Turn bus place flight subscriberId sender queue after) :
    after.IsOpen sender' ↔ bus.IsOpen sender' := by
  cases turn with
  | delivered => exact isOpen_onQueue fun _ => rfl
  | blocked => exact .rfl
  | dropped => exact .rfl
  | removed => exact .rfl
  | abandoned => exact .rfl

/-- A turn changes the table only by removing the id of a closed queue that it has just tried. -/
theorem Turn.holds_iff (turn : Turn bus place flight subscriberId sender queue after) :
    (after.Holds other filter sender' ↔ bus.Holds other filter sender') ∨
      queue.isOpen = false ∧ flight.waits = false ∧
        (after.Holds other filter sender' ↔ other ≠ subscriberId ∧ bus.Holds other filter sender') := by
  cases turn with
  | delivered => exact .inl .rfl
  | blocked => exact .inl .rfl
  | dropped => exact .inl holds_recordDrop_iff
  | removed closed fresh => exact .inr ⟨closed, fresh, holds_unsubscribe_iff⟩
  | abandoned => exact .inl .rfl

theorem heartbeat_eq (now : Timestamp) (agentId : String) :
    ∃ presence, bus.heartbeat now agentId = { bus with presence := presence } := by
  rw [heartbeat]
  split
  · exact ⟨bus.presence, rfl⟩
  · exact ⟨_, rfl⟩

end Effects

section Keys

variable {action : Action} {subscriberId : String} {sender : ℕ} {queue : Queue}

theorem acts_broadcast_iff {delta : StateDelta} {commitId : String} {order : List (String × ℕ)} :
    bus.Acts (.broadcast delta commitId order) after ↔
      order.Perm (bus.targets delta) ∧ after = bus.broadcast delta commitId order := by
  rw [Acts, act, Option.ite_none_right_eq_some, Option.some.injEq, @eq_comm _ after]

/-- The ids in the table are all different. -/
def Keyed (bus : Bus) : Prop := (bus.subscriptions.map (·.subscriberId)).Nodup

theorem Turn.keyed (turn : Turn bus place flight subscriberId sender queue after) (keyed : bus.Keyed) : after.Keyed := by
  cases turn with
  | delivered => exact keyed
  | blocked => exact keyed
  | dropped =>
    have steady : ∀ sub : Subscription, ({ sub with droppedCount := sub.droppedCount + 1 } : Subscription).subscriberId =
        sub.subscriberId := fun _ => rfl
    rw [Keyed, advance, recordDrop, Table.keys_update steady]
    exact keyed
  | removed => exact keyed.sublist (List.filter_sublist.map _)
  | abandoned => exact keyed

theorem Acts.keyed (acts : bus.Acts action after) (keyed : bus.Keyed) : after.Keyed := by
  cases action with
  | registerAgent now request =>
    obtain rfl := Option.some.inj acts
    exact keyed
  | heartbeat now agentId =>
    obtain rfl := Option.some.inj acts
    obtain ⟨presence, same⟩ := bus.heartbeat_eq now agentId
    exact same ▸ keyed
  | subscribe subscriberId filter capacity =>
    obtain rfl := Option.some.inj acts
    exact Table.nodup_insertOrReplace keyed
  | broadcast delta commitId order =>
    obtain ⟨_, rfl⟩ := acts_broadcast_iff.1 acts
    exact keyed
  | proceed place =>
    obtain ⟨_, _, _, _, _, _, _, _, turn⟩ := proceed_turn acts
    exact turn.keyed keyed
  | recv queue =>
    obtain rfl := Option.some.inj acts
    exact keyed
  | close queue =>
    obtain rfl := Option.some.inj acts
    exact keyed

theorem Turn.length_queues (turn : Turn bus place flight subscriberId sender queue after) :
    after.queues.length = bus.queues.length := by
  cases turn with
  | delivered => exact List.length_modify _ _ _
  | blocked => rfl
  | dropped => rfl
  | removed => rfl
  | abandoned => rfl

/-- No queue goes away. -/
theorem Acts.length_queues (acts : bus.Acts action after) : bus.queues.length ≤ after.queues.length := by
  cases action with
  | registerAgent now request =>
    obtain rfl := Option.some.inj acts
    exact le_refl _
  | heartbeat now agentId =>
    obtain rfl := Option.some.inj acts
    obtain ⟨presence, same⟩ := bus.heartbeat_eq now agentId
    exact same ▸ le_refl _
  | subscribe subscriberId filter capacity =>
    obtain rfl := Option.some.inj acts
    rw [subscribe, List.length_append]
    omega
  | broadcast delta commitId order =>
    obtain ⟨_, rfl⟩ := acts_broadcast_iff.1 acts
    exact le_refl _
  | proceed place =>
    obtain ⟨_, _, _, _, _, _, _, _, turn⟩ := proceed_turn acts
    exact turn.length_queues.ge
  | recv queue =>
    obtain rfl := Option.some.inj acts
    exact (List.length_modify _ _ _).ge
  | close queue =>
    obtain rfl := Option.some.inj acts
    exact (List.length_modify _ _ _).ge

end Keys

section Pairs

variable {action : Action} {subscriberId : String} {sender : ℕ} {queue : Queue} {pair : String × ℕ}

/-- An id and a queue that stand together in the table or in a broadcast in flight -/
def Knows (bus : Bus) (pair : String × ℕ) : Prop :=
  (∃ sub ∈ bus.subscriptions, (sub.subscriberId, sub.sender) = pair) ∨ ∃ flight ∈ bus.flights, pair ∈ flight.targets

/-- The ids among the targets of a broadcast are all different. -/
def Distinct (bus : Bus) : Prop := ∀ flight ∈ bus.flights, (flight.targets.map (·.1)).Nodup

theorem Turn.pair_of_table (turn : Turn bus place flight subscriberId sender queue after)
    (there : ∃ sub ∈ after.subscriptions, (sub.subscriberId, sub.sender) = pair) :
    ∃ sub ∈ bus.subscriptions, (sub.subscriberId, sub.sender) = pair := by
  obtain ⟨sub, member, rfl⟩ := there
  cases turn with
  | delivered => exact ⟨sub, member, rfl⟩
  | blocked => exact ⟨sub, member, rfl⟩
  | dropped =>
    obtain ⟨old, inside, same⟩ := List.mem_map.mp member
    split_ifs at same
    · exact ⟨old, inside, by rw [← same]⟩
    · exact ⟨old, inside, by rw [← same]⟩
  | removed => exact ⟨sub, List.mem_of_mem_filter member, rfl⟩
  | abandoned => exact ⟨sub, member, rfl⟩

theorem Turn.targets_of (turn : Turn bus place flight subscriberId sender queue after)
    (found : bus.flights[place]? = some flight) {other : Flight} (member : other ∈ after.flights) :
    ∃ earlier ∈ bus.flights, other.targets.Sublist earlier.targets := by
  obtain ⟨next, flights, _, kept⟩ := turn.flights
  rw [flights] at member
  rcases List.mem_or_eq_of_mem_set member with old | rfl
  · exact ⟨other, old, .refl _⟩
  · refine ⟨flight, List.mem_of_getElem? found, ?_⟩
    rcases kept with ⟨same, _⟩ | ⟨fewer, _⟩
    · exact same ▸ .refl _
    · exact fewer ▸ List.tail_sublist _

theorem Turn.knows (turn : Turn bus place flight subscriberId sender queue after)
    (found : bus.flights[place]? = some flight) (knows : after.Knows pair) : bus.Knows pair := by
  rcases knows with inTable | ⟨other, member, inside⟩
  · exact .inl (turn.pair_of_table inTable)
  · obtain ⟨earlier, there, sub⟩ := turn.targets_of found member
    exact .inr ⟨earlier, there, sub.subset inside⟩

/-- Only subscribing makes a new pair, with the queue that it adds. -/
theorem Acts.knows (acts : bus.Acts action after) (knows : after.Knows pair) :
    bus.Knows pair ∨
      ∃ subscriberId filter capacity, action = .subscribe subscriberId filter capacity ∧ pair = (subscriberId, bus.queues.length) := by
  cases action with
  | registerAgent now request =>
    obtain rfl := Option.some.inj acts
    exact .inl knows
  | heartbeat now agentId =>
    obtain rfl := Option.some.inj acts
    obtain ⟨presence, same⟩ := bus.heartbeat_eq now agentId
    rw [same] at knows
    exact .inl knows
  | subscribe subscriberId filter capacity =>
    obtain rfl := Option.some.inj acts
    rcases knows with ⟨sub, member, rfl⟩ | inFlight
    · rcases List.mem_append.mp member with old | only
      · exact .inl (.inl ⟨sub, List.mem_of_mem_filter old, rfl⟩)
      · rw [List.mem_singleton.mp only]
        exact .inr ⟨subscriberId, filter, capacity, rfl, rfl⟩
    · exact .inl (.inr inFlight)
  | broadcast delta commitId order =>
    obtain ⟨met, rfl⟩ := acts_broadcast_iff.1 acts
    rcases knows with inTable | ⟨flight, member, inside⟩
    · exact .inl (.inl inTable)
    · rcases List.mem_append.mp member with old | only
      · exact .inl (.inr ⟨flight, old, inside⟩)
      · obtain rfl := List.mem_singleton.mp only
        obtain ⟨sub, there, same⟩ := List.mem_map.mp (met.subset inside)
        exact .inl (.inl ⟨sub, List.mem_of_mem_filter there, same⟩)
  | proceed place =>
    obtain ⟨_, _, _, _, _, found, _, _, turn⟩ := proceed_turn acts
    exact .inl (turn.knows found knows)
  | recv queue =>
    obtain rfl := Option.some.inj acts
    exact .inl knows
  | close queue =>
    obtain rfl := Option.some.inj acts
    exact .inl knows

theorem Acts.distinct (acts : bus.Acts action after) (keyed : bus.Keyed) (distinct : bus.Distinct) : after.Distinct := by
  cases action with
  | registerAgent now request =>
    obtain rfl := Option.some.inj acts
    exact distinct
  | heartbeat now agentId =>
    obtain rfl := Option.some.inj acts
    obtain ⟨presence, same⟩ := bus.heartbeat_eq now agentId
    rw [same]
    exact distinct
  | subscribe subscriberId filter capacity =>
    obtain rfl := Option.some.inj acts
    exact distinct
  | broadcast delta commitId order =>
    obtain ⟨met, rfl⟩ := acts_broadcast_iff.1 acts
    intro flight member
    rcases List.mem_append.mp member with old | only
    · exact distinct flight old
    · obtain rfl := List.mem_singleton.mp only
      refine (met.map _).nodup_iff.mpr ?_
      rw [targets, List.map_map]
      exact keyed.sublist (List.filter_sublist.map _)
  | proceed place =>
    obtain ⟨_, _, _, _, _, found, _, _, turn⟩ := proceed_turn acts
    intro other member
    obtain ⟨earlier, there, sub⟩ := turn.targets_of found member
    exact (distinct earlier there).sublist (sub.map _)
  | recv queue =>
    obtain rfl := Option.some.inj acts
    exact distinct
  | close queue =>
    obtain rfl := Option.some.inj acts
    exact distinct

end Pairs

end Bus

end AttowNexus
