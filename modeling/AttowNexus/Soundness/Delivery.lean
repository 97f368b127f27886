import AttowNexus.Library.Lossy
import AttowNexus.Library.Run
import AttowNexus.Proofs.Bus

/-! # What a subscriber gets

One subscription, with an id that nobody else uses and a receiver that stays open. Of the matching broadcasts since it
began, the receiver has taken some, its queue holds some, and one may be waiting to be handed over; the others
are counted as dropped, and no durable one is among them.
-/

namespace AttowNexus

/-- A message with a durable delta -/
def BroadcastDelta.durable (message : BroadcastDelta) : Bool := (message.delta.map (·.durable)).getD false

namespace Bus

variable {bus after : Bus} {action : Action} {subscriberId : String} {filter : SubscriptionFilter} {sender : ℕ}
  {log : List BroadcastDelta}

/-- The message of a broadcast that the filter lets through -/
def Action.matching (filter : SubscriptionFilter) : Action → Option BroadcastDelta
  | .broadcast delta commitId _ =>
      if filterMatches filter delta.channel delta.durable = true then some ⟨some delta, commitId, true⟩ else none
  | _ => none

/-- Messages in flight that have still to reach the target -/
def pendingIn (flights : List Flight) (target : String × ℕ) : List BroadcastDelta :=
  (flights.filter fun flight => target ∈ flight.targets).map (·.message)

/-- Nobody subscribes under the id. -/
def NoReuse (subscriberId : String) (bus : Bus) (action : Action) (after : Bus) : Prop :=
  bus.Acts action after ∧ ∀ filter capacity, action ≠ .subscribe subscriberId filter capacity

/-- Nobody subscribes under the id, its receiver is not dropped, and a broadcast begins when all others are over. -/
def Delivers (subscriberId : String) (sender : ℕ) (bus : Bus) (action : Action) (after : Bus) : Prop :=
  NoReuse subscriberId bus action after ∧ action ≠ .close sender ∧
    ∀ delta commitId order, action = .broadcast delta commitId order → ∀ flight ∈ bus.flights, flight.targets = []

section Pending

variable {flights : List Flight} {place : ℕ} {flight next : Flight} {target : String × ℕ}

/-- The list around the element in a place -/
private theorem exists_split (found : flights[place]? = some flight) :
    ∃ left right, flights = left ++ flight :: right ∧ ∀ next, flights.set place next = left ++ next :: right := by
  obtain ⟨bound, rfl⟩ := List.getElem?_eq_some_iff.mp found
  refine ⟨flights.take place, flights.drop (place + 1), ?_, fun next => ?_⟩
  · rw [← List.drop_eq_getElem_cons bound, List.take_append_drop]
  · rw [List.set_eq_take_append_cons_drop, if_pos bound]

theorem pendingIn_split (left right : List Flight) :
    pendingIn (left ++ flight :: right) target =
      pendingIn left target ++ (if target ∈ flight.targets then [flight.message] else []) ++ pendingIn right target := by
  rw [pendingIn, List.filter_append, List.filter_cons, List.map_append]
  by_cases waiting : target ∈ flight.targets <;> simp [waiting, pendingIn]

/-- A change of one broadcast that says nothing new about the target. -/
theorem pendingIn_set_of_iff (found : flights[place]? = some flight) (message : next.message = flight.message)
    (same : target ∈ next.targets ↔ target ∈ flight.targets) :
    pendingIn (flights.set place next) target = pendingIn flights target := by
  obtain ⟨left, right, rfl, set⟩ := exists_split found
  rw [set, pendingIn_split, pendingIn_split, message]
  simp only [same]

/-- The only broadcast on its way to the target arrives. -/
theorem pendingIn_set_of_served (found : flights[place]? = some flight) (single : (pendingIn flights target).length ≤ 1)
    (waiting : target ∈ flight.targets) (served : target ∉ next.targets) :
    pendingIn flights target = [flight.message] ∧ pendingIn (flights.set place next) target = [] := by
  obtain ⟨left, right, rfl, set⟩ := exists_split found
  rw [pendingIn_split, if_pos waiting] at single ⊢
  rw [set, pendingIn_split, if_neg served]
  simp only [List.length_append, List.length_singleton] at single
  have before : pendingIn left target = [] := List.eq_nil_of_length_eq_zero (by omega)
  have behind : pendingIn right target = [] := List.eq_nil_of_length_eq_zero (by omega)
  rw [before, behind]
  exact ⟨rfl, rfl⟩

end Pending

section Tracking

/-- The subscription is in the table, its id and its queue stand for each other, and what has arrived or is on its way
makes up the log, drops apart. -/
structure Tracks (bus : Bus) (subscriberId : String) (filter : SubscriptionFilter) (sender : ℕ) (log : List BroadcastDelta) :
    Prop where
  holds : bus.Holds subscriberId filter sender
  apart : ∀ pair, bus.Knows pair → (pair.1 = subscriberId ↔ pair.2 = sender)
  single : (pendingIn bus.flights (subscriberId, sender)).length ≤ 1
  arrived : ∃ queue, bus.queues[sender]? = some queue ∧ queue.isOpen = true ∧
    Lossy (·.durable) log (queue.taken ++ queue.contents ++ pendingIn bus.flights (subscriberId, sender))
      (bus.droppedFor subscriberId)

variable {place : ℕ} {flight : Flight} {name : String} {served : ℕ} {queue : Queue} {rest : List (String × ℕ)}

theorem Tracks.length_lt (tracks : bus.Tracks subscriberId filter sender log) : sender < bus.queues.length := by
  obtain ⟨_, found, _⟩ := tracks.arrived
  exact (List.getElem?_eq_some_iff.mp found).1

/-- A turn for another subscriber is not seen by this one. -/
theorem Turn.elsewhere (turn : Turn bus place flight name served queue after) (apartId : name ≠ subscriberId)
    (apartQueue : served ≠ sender) :
    after.queues[sender]? = bus.queues[sender]? ∧
    Table.lookup (·.subscriberId) subscriberId after.subscriptions =
      Table.lookup (·.subscriberId) subscriberId bus.subscriptions := by
  have other : subscriberId ≠ name := apartId.symm
  cases turn with
  | delivered =>
    refine ⟨?_, rfl⟩
    change (bus.queues.modify served _)[sender]? = _
    simp [apartQueue]
  | blocked => exact ⟨rfl, rfl⟩
  | dropped =>
    have steady : ∀ sub : Subscription, ({ sub with droppedCount := sub.droppedCount + 1 } : Subscription).subscriberId =
        sub.subscriberId := fun _ => rfl
    refine ⟨rfl, ?_⟩
    change Table.lookup _ _ (Table.update _ _ _ bus.subscriptions) = _
    rw [Table.lookup_update steady, if_neg other]
  | removed =>
    refine ⟨rfl, ?_⟩
    change Table.lookup _ _ (bus.subscriptions.filter _) = _
    rw [Table.lookup_filter_ne, if_neg other]
  | abandoned => exact ⟨rfl, rfl⟩

theorem Tracks.of_same (tracks : bus.Tracks subscriberId filter sender log)
    (apart : ∀ pair, after.Knows pair → (pair.1 = subscriberId ↔ pair.2 = sender))
    (queues : after.queues[sender]? = bus.queues[sender]?)
    (table : Table.lookup (·.subscriberId) subscriberId after.subscriptions =
      Table.lookup (·.subscriberId) subscriberId bus.subscriptions)
    (pending : pendingIn after.flights (subscriberId, sender) = pendingIn bus.flights (subscriberId, sender)) :
    after.Tracks subscriberId filter sender log where
  holds := by
    rw [Holds, table]
    exact tracks.holds
  apart := apart
  single := pending ▸ tracks.single
  arrived := by
    rw [queues, pending, droppedFor, table]
    exact tracks.arrived

/-- The turn of a broadcast for the subscriber itself: the message arrives, waits or is dropped. -/
theorem Tracks.turn_here (tracks : bus.Tracks subscriberId filter sender log)
    (apart : ∀ pair, after.Knows pair → (pair.1 = subscriberId ↔ pair.2 = sender))
    (found : bus.flights[place]? = some flight) (first : flight.targets = (subscriberId, sender) :: rest)
    (once : (subscriberId, sender) ∉ rest) (there : bus.queues[sender]? = some queue)
    (turn : Turn bus place flight subscriberId sender queue after) : after.Tracks subscriberId filter sender log := by
  obtain ⟨receiver, found', isOpen, lossy⟩ := tracks.arrived
  obtain rfl := Option.some.inj (there.symm.trans found')
  have waiting : (subscriberId, sender) ∈ flight.targets := first ▸ List.mem_cons_self
  have served : (subscriberId, sender) ∉ ({ flight with targets := flight.targets.tail, waits := false } : Flight).targets := by
    change _ ∉ flight.targets.tail
    rw [first]
    exact once
  obtain ⟨pending, none⟩ := pendingIn_set_of_served found tracks.single waiting served
  rw [pending] at lossy
  cases turn with
  | delivered =>
    refine ⟨tracks.holds, apart, ?_, queue.push flight.message, ?_, isOpen, ?_⟩
    · exact none ▸ Nat.zero_le _
    · change (bus.queues.modify sender _)[sender]? = _
      rw [List.getElem?_modify, there]
      simp
    · change Lossy _ log (queue.taken ++ (queue.contents ++ [flight.message]) ++ pendingIn (bus.flights.set place _) _) _
      rw [none, List.append_nil, ← List.append_assoc]
      exact lossy
  | blocked =>
    refine tracks.of_same apart rfl rfl (pendingIn_set_of_iff found rfl .rfl)
  | dropped _ _ ephemeral =>
    have steady : ∀ sub : Subscription, ({ sub with droppedCount := sub.droppedCount + 1 } : Subscription).subscriberId =
        sub.subscriberId := fun _ => rfl
    obtain ⟨sub, held, _⟩ := tracks.holds
    refine ⟨holds_recordDrop_iff.2 tracks.holds, apart, ?_, queue, there, isOpen, ?_⟩
    · exact none ▸ Nat.zero_le _
    · have count : droppedFor ((bus.recordDrop subscriberId).advance place flight) subscriberId =
          bus.droppedFor subscriberId + 1 := by
        change ((Table.lookup _ _ (Table.update _ _ _ bus.subscriptions)).map _).getD 0 = _
        rw [Table.lookup_update steady, if_pos rfl, droppedFor, held]
        rfl
      rw [count]
      change Lossy _ log (_ ++ pendingIn (bus.flights.set place _) _) _
      rw [none, List.append_nil]
      exact lossy.lose ephemeral
  | removed closed => exact absurd (closed.symm.trans isOpen) nofun
  | abandoned closed => exact absurd (closed.symm.trans isOpen) nofun

theorem Tracks.turn_elsewhere (tracks : bus.Tracks subscriberId filter sender log)
    (apart : ∀ pair, after.Knows pair → (pair.1 = subscriberId ↔ pair.2 = sender))
    (found : bus.flights[place]? = some flight) (first : flight.targets = (name, served) :: rest)
    (apartId : name ≠ subscriberId) (apartQueue : served ≠ sender)
    (turn : Turn bus place flight name served queue after) : after.Tracks subscriberId filter sender log := by
  obtain ⟨queues, table⟩ := turn.elsewhere apartId apartQueue
  obtain ⟨next, flights, message, kept⟩ := turn.flights
  refine tracks.of_same apart queues table ?_
  rw [flights]
  refine pendingIn_set_of_iff found message ?_
  rcases kept with ⟨same, _⟩ | ⟨fewer, _⟩
  · rw [same]
  · rw [fewer, first, List.tail_cons, List.mem_cons, or_iff_right]
    exact fun same => apartId (Prod.mk.inj same).1.symm

/-- A broadcast that goes on keeps the account. -/
theorem Tracks.proceed (tracks : bus.Tracks subscriberId filter sender log) (distinct : bus.Distinct)
    (went : bus.proceed place = some after)
    (apart : ∀ pair, after.Knows pair → (pair.1 = subscriberId ↔ pair.2 = sender)) :
    after.Tracks subscriberId filter sender log := by
  obtain ⟨flight, name, served, rest, queue, found, first, there, turn⟩ := proceed_turn went
  have member : flight ∈ bus.flights := List.mem_of_getElem? found
  have together : name = subscriberId ↔ served = sender :=
    tracks.apart (name, served) (.inr ⟨flight, member, first ▸ List.mem_cons_self⟩)
  by_cases here : name = subscriberId
  · obtain rfl := together.mp here
    obtain rfl := here
    have ids := distinct flight member
    rw [first, List.map_cons, List.nodup_cons] at ids
    exact tracks.turn_here apart found first (fun again => ids.1 (List.mem_map_of_mem again)) there turn
  · exact tracks.turn_elsewhere apart found first here (fun same => here (together.mpr same)) turn

/-- What the receiver takes was the first in its queue. -/
theorem Tracks.recv (tracks : bus.Tracks subscriberId filter sender log)
    (apart : ∀ pair, (bus.onQueue sender .recv).Knows pair → (pair.1 = subscriberId ↔ pair.2 = sender)) :
    (bus.onQueue sender .recv).Tracks subscriberId filter sender log := by
  obtain ⟨queue, found, isOpen, lossy⟩ := tracks.arrived
  refine ⟨tracks.holds, apart, tracks.single, queue.recv, ?_, isOpen, ?_⟩
  · change (bus.queues.modify sender _)[sender]? = _
    rw [List.getElem?_modify, found]
    simp
  · have same : queue.recv.taken ++ queue.recv.contents = queue.taken ++ queue.contents := by
      rw [Queue.recv, List.append_assoc, List.take_append_drop]
    rw [same]
    exact lossy

/-- When nothing else is in flight, a new broadcast is on its way to the subscriber if the filter lets it through. -/
theorem Tracks.pendingIn_broadcast (tracks : bus.Tracks subscriberId filter sender log) (keyed : bus.Keyed)
    (idle : ∀ flight ∈ bus.flights, flight.targets = []) {delta : StateDelta} (commitId : String)
    {order : List (String × ℕ)} (met : order.Perm (bus.targets delta)) :
    pendingIn bus.flights (subscriberId, sender) = [] ∧
      pendingIn (bus.broadcast delta commitId order).flights (subscriberId, sender) =
        ((Action.broadcast delta commitId order).matching filter).toList := by
  obtain ⟨sub, held, named, sent⟩ := tracks.holds
  obtain ⟨member, same⟩ := Table.mem_of_lookup held
  have quiet : pendingIn bus.flights (subscriberId, sender) = [] := by
    rw [pendingIn, List.filter_eq_nil_iff.mpr, List.map_nil]
    intro flight there
    simp [idle flight there]
  have targeted : (subscriberId, sender) ∈ order ↔ filterMatches filter delta.channel delta.durable = true := by
    rw [met.mem_iff, targets, List.mem_map]
    constructor
    · rintro ⟨other, inside, alike⟩
      obtain ⟨sameId, _⟩ := Prod.mk.inj alike
      have found := Table.lookup_of_mem keyed (List.mem_of_mem_filter inside)
      rw [sameId, held] at found
      obtain rfl := Option.some.inj found
      have through : subscriptionMatches sub delta = true := (List.mem_filter.mp inside).2
      rwa [subscriptionMatches, named] at through
    · intro through
      exact ⟨sub, List.mem_filter.mpr ⟨member, by rwa [subscriptionMatches, named]⟩, by rw [same, sent]⟩
  refine ⟨quiet, ?_⟩
  change pendingIn (bus.flights ++ [_]) _ = _
  rw [pendingIn_split, quiet, Action.matching]
  by_cases through : filterMatches filter delta.channel delta.durable = true
  · rw [if_pos (targeted.mpr through), if_pos through]
    rfl
  · rw [if_neg (fun there => through (targeted.mp there)), if_neg through]
    rfl

theorem Tracks.broadcast (tracks : bus.Tracks subscriberId filter sender log) (keyed : bus.Keyed)
    (idle : ∀ flight ∈ bus.flights, flight.targets = []) {delta : StateDelta} {commitId : String}
    {order : List (String × ℕ)} (met : order.Perm (bus.targets delta))
    (apart : ∀ pair, (bus.broadcast delta commitId order).Knows pair → (pair.1 = subscriberId ↔ pair.2 = sender)) :
    (bus.broadcast delta commitId order).Tracks subscriberId filter sender
      (log ++ ((Action.broadcast delta commitId order).matching filter).toList) := by
  obtain ⟨quiet, pending⟩ := tracks.pendingIn_broadcast keyed idle commitId met
  obtain ⟨queue, found, isOpen, lossy⟩ := tracks.arrived
  rw [quiet, List.append_nil] at lossy
  refine ⟨tracks.holds, apart, ?_, queue, found, isOpen, ?_⟩
  · rw [pending, Option.length_toList]
    split <;> omega
  · rw [pending]
    cases (Action.broadcast delta commitId order).matching filter with
    | none =>
      rw [Option.toList_none, List.append_nil, List.append_nil]
      exact lossy
    | some message => exact lossy.arrive

end Tracking

section Runs

/-- A step that leaves the subscription its id and its receiver keeps the account. -/
theorem Delivers.tracks (step : Delivers subscriberId sender bus action after) (keyed : bus.Keyed)
    (distinct : bus.Distinct) (tracks : bus.Tracks subscriberId filter sender log) :
    after.Tracks subscriberId filter sender (log ++ (action.matching filter).toList) := by
  obtain ⟨⟨acts, others⟩, kept, idle⟩ := step
  have apart : ∀ pair, after.Knows pair → (pair.1 = subscriberId ↔ pair.2 = sender) := by
    intro pair knows
    rcases acts.knows knows with old | ⟨name, other, capacity, rfl, rfl⟩
    · exact tracks.apart pair old
    · have length := tracks.length_lt
      refine ⟨?_, fun same => ?_⟩
      · rintro rfl
        exact absurd rfl (others other capacity)
      · change bus.queues.length = sender at same
        omega
  have quiet : ∀ other : Action, other.matching filter = none → log ++ (other.matching filter).toList = log := by
    intro other unmatched
    rw [unmatched, Option.toList_none, List.append_nil]
  cases action with
  | registerAgent now request =>
    obtain rfl := Option.some.inj acts
    rw [quiet _ rfl]
    exact tracks.of_same apart rfl rfl rfl
  | heartbeat now agentId =>
    obtain rfl := Option.some.inj acts
    obtain ⟨presence, same⟩ := bus.heartbeat_eq now agentId
    rw [same, quiet _ rfl]
    exact tracks.of_same (same ▸ apart) rfl rfl rfl
  | subscribe name other capacity =>
    obtain rfl := Option.some.inj acts
    have different : subscriberId ≠ name := by
      rintro rfl
      exact others other capacity rfl
    rw [quiet _ rfl]
    refine tracks.of_same apart (List.getElem?_append_left tracks.length_lt) ?_ rfl
    change Table.lookup _ _ (Table.insertOrReplace _ _ _) = _
    rw [Table.lookup_insertOrReplace, if_neg different]
  | broadcast delta commitId order =>
    obtain ⟨met, rfl⟩ := acts_broadcast_iff.1 acts
    exact tracks.broadcast keyed (idle _ _ _ rfl) met apart
  | proceed place =>
    rw [quiet _ rfl]
    exact tracks.proceed distinct acts apart
  | recv queue =>
    obtain rfl := Option.some.inj acts
    rw [quiet _ rfl]
    by_cases mine : queue = sender
    · subst mine
      exact tracks.recv apart
    · refine tracks.of_same apart ?_ rfl rfl
      change (bus.queues.modify queue _)[sender]? = _
      simp [mine]
  | close queue =>
    obtain rfl := Option.some.inj acts
    have other : queue ≠ sender := fun same => kept (same ▸ rfl)
    rw [quiet _ rfl]
    refine tracks.of_same apart ?_ rfl rfl
    change (bus.queues.modify queue _)[sender]? = _
    simp [other]

/-- Before its first subscription an id is nowhere to be found, and every sender names a queue. -/
theorem unknown_of_run {actions : List Action} (run : Run (NoReuse subscriberId) new actions bus) :
    bus.Keyed ∧ bus.Distinct ∧ ∀ pair, bus.Knows pair → pair.1 ≠ subscriberId ∧ pair.2 < bus.queues.length := by
  refine run.invariant (I := fun bus => bus.Keyed ∧ bus.Distinct ∧ ∀ pair, bus.Knows pair →
    pair.1 ≠ subscriberId ∧ pair.2 < bus.queues.length) ⟨List.nodup_nil, ?_, ?_⟩ ?_
  · exact fun _ absent => absurd absent List.not_mem_nil
  · rintro pair (⟨_, absent, _⟩ | ⟨_, absent, _⟩)
    · exact absurd absent List.not_mem_nil
    · exact absurd absent List.not_mem_nil
  · rintro s action t ⟨keyed, distinct, unknown⟩ ⟨acts, others⟩
    refine ⟨acts.keyed keyed, acts.distinct keyed distinct, fun pair knows => ?_⟩
    rcases acts.knows knows with old | ⟨name, filter, capacity, rfl, rfl⟩
    · obtain ⟨other, known⟩ := unknown pair old
      exact ⟨other, lt_of_lt_of_le known acts.length_queues⟩
    · refine ⟨fun same => others filter capacity (same ▸ rfl), ?_⟩
      obtain rfl := Option.some.inj acts
      change s.queues.length < (s.queues ++ [_]).length
      rw [List.length_append, List.length_singleton]
      omega

/-- A new subscription has an empty account. -/
theorem tracks_subscribe {capacity : ℕ}
    (unknown : ∀ pair, bus.Knows pair → pair.1 ≠ subscriberId ∧ pair.2 < bus.queues.length) :
    (bus.subscribe subscriberId filter capacity).Tracks subscriberId filter bus.queues.length [] := by
  have held : (bus.subscribe subscriberId filter capacity).Holds subscriberId filter bus.queues.length := by
    rw [holds_subscribe_iff, if_pos rfl]
    exact ⟨rfl, rfl⟩
  have pending : pendingIn bus.flights (subscriberId, bus.queues.length) = [] := by
    rw [pendingIn, List.filter_eq_nil_iff.mpr, List.map_nil]
    intro flight member there
    exact (unknown _ (.inr ⟨flight, member, of_decide_eq_true there⟩)).1 rfl
  have dropped : (bus.subscribe subscriberId filter capacity).droppedFor subscriberId = 0 := by
    rw [droppedFor, subscribe, Table.lookup_insertOrReplace, if_pos rfl]
    rfl
  refine ⟨held, fun pair knows => ?_, ?_, ⟨max 1 (min capacity 8192), [], [], true⟩, ?_, rfl, ?_⟩
  · have subscribed : bus.Acts (.subscribe subscriberId filter capacity) (bus.subscribe subscriberId filter capacity) := rfl
    rcases subscribed.knows knows with old | ⟨name, _, _, same, rfl⟩
    · obtain ⟨other, known⟩ := unknown pair old
      exact ⟨fun same => absurd same other, fun same => by omega⟩
    · obtain ⟨rfl, _, _⟩ := Action.subscribe.inj same
      exact ⟨fun _ => rfl, fun _ => rfl⟩
  · change (pendingIn bus.flights _).length ≤ 1
    rw [pending]
    exact Nat.zero_le _
  · change (bus.queues ++ [_])[bus.queues.length]? = _
    rw [List.getElem?_append_right le_rfl, Nat.sub_self]
    rfl
  · change Lossy _ [] ([] ++ [] ++ pendingIn bus.flights _) _
    rw [pending, dropped]
    exact .nil

theorem filterMap_singleton (action : Action) :
    [action].filterMap (·.matching filter) = (action.matching filter).toList := by
  cases matched : action.matching filter <;> simp [matched]

/-- What the receiver has taken, what its queue holds and what is still on its way are the matching broadcasts since the
subscription began, in their order; the missing ones are as many as were counted as dropped, and none of them is
durable. When no broadcast is in flight, nothing is on its way. -/
theorem durable_delivery {start finish : Bus} {before later : List Action} {capacity : ℕ}
    (earlier : Run (NoReuse subscriberId) new before start)
    (run : Run (Delivers subscriberId start.queues.length) (start.subscribe subscriberId filter capacity) later finish) :
    ∃ queue pending, finish.queues[start.queues.length]? = some queue ∧
      pending = pendingIn finish.flights (subscriberId, start.queues.length) ∧
      Lossy (·.durable) (later.filterMap (·.matching filter)) (queue.taken ++ queue.contents ++ pending)
        (finish.droppedFor subscriberId) ∧
      ((∀ flight ∈ finish.flights, flight.targets = []) → pending = []) := by
  obtain ⟨keyed, distinct, unknown⟩ := unknown_of_run earlier
  have subscribed : start.Acts (.subscribe subscriberId filter capacity) (start.subscribe subscriberId filter capacity) := rfl
  have account : finish.Keyed ∧ finish.Distinct ∧
      finish.Tracks subscriberId filter start.queues.length (later.filterMap (·.matching filter)) := by
    induction run with
    | nil => exact ⟨subscribed.keyed keyed, subscribed.distinct keyed distinct, tracks_subscribe unknown⟩
    | snoc _ step ih =>
      obtain ⟨keyed, distinct, tracks⟩ := ih
      have acts := step.1.1
      refine ⟨acts.keyed keyed, acts.distinct keyed distinct, ?_⟩
      rw [List.filterMap_append, filterMap_singleton]
      exact step.tracks keyed distinct tracks
  obtain ⟨queue, found, _, lossy⟩ := account.2.2.arrived
  refine ⟨queue, _, found, rfl, lossy, fun idle => ?_⟩
  rw [pendingIn, List.filter_eq_nil_iff.mpr, List.map_nil]
  intro flight member
  simp [idle flight member]

end Runs

section Sample

private def all : SubscriptionFilter := ⟨["*"], false⟩

private def topicDelta (deltaId : String) (durable : Bool) : StateDelta :=
  { (default : StateDelta) with deltaId := deltaId, channel := "topic", durable := durable }

/-- A subscriber with room for one message -/
private def reader : Bus := new.subscribe "s" all 1

/-- A broadcast that looks at the table and takes its turn -/
private def sendTo (bus : Bus) (place : ℕ) (delta : StateDelta) : Bus :=
  ((bus.broadcast delta "" [("s", 0)]).proceed place).getD bus

private def filled : Bus := sendTo reader 0 (topicDelta "first" true)

private def overflowed : Bus := sendTo filled 1 (topicDelta "second" false)

private def waiting : Bus := sendTo overflowed 2 (topicDelta "third" true)

private def resumed : Bus := ((waiting.onQueue 0 .recv).proceed 2).getD waiting

private def sendActions (place : ℕ) (delta : StateDelta) : List Action :=
  [.broadcast delta "" [("s", 0)], .proceed place]

private theorem run_sendTo {bus : Bus} {place : ℕ} {delta : StateDelta} (met : [("s", 0)].Perm (bus.targets delta))
    (idle : ∀ flight ∈ bus.flights, flight.targets = [])
    (goes : ((bus.broadcast delta "" [("s", 0)]).proceed place).isSome = true) :
    Run (Delivers "s" 0) bus (sendActions place delta) (sendTo bus place delta) := by
  obtain ⟨after, went⟩ := Option.isSome_iff_exists.mp goes
  have reached : sendTo bus place delta = after := by
    rw [sendTo, went, Option.getD_some]
  have begun : Delivers "s" 0 bus (.broadcast delta "" [("s", 0)]) (bus.broadcast delta "" [("s", 0)]) :=
    ⟨⟨acts_broadcast_iff.2 ⟨met, rfl⟩, nofun⟩, nofun, fun _ _ _ _ => idle⟩
  rw [reached]
  exact .cons begun (.single ⟨⟨went, nofun⟩, nofun, fun _ _ _ same => nomatch same⟩)

private def sampleActions : List Action :=
  sendActions 0 (topicDelta "first" true) ++ sendActions 1 (topicDelta "second" false) ++
    sendActions 2 (topicDelta "third" true) ++ [.recv 0, .proceed 2]

private theorem sample_run : Run (Delivers "s" 0) reader sampleActions resumed := by
  have first : Run (Delivers "s" 0) reader (sendActions 0 (topicDelta "first" true)) filled :=
    run_sendTo (by decide) (by decide) (by decide)
  have second : Run (Delivers "s" 0) filled (sendActions 1 (topicDelta "second" false)) overflowed :=
    run_sendTo (by decide) (by decide) (by decide)
  have third : Run (Delivers "s" 0) overflowed (sendActions 2 (topicDelta "third" true)) waiting :=
    run_sendTo (by decide) (by decide) (by decide)
  have taken : Delivers "s" 0 waiting (.recv 0) (waiting.onQueue 0 .recv) := ⟨⟨rfl, nofun⟩, nofun, fun _ _ _ same => nomatch same⟩
  have goes : ((waiting.onQueue 0 .recv).proceed 2).isSome = true := by decide
  have last : Run (Delivers "s" 0) waiting [.recv 0, .proceed 2] resumed := by
    obtain ⟨after, went⟩ := Option.isSome_iff_exists.mp goes
    have reached : resumed = after := by
      rw [resumed, went, Option.getD_some]
    rw [reached]
    exact .cons taken (.single ⟨⟨went, nofun⟩, nofun, fun _ _ _ same => nomatch same⟩)
  exact ((first.append second).append third).append last

/-- With room for one message, an ephemeral broadcast is dropped and a durable one waits until the first is taken. -/
theorem durable_delivery_full :
    ∃ queue, resumed.queues[0]? = some queue ∧
      Lossy (·.durable) (sampleActions.filterMap (·.matching all)) (queue.taken ++ queue.contents) 1 := by
  obtain ⟨queue, pending, found, same, lossy, none⟩ := durable_delivery .nil sample_run
  have dropped : resumed.droppedFor "s" = 1 := by decide
  rw [none (by decide), List.append_nil, dropped] at lossy
  exact ⟨queue, found, lossy⟩

end Sample

end Bus

end AttowNexus
