import AttowNexus.Library.Window
import AttowNexus.Soundness.Delivery

/-! # A full queue keeps what is old

Ephemeral broadcasts to a subscription that is not read. As long as there is room each of them is queued, and after that
each new one is dropped. So the queue holds the first broadcasts, where the default policy promises the last ones.
-/

namespace AttowNexus

namespace Bus

variable {bus after : Bus} {action : Action} {subscriberId : String} {filter : SubscriptionFilter} {sender capacity : ℕ}
  {log : List BroadcastDelta}

/-- Nobody reads the queue, and what is broadcast to the subscription is ephemeral. -/
def Presses (subscriberId : String) (filter : SubscriptionFilter) (sender : ℕ) (bus : Bus) (action : Action) (after : Bus) :
    Prop :=
  Delivers subscriberId sender bus action after ∧ action ≠ .recv sender ∧
    ∀ message, action.matching filter = some message → message.durable = false

/-- The queue holds the first of the broadcasts that have been served; the last one may be on its way. -/
def Fills (bus : Bus) (subscriberId : String) (sender capacity : ℕ) (log : List BroadcastDelta) : Prop :=
  ∃ served queue, bus.queues[sender]? = some queue ∧ queue.isOpen = true ∧ queue.capacity = capacity ∧
    queue.contents = served.take capacity ∧ log = served ++ pendingIn bus.flights (subscriberId, sender)

/-- The messages of the broadcasts that the filter lets through -/
def sentTo (filter : SubscriptionFilter) (actions : List Action) : List BroadcastDelta := actions.filterMap (·.matching filter)

section Turns

variable {place : ℕ} {flight : Flight} {name : String} {served : ℕ} {queue : Queue} {rest : List (String × ℕ)}

theorem Fills.of_same (fills : bus.Fills subscriberId sender capacity log)
    (queues : after.queues[sender]? = bus.queues[sender]?)
    (pending : pendingIn after.flights (subscriberId, sender) = pendingIn bus.flights (subscriberId, sender)) :
    after.Fills subscriberId sender capacity log := by
  rw [Fills, queues, pending]
  exact fills

/-- The message is queued if there is room, and dropped if there is none. -/
theorem Fills.turn_here (fills : bus.Fills subscriberId sender capacity log)
    (single : (pendingIn bus.flights (subscriberId, sender)).length ≤ 1)
    (ephemeral : ∀ message ∈ log, message.durable = false) (found : bus.flights[place]? = some flight)
    (first : flight.targets = (subscriberId, sender) :: rest) (once : (subscriberId, sender) ∉ rest)
    (there : bus.queues[sender]? = some queue) (turn : Turn bus place flight subscriberId sender queue after) :
    after.Fills subscriberId sender capacity log := by
  obtain ⟨kept, receiver, found', isOpen, size, contents, rfl⟩ := fills
  obtain rfl := Option.some.inj (there.symm.trans found')
  have waiting : (subscriberId, sender) ∈ flight.targets := first ▸ List.mem_cons_self
  have gone : (subscriberId, sender) ∉ ({ flight with targets := flight.targets.tail, waits := false } : Flight).targets := by
    change _ ∉ flight.targets.tail
    rw [first]
    exact once
  obtain ⟨pending, none⟩ := pendingIn_set_of_served found single waiting gone
  rw [pending] at ephemeral ⊢
  have light : flight.delta.durable = false := ephemeral flight.message (by simp)
  have length : queue.contents.length = min capacity kept.length := by rw [contents, List.length_take]
  cases turn with
  | delivered _ room =>
    refine ⟨kept ++ [flight.message], queue.push flight.message, ?_, isOpen, size, ?_, ?_⟩
    · change (bus.queues.modify sender _)[sender]? = _
      rw [List.getElem?_modify, there]
      simp
    · have short : kept.length < capacity := by omega
      change queue.contents ++ [flight.message] = _
      rw [contents, List.take_of_length_le short.le, List.take_of_length_le]
      rw [List.length_append, List.length_singleton]
      omega
    · change _ = _ ++ pendingIn (bus.flights.set place _) _
      rw [none, List.append_nil]
  | blocked _ _ durable => exact absurd (light.symm.trans durable) nofun
  | dropped _ full =>
    refine ⟨kept ++ [flight.message], queue, there, isOpen, size, ?_, ?_⟩
    · rw [contents, List.take_append_of_le_length (by omega)]
    · change _ = _ ++ pendingIn (bus.flights.set place _) _
      rw [none, List.append_nil]
  | removed closed => exact absurd (closed.symm.trans isOpen) nofun
  | abandoned closed => exact absurd (closed.symm.trans isOpen) nofun

theorem Fills.proceed (fills : bus.Fills subscriberId sender capacity log)
    (tracks : bus.Tracks subscriberId filter sender log) (distinct : bus.Distinct)
    (ephemeral : ∀ message ∈ log, message.durable = false) (went : bus.proceed place = some after) :
    after.Fills subscriberId sender capacity log := by
  obtain ⟨flight, name, served, rest, queue, found, first, there, turn⟩ := proceed_turn went
  have member : flight ∈ bus.flights := List.mem_of_getElem? found
  have together : name = subscriberId ↔ served = sender :=
    tracks.apart (name, served) (.inr ⟨flight, member, first ▸ List.mem_cons_self⟩)
  by_cases here : name = subscriberId
  · obtain rfl := together.mp here
    obtain rfl := here
    have ids := distinct flight member
    rw [first, List.map_cons, List.nodup_cons] at ids
    exact fills.turn_here tracks.single ephemeral found first (fun again => ids.1 (List.mem_map_of_mem again)) there turn
  · obtain ⟨queues, _⟩ := turn.elsewhere here fun same => here (together.mpr same)
    obtain ⟨next, flights, message, kept⟩ := turn.flights
    refine fills.of_same queues ?_
    rw [flights]
    refine pendingIn_set_of_iff found message ?_
    rcases kept with ⟨same, _⟩ | ⟨fewer, _⟩
    · rw [same]
    · rw [fewer, first, List.tail_cons, List.mem_cons, or_iff_right]
      exact fun same => here (Prod.mk.inj same).1.symm

end Turns

section Runs

theorem Presses.fills (step : Presses subscriberId filter sender bus action after) (keyed : bus.Keyed)
    (distinct : bus.Distinct) (tracks : bus.Tracks subscriberId filter sender log)
    (fills : bus.Fills subscriberId sender capacity log) (ephemeral : ∀ message ∈ log, message.durable = false) :
    after.Fills subscriberId sender capacity (log ++ (action.matching filter).toList) := by
  obtain ⟨⟨⟨acts, others⟩, kept, idle⟩, unread, _⟩ := step
  have quiet : ∀ other : Action, other.matching filter = none → log ++ (other.matching filter).toList = log := by
    intro other unmatched
    rw [unmatched, Option.toList_none, List.append_nil]
  have apart : ∀ {queue : ℕ} {change : Queue → Queue}, queue ≠ sender →
      (bus.onQueue queue change).Fills subscriberId sender capacity log := by
    intro queue change other
    refine fills.of_same ?_ rfl
    change (bus.queues.modify queue _)[sender]? = _
    simp [other]
  cases action with
  | registerAgent now request =>
    obtain rfl := Option.some.inj acts
    rw [quiet _ rfl]
    exact fills
  | heartbeat now agentId =>
    obtain rfl := Option.some.inj acts
    obtain ⟨presence, same⟩ := bus.heartbeat_eq now agentId
    rw [same, quiet _ rfl]
    exact fills
  | subscribe name other capacity =>
    obtain rfl := Option.some.inj acts
    rw [quiet _ rfl]
    exact fills.of_same (List.getElem?_append_left tracks.length_lt) rfl
  | broadcast delta commitId order =>
    obtain ⟨met, rfl⟩ := acts_broadcast_iff.1 acts
    obtain ⟨none, pending⟩ := tracks.pendingIn_broadcast keyed (idle _ _ _ rfl) commitId met
    obtain ⟨served, queue, found, isOpen, size, contents, rfl⟩ := fills
    refine ⟨served, queue, found, isOpen, size, contents, ?_⟩
    rw [none, pending, List.append_nil]
  | proceed place =>
    rw [quiet _ rfl]
    exact fills.proceed tracks distinct ephemeral acts
  | recv queue =>
    obtain rfl := Option.some.inj acts
    rw [quiet _ rfl]
    exact apart fun same => unread (same ▸ rfl)
  | close queue =>
    obtain rfl := Option.some.inj acts
    rw [quiet _ rfl]
    exact apart fun same => kept (same ▸ rfl)

/-- A new subscription has an empty queue. -/
theorem fills_subscribe (unknown : ∀ pair, bus.Knows pair → pair.1 ≠ subscriberId ∧ pair.2 < bus.queues.length) :
    (bus.subscribe subscriberId filter capacity).Fills subscriberId bus.queues.length (max 1 (min capacity 8192)) [] := by
  refine ⟨[], ⟨max 1 (min capacity 8192), [], [], true⟩, ?_, rfl, rfl, List.take_nil.symm, ?_⟩
  · change (bus.queues ++ [_])[bus.queues.length]? = _
    rw [List.getElem?_append_right le_rfl, Nat.sub_self]
    rfl
  · change [] = [] ++ pendingIn bus.flights _
    rw [List.nil_append, pendingIn, List.filter_eq_nil_iff.mpr, List.map_nil]
    intro flight member there
    exact (unknown _ (.inr ⟨flight, member, of_decide_eq_true there⟩)).1 rfl

/-- A queue that nobody reads holds the first broadcasts. They are the last ones too exactly when all of them fit, or when
they repeat with the surplus as their period. -/
theorem newest_kept_iff {start finish : Bus} {before later : List Action}
    (earlier : Run (NoReuse subscriberId) new before start)
    (run : Run (Presses subscriberId filter start.queues.length) (start.subscribe subscriberId filter capacity) later finish)
    (idle : ∀ flight ∈ finish.flights, flight.targets = []) :
    ∃ queue, finish.queues[start.queues.length]? = some queue ∧ queue.capacity = max 1 (min capacity 8192) ∧
      queue.contents = (sentTo filter later).take queue.capacity ∧
      (queue.contents = (sentTo filter later).rtake queue.capacity ↔
        (sentTo filter later).length ≤ queue.capacity ∨ ∀ i < queue.capacity,
          (sentTo filter later)[i]? = (sentTo filter later)[i + ((sentTo filter later).length - queue.capacity)]?) := by
  obtain ⟨keyed, distinct, unknown⟩ := unknown_of_run earlier
  have subscribed : start.Acts (.subscribe subscriberId filter capacity) (start.subscribe subscriberId filter capacity) := rfl
  have account : (∀ message ∈ sentTo filter later, message.durable = false) ∧ finish.Keyed ∧
      finish.Distinct ∧ finish.Tracks subscriberId filter start.queues.length (sentTo filter later) ∧
      finish.Fills subscriberId start.queues.length (max 1 (min capacity 8192)) (sentTo filter later) := by
    clear idle
    induction run with
    | nil => exact ⟨fun _ absent => absurd absent List.not_mem_nil, subscribed.keyed keyed,
        subscribed.distinct keyed distinct, tracks_subscribe unknown, fills_subscribe unknown⟩
    | snoc _ step ih =>
      obtain ⟨ephemeral, keyed, distinct, tracks, fills⟩ := ih
      have acts := step.1.1.1
      rw [sentTo, List.filterMap_append, filterMap_singleton]
      refine ⟨?_, acts.keyed keyed, acts.distinct keyed distinct, step.1.tracks keyed distinct tracks,
        step.fills keyed distinct tracks fills ephemeral⟩
      refine List.forall_mem_append.mpr ⟨ephemeral, fun message matched => ?_⟩
      exact step.2.2 message (Option.mem_toList.mp matched)
  obtain ⟨_, _, _, _, served, queue, found, _, size, contents, same⟩ := account
  have quiet : pendingIn finish.flights (subscriberId, start.queues.length) = [] := by
    rw [pendingIn, List.filter_eq_nil_iff.mpr, List.map_nil]
    intro flight member
    simp [idle flight member]
  rw [quiet, List.append_nil] at same
  rw [← size, ← same] at contents
  exact ⟨queue, found, size, contents, by rw [contents, Window.take_eq_rtake_iff]⟩

end Runs

section Sample

private def anyKind : SubscriptionFilter := ⟨["*"], false⟩

private def noise (deltaId : String) : StateDelta :=
  { (default : StateDelta) with deltaId := deltaId, channel := "topic", durable := false }

/-- A subscriber with room for one message, which it never reads -/
private def deaf : Bus := new.subscribe "s" anyKind 1

private def rang (bus : Bus) (place : ℕ) (deltaId : String) : Bus :=
  ((bus.broadcast (noise deltaId) "" [("s", 0)]).proceed place).getD bus

private def ringing (place : ℕ) (deltaId : String) : List Action :=
  [.broadcast (noise deltaId) "" [("s", 0)], .proceed place]

private theorem run_rang {bus : Bus} {place : ℕ} {deltaId : String} (met : [("s", 0)].Perm (bus.targets (noise deltaId)))
    (idle : ∀ flight ∈ bus.flights, flight.targets = [])
    (goes : ((bus.broadcast (noise deltaId) "" [("s", 0)]).proceed place).isSome = true) :
    Run (Presses "s" anyKind 0) bus (ringing place deltaId) (rang bus place deltaId) := by
  obtain ⟨after, went⟩ := Option.isSome_iff_exists.mp goes
  have reached : rang bus place deltaId = after := by
    rw [rang, went, Option.getD_some]
  have light : ∀ message, (Action.broadcast (noise deltaId) "" [("s", 0)]).matching anyKind = some message →
      message.durable = false := by
    intro message matched
    obtain rfl := Option.some.inj matched
    rfl
  have begun : Presses "s" anyKind 0 bus (.broadcast (noise deltaId) "" [("s", 0)])
      (bus.broadcast (noise deltaId) "" [("s", 0)]) :=
    ⟨⟨⟨acts_broadcast_iff.2 ⟨met, rfl⟩, nofun⟩, nofun, fun _ _ _ _ => idle⟩, nofun, light⟩
  rw [reached]
  exact .cons begun (.single ⟨⟨⟨went, nofun⟩, nofun, fun _ _ _ same => nomatch same⟩, nofun, fun _ same => nomatch same⟩)

private def overrun : Bus := rang (rang deaf 0 "first") 1 "second"

private theorem overrun_run : Run (Presses "s" anyKind 0) deaf (ringing 0 "first" ++ ringing 1 "second") overrun :=
  (run_rang (by decide) (by decide) (by decide)).append (run_rang (by decide) (by decide) (by decide))

private theorem overrun_contents :
    ∃ queue, overrun.queues[0]? = some queue ∧ queue.capacity = 1 ∧
      queue.contents.map (fun message => message.delta.map (·.deltaId)) = [some "first"] := by
  refine ⟨_, rfl, rfl, ?_⟩
  decide

/-- The one that came first is in the queue, and the last one is not. -/
theorem newest_kept_iff_overrun : ∃ queue, overrun.queues[0]? = some queue ∧
    queue.contents = (sentTo anyKind (ringing 0 "first" ++ ringing 1 "second")).take queue.capacity ∧
    queue.contents ≠ (sentTo anyKind (ringing 0 "first" ++ ringing 1 "second")).rtake queue.capacity := by
  obtain ⟨queue, found, size, contents, kept⟩ := newest_kept_iff .nil overrun_run (by decide)
  have one : queue.capacity = 1 := size
  refine ⟨queue, found, contents, fun same => ?_⟩
  rw [one] at kept same
  rcases kept.mp same with fits | repeats
  · exact absurd fits (by decide)
  · have alike := congrArg (·.map fun message => message.delta.map (·.deltaId)) (repeats 0 Nat.one_pos)
    exact absurd alike (by decide)

/-- The queue does not always hold the last broadcasts. -/
theorem newest_not_kept : ¬ ∀ (subscriberId : String) (filter : SubscriptionFilter) (capacity : ℕ) (start finish : Bus)
    (before later : List Action), Run (NoReuse subscriberId) new before start →
    Run (Presses subscriberId filter start.queues.length) (start.subscribe subscriberId filter capacity) later finish →
    (∀ flight ∈ finish.flights, flight.targets = []) → ∀ queue, finish.queues[start.queues.length]? = some queue →
      queue.contents = (sentTo filter later).rtake queue.capacity := by
  intro claim
  obtain ⟨queue, found, size, texts⟩ := overrun_contents
  have last := claim "s" anyKind 1 new overrun [] _ .nil overrun_run (by decide) queue found
  rw [last, size] at texts
  exact absurd texts (by decide)

end Sample

end Bus

end AttowNexus
