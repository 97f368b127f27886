import AttowNexus.Library.Run
import AttowNexus.Proofs.Bus

/-! # Removing subscribers

A broadcast that finds a queue closed removes the subscriber by its id. By then the id may belong to a new
subscription, unless nobody subscribes under an id that a broadcast in flight still has to try.
-/

namespace AttowNexus

namespace Bus

variable {bus after : Bus} {action : Action} {subscriberId : String} {sender : ℕ} {filter : SubscriptionFilter}

/-- An id is subscribed again only after the receiver that the table has for it was dropped. -/
def Replaces (bus : Bus) (action : Action) : Prop :=
  ∀ subscriberId filter capacity, action = .subscribe subscriberId filter capacity →
    ∀ other sender, bus.Holds subscriberId other sender → ¬ bus.IsOpen sender

/-- No broadcast in flight has still to try the id that is subscribed. -/
def Awaited (bus : Bus) (action : Action) : Prop :=
  ∀ subscriberId filter capacity, action = .subscribe subscriberId filter capacity →
    ∀ flight ∈ bus.flights, ∀ target ∈ untried flight, target.1 ≠ subscriberId

/-- What broadcasts have still to try is what the table has for the id, if it has anything. -/
def Agree (bus : Bus) : Prop :=
  ∀ flight ∈ bus.flights, ∀ target ∈ untried flight, ∀ filter sender, bus.Holds target.1 filter sender → sender = target.2

/-- A step under the condition on subscribing. -/
def CarefulStep (bus : Bus) (action : Action) (after : Bus) : Prop :=
  bus.Acts action after ∧ bus.Replaces action ∧ bus.Awaited action

theorem agree_new : Agree new := fun _ absent => absurd absent List.not_mem_nil

/-- The table of one bus has no more subscriptions than that of another, and its broadcasts no more to try. -/
theorem Agree.of_less (agree : bus.Agree)
    (tried : ∀ flight ∈ after.flights, ∀ target ∈ untried flight, ∃ earlier ∈ bus.flights, target ∈ untried earlier)
    (holds : ∀ name filter sender, after.Holds name filter sender → bus.Holds name filter sender) : after.Agree := by
  intro flight member target left filter sender held
  obtain ⟨earlier, there, left'⟩ := tried flight member target left
  exact agree earlier there target left' filter sender (holds _ _ _ held)

/-- The targets of a new broadcast are in the table. -/
theorem holds_of_mem_targets {delta : StateDelta} {target : String × ℕ} (unique : (bus.subscriptions.map (·.subscriberId)).Nodup)
    (member : target ∈ bus.targets delta) : ∃ filter, bus.Holds target.1 filter target.2 := by
  obtain ⟨sub, inside, rfl⟩ := List.mem_map.mp member
  exact ⟨sub.filter, sub, Table.lookup_of_mem unique (List.mem_of_mem_filter inside), rfl, rfl⟩

theorem Holds.unique {filter' : SubscriptionFilter} {sender' : ℕ} (first : bus.Holds subscriberId filter sender)
    (second : bus.Holds subscriberId filter' sender') : filter = filter' ∧ sender = sender' := by
  obtain ⟨sub, found, rfl, rfl⟩ := first
  obtain ⟨other, found', rfl, rfl⟩ := second
  obtain rfl := Option.some.inj (found.symm.trans found')
  exact ⟨rfl, rfl⟩

/-- Careful steps keep what is left to try in agreement with the table. -/
theorem CarefulStep.agree (step : CarefulStep bus action after) (keyed : bus.Keyed) (agree : bus.Agree) : after.Agree := by
  obtain ⟨acts, _, awaited⟩ := step
  cases action with
  | registerAgent now request =>
    obtain rfl := Option.some.inj acts
    exact agree
  | heartbeat now agentId =>
    obtain rfl := Option.some.inj acts
    obtain ⟨presence, same⟩ := bus.heartbeat_eq now agentId
    exact same ▸ agree
  | subscribe subscriberId filter capacity =>
    obtain rfl := Option.some.inj acts
    intro flight member target left other sender held
    rw [holds_subscribe_iff, if_neg (awaited _ _ _ rfl flight member target left)] at held
    exact agree flight member target left other sender held
  | broadcast delta commitId order =>
    obtain ⟨met, rfl⟩ := acts_broadcast_iff.1 acts
    intro flight member target left filter sender held
    rcases List.mem_append.mp member with old | only
    · exact agree flight old target left filter sender held
    · obtain rfl := List.mem_singleton.mp only
      obtain ⟨_, there⟩ := holds_of_mem_targets keyed (met.subset left)
      exact (Holds.unique held there).2
  | proceed place =>
    obtain ⟨flight, subscriberId, sender, rest, queue, found, _, _, turn⟩ := proceed_turn acts
    refine agree.of_less (fun flight member target left => turn.untried found member left) ?_
    intro name filter sender held
    rcases turn.holds_iff with same | ⟨_, _, fewer⟩
    · exact same.mp held
    · exact (fewer.mp held).2
  | recv queue =>
    obtain rfl := Option.some.inj acts
    exact agree
  | close queue =>
    obtain rfl := Option.some.inj acts
    exact agree

/-- As long as its receiver is open, the table has the subscription. -/
def Live (bus : Bus) (subscriberId : String) (filter : SubscriptionFilter) (sender : ℕ) : Prop :=
  bus.IsOpen sender → bus.Holds subscriberId filter sender

theorem CarefulStep.live (step : CarefulStep bus action after) (agree : bus.Agree) (known : sender < bus.queues.length)
    (live : bus.Live subscriberId filter sender) : after.Live subscriberId filter sender := by
  obtain ⟨acts, replaces, _⟩ := step
  cases action with
  | registerAgent now request =>
    obtain rfl := Option.some.inj acts
    exact live
  | heartbeat now agentId =>
    obtain rfl := Option.some.inj acts
    obtain ⟨presence, same⟩ := bus.heartbeat_eq now agentId
    exact same ▸ live
  | subscribe name other capacity =>
    obtain rfl := Option.some.inj acts
    intro isOpen
    have before : bus.IsOpen sender := isOpen.of_subscribe (by omega)
    have apart : subscriberId ≠ name := by
      rintro rfl
      exact replaces _ _ _ rfl filter sender (live before) before
    rw [holds_subscribe_iff, if_neg apart]
    exact live before
  | broadcast delta commitId order =>
    obtain ⟨_, rfl⟩ := acts_broadcast_iff.1 acts
    exact live
  | proceed place =>
    obtain ⟨flight, name, tried, rest, queue, found, first, there, turn⟩ := proceed_turn acts
    intro isOpen
    have held := live (turn.isOpen_iff.mp isOpen)
    rcases turn.holds_iff with same | ⟨closed, fresh, fewer⟩
    · exact same.mpr held
    · -- the id that is removed is in agreement with the table, and its queue is closed
      refine fewer.mpr ⟨?_, held⟩
      rintro rfl
      have left : (subscriberId, tried) ∈ untried flight := by
        rw [untried, if_neg (by simp [fresh]), first]
        exact List.mem_cons_self
      obtain rfl := agree flight (List.mem_of_getElem? found) _ left filter sender held
      obtain ⟨other, found', opened⟩ := turn.isOpen_iff.mp isOpen
      obtain rfl := Option.some.inj (there.symm.trans found')
      cases closed.symm.trans opened
  | recv queue =>
    obtain rfl := Option.some.inj acts
    have same : (bus.onQueue queue .recv).IsOpen sender ↔ bus.IsOpen sender := isOpen_onQueue fun _ => rfl
    exact fun isOpen => live (same.mp isOpen)
  | close queue =>
    obtain rfl := Option.some.inj acts
    exact fun isOpen => live isOpen.of_close

theorem live_subscribe {capacity : ℕ} :
    (bus.subscribe subscriberId filter capacity).Live subscriberId filter bus.queues.length := by
  intro _
  rw [holds_subscribe_iff, if_pos rfl]
  exact ⟨rfl, rfl⟩

/-- If nobody subscribes under an id that a broadcast in flight still has to try, a subscription stays in the table for
as long as its receiver is open. -/
theorem open_subscription_stays {start finish : Bus} {before later : List Action} {capacity : ℕ}
    (earlier : Run CarefulStep new before start)
    (subscribed : CarefulStep start (.subscribe subscriberId filter capacity) after)
    (run : Run CarefulStep after later finish) (isOpen : finish.IsOpen start.queues.length) :
    finish.Holds subscriberId filter start.queues.length := by
  have sound : start.Keyed ∧ start.Agree := earlier.invariant (I := fun bus => bus.Keyed ∧ bus.Agree)
    ⟨List.nodup_nil, agree_new⟩ fun _ _ _ kept step => ⟨step.1.keyed kept.1, step.agree kept.1 kept.2⟩
  have same : after = start.subscribe subscriberId filter capacity := (Option.some.inj subscribed.1).symm
  have length : start.queues.length < after.queues.length := by
    rw [same, subscribe, List.length_append, List.length_singleton]
    omega
  have kept := run.invariant (I := fun bus => bus.Keyed ∧ bus.Agree ∧ start.queues.length < bus.queues.length ∧
      bus.Live subscriberId filter start.queues.length)
    ⟨subscribed.1.keyed sound.1, subscribed.agree sound.1 sound.2, length, same ▸ live_subscribe⟩
    fun _ _ _ kept step =>
      ⟨step.1.keyed kept.1, step.agree kept.1 kept.2.1, lt_of_lt_of_le kept.2.2.1 step.1.length_queues,
        step.live kept.2.1 kept.2.2.1 kept.2.2.2⟩
  exact kept.2.2.2 isOpen

section Sample

private def everything : SubscriptionFilter := ⟨["*"], false⟩

private def ephemeral : StateDelta := { (default : StateDelta) with deltaId := "d", channel := "topic", durable := false }

private def subscribed : Bus := new.subscribe "s" everything 1

/-- A broadcast has looked at the table and has still to serve `s`. -/
private def looked : Bus := subscribed.broadcast ephemeral "" [("s", 0)]

private def receiverDropped : Bus := looked.onQueue 0 .close

private def subscribedAgain : Bus := receiverDropped.subscribe "s" everything 1

private def broadcastOver : Bus := (subscribedAgain.proceed 0).getD new

private theorem looked_acts : subscribed.Acts (.broadcast ephemeral "" [("s", 0)]) looked :=
  acts_broadcast_iff.2 ⟨by decide, rfl⟩

private theorem not_holds_new {name : String} : ¬ new.Holds name filter sender := by
  rintro ⟨_, absent, _⟩
  exact absurd absent nofun

private theorem dropped_not_open : ¬ receiverDropped.IsOpen 0 := by
  rintro ⟨queue, found, isOpen⟩
  obtain rfl := Option.some.inj found
  exact absurd isOpen nofun

private theorem dropped_holds {other : SubscriptionFilter} (held : receiverDropped.Holds "s" other sender) : sender = 0 := by
  obtain ⟨sub, found, _, rfl⟩ := held
  have only : Table.lookup (·.subscriberId) "s" receiverDropped.subscriptions = some ⟨"s", everything, 0, 0⟩ := by
    decide
  rw [Option.some.inj (found.symm.trans only)]

/-- A step in which an id is subscribed again only once its receiver was dropped. -/
private def LawfulStep (bus : Bus) (action : Action) (after : Bus) : Prop := bus.Acts action after ∧ bus.Replaces action

/-- A broadcast looks at the table, the receiver it found is dropped and its id subscribed again, and then the broadcast
removes the new subscription, whose receiver is open. -/
theorem new_subscription_removed :
    Run LawfulStep new
      [.subscribe "s" everything 1, .broadcast ephemeral "" [("s", 0)], .close 0] receiverDropped ∧
    LawfulStep receiverDropped (.subscribe "s" everything 1) subscribedAgain ∧
    Run LawfulStep subscribedAgain [.proceed 0] broadcastOver ∧
    broadcastOver.IsOpen receiverDropped.queues.length ∧
    ¬ broadcastOver.Holds "s" everything receiverDropped.queues.length := by
  refine ⟨?_, ⟨rfl, ?_⟩, .single ⟨rfl, nofun⟩, ⟨⟨1, [], [], true⟩, rfl, rfl⟩, ?_⟩
  · have first : LawfulStep new (.subscribe "s" everything 1) subscribed :=
      ⟨rfl, fun _ _ _ _ _ _ held => absurd held not_holds_new⟩
    have second : LawfulStep subscribed (.broadcast ephemeral "" [("s", 0)]) looked := ⟨looked_acts, nofun⟩
    have third : LawfulStep looked (.close 0) receiverDropped := ⟨rfl, nofun⟩
    exact .snoc (.snoc (.single first) second) third
  · intro name filter capacity same other sender held
    obtain ⟨rfl, rfl, rfl⟩ := Action.subscribe.inj same
    exact dropped_holds held ▸ dropped_not_open
  · rintro ⟨sub, found, _⟩
    have gone : Table.lookup (·.subscriberId) "s" broadcastOver.subscriptions = none := by decide
    exact absurd (found.symm.trans gone) nofun

/-- Another subscription, whose receiver is dropped before its id is subscribed again -/
private def accompanied : Bus := subscribed.subscribe "q" everything 1

private def companionDropped : Bus := accompanied.onQueue 1 .close

private def companionBack : Bus := companionDropped.subscribe "q" everything 1

private def companionLooked : Bus := companionBack.broadcast ephemeral "" [("s", 0), ("q", 2)]

private def companionServed : Bus := (companionLooked.proceed 0).getD new

private theorem companion_holds {other : SubscriptionFilter} (held : companionDropped.Holds "q" other sender) :
    sender = 1 := by
  obtain ⟨sub, found, _, rfl⟩ := held
  have only : Table.lookup (·.subscriberId) "q" companionDropped.subscriptions = some ⟨"q", everything, 1, 0⟩ := by
    decide
  rw [Option.some.inj (found.symm.trans only)]

private theorem companion_not_open : ¬ companionDropped.IsOpen 1 := by
  rintro ⟨queue, found, isOpen⟩
  obtain rfl := Option.some.inj found
  exact absurd isOpen nofun

/-- A subscriber that has got a message is still subscribed, after another one was dropped and has subscribed again. -/
theorem open_subscription_stays_served :
    Run CarefulStep subscribed [.subscribe "q" everything 1, .close 1, .subscribe "q" everything 1,
      .broadcast ephemeral "" [("s", 0), ("q", 2)], .proceed 0] companionServed ∧
    companionServed.Holds "s" everything 0 := by
  have first : CarefulStep new (.subscribe "s" everything 1) subscribed :=
    ⟨rfl, fun _ _ _ _ _ _ held => absurd held not_holds_new, fun _ _ _ _ _ absent => absurd absent List.not_mem_nil⟩
  have joined : CarefulStep subscribed (.subscribe "q" everything 1) accompanied := by
    refine ⟨rfl, ?_, fun _ _ _ _ _ absent => absurd absent List.not_mem_nil⟩
    intro name filter capacity same other sender held
    obtain ⟨rfl, rfl, rfl⟩ := Action.subscribe.inj same
    obtain ⟨sub, found, _⟩ := held
    have absent : Table.lookup (·.subscriberId) "q" subscribed.subscriptions = none := by decide
    exact absurd (found.symm.trans absent) nofun
  have dropped : CarefulStep accompanied (.close 1) companionDropped := ⟨rfl, nofun, nofun⟩
  have again : CarefulStep companionDropped (.subscribe "q" everything 1) companionBack := by
    refine ⟨rfl, ?_, fun _ _ _ _ _ absent => absurd absent List.not_mem_nil⟩
    intro name filter capacity same other sender held
    obtain ⟨rfl, rfl, rfl⟩ := Action.subscribe.inj same
    exact companion_holds held ▸ companion_not_open
  have sent : CarefulStep companionBack (.broadcast ephemeral "" [("s", 0), ("q", 2)]) companionLooked :=
    ⟨acts_broadcast_iff.2 ⟨by decide, rfl⟩, nofun, nofun⟩
  have served : CarefulStep companionLooked (.proceed 0) companionServed := ⟨rfl, nofun, nofun⟩
  have run := (((Run.single joined).snoc dropped).snoc again).snoc sent |>.snoc served
  exact ⟨run, open_subscription_stays .nil first run
    ⟨⟨1, [], [Flight.message ⟨ephemeral, "", [], false⟩], true⟩, rfl, rfl⟩⟩

end Sample

end Bus

end AttowNexus
