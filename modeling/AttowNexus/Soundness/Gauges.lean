import AttowNexus.Proofs.Bus
import AttowNexus.Library.Listing
import AttowNexus.Library.Run

/-! # Gauges and tables

The gauges of agents and channels are set wherever their tables change. That of the subscriptions is set when
someone subscribes, and not when a broadcast takes a subscription out whose receiver is gone: from then on it is
too high, until the next one subscribes.
-/

namespace AttowNexus.Bus

variable {bus after : Bus} {action : Action} {place : ℕ} {flight : Flight} {subscriberId : String} {sender : ℕ}
  {queue : Queue}

def Action.subscribes : Action → Bool
  | .subscribe _ _ _ => true
  | _ => false

/-- A turn takes the subscriber out of the table: the receiver is gone, and the table has a subscription under the
id. -/
def GivesUp (bus : Bus) (flight : Flight) (subscriberId : String) (queue : Queue) : Prop :=
  flight.waits = false ∧ queue.isOpen = false ∧ subscriberId ∈ bus.subscriptions.map (·.subscriberId)

instance : Decidable (bus.GivesUp flight subscriberId queue) := inferInstanceAs (Decidable (_ ∧ _ ∧ _))

/-- The subscriber that an action takes out of the table -/
def removes (bus : Bus) : Action → Option String
  | .proceed place => do
      let flight ← bus.flights[place]?
      let (subscriberId, sender) ← flight.targets.head?
      let queue ← bus.queues[sender]?
      if bus.GivesUp flight subscriberId queue then some subscriberId else none
  | _ => none

/-- A step with the removal that it makes -/
def StepsWith (bus : Bus) (step : Action × Option String) (after : Bus) : Prop :=
  bus.Acts step.1 after ∧ bus.removes step.1 = step.2

/-- Somebody subscribes after every removal. -/
def Refreshed (steps : List (Action × Option String)) : Prop :=
  ∀ before step after, steps = before ++ step :: after → step.2.isSome → ∃ later ∈ after, later.1.subscribes

/-- The gauges of agents and channels are those of their tables, and that of the subscriptions is not too low. -/
structure Gauged (bus : Bus) : Prop where
  agents : bus.metrics.agentsConnected = bus.presence.keys.card
  channels : bus.metrics.channelsTotal = bus.channels.keys.card
  subscriptions : bus.subscriptions.length ≤ bus.metrics.subscriptionsTotal

def BusMetrics.gauges (metrics : BusMetrics) : ℕ × ℕ × ℕ :=
  (metrics.agentsConnected, metrics.channelsTotal, metrics.subscriptionsTotal)

theorem gauges_countDelta (durable : Bool) (metrics : BusMetrics) :
    BusMetrics.gauges (countDelta durable metrics) = BusMetrics.gauges metrics := rfl

theorem gauges_advance : BusMetrics.gauges (bus.advance place flight).metrics = BusMetrics.gauges bus.metrics := by
  rw [advance]
  split_ifs
  · exact gauges_countDelta _ _
  · rfl

section Turns

variable (turn : Turn bus place flight subscriberId sender queue after)
include turn

/-- A turn sets no gauge. -/
theorem Turn.gauges : BusMetrics.gauges after.metrics = BusMetrics.gauges bus.metrics := by
  cases turn with
  | delivered => exact gauges_advance
  | blocked => rfl
  | dropped => exact gauges_advance
  | removed => exact gauges_advance
  | abandoned => exact gauges_advance

theorem Turn.presence : after.presence = bus.presence := by
  cases turn <;> rfl

theorem Turn.channels : after.channels = bus.channels := by
  cases turn <;> rfl

theorem Turn.length_subscriptions_of_givesUp (givesUp : bus.GivesUp flight subscriberId queue) :
    after.subscriptions.length < bus.subscriptions.length := by
  obtain ⟨fresh, closed, known⟩ := givesUp
  cases turn with
  | delivered isOpen => exact absurd (isOpen.symm.trans closed) nofun
  | blocked isOpen => exact absurd (isOpen.symm.trans closed) nofun
  | dropped isOpen => exact absurd (isOpen.symm.trans closed) nofun
  | removed =>
    obtain ⟨sub, member, same⟩ := List.mem_map.mp known
    exact List.length_filter_lt_length_iff_exists.mpr ⟨sub, member, by simp [same]⟩
  | abandoned _ waited => exact absurd (waited.symm.trans fresh) nofun

theorem Turn.length_subscriptions (keeps : ¬ bus.GivesUp flight subscriberId queue) :
    after.subscriptions.length = bus.subscriptions.length := by
  cases turn with
  | delivered => rfl
  | blocked => rfl
  | dropped => exact List.length_map _
  | removed closed fresh =>
    have unknown : subscriberId ∉ bus.subscriptions.map (·.subscriberId) := fun known => keeps ⟨fresh, closed, known⟩
    have all : bus.subscriptions.filter (·.subscriberId ≠ subscriberId) = bus.subscriptions := by
      refine List.filter_eq_self.mpr fun sub member => decide_eq_true fun same => unknown ?_
      exact same ▸ List.mem_map_of_mem member
    exact congrArg List.length all
  | abandoned => rfl

end Turns

section Steps

variable {step : Action × Option String} {steps : List (Action × Option String)}

/-- A turn removes the subscriber that it gives up. -/
theorem removes_proceed {rest : List (String × ℕ)} (found : bus.flights[place]? = some flight)
    (first : flight.targets = (subscriberId, sender) :: rest) (there : bus.queues[sender]? = some queue) :
    bus.removes (.proceed place) = if bus.GivesUp flight subscriberId queue then some subscriberId else none := by
  simp only [removes, found, first, there, List.head?_cons, Option.bind_eq_bind, Option.bind_some]

/-- What a step does to the table of subscriptions and its gauge -/
inductive Change (bus : Bus) (step : Action × Option String) (after : Bus) : Prop
  | set (subscribes : step.1.subscribes = true) (none : step.2 = none)
      (exact : after.metrics.subscriptionsTotal = after.subscriptions.length)
  | removed (quiet : step.1.subscribes = false) (some : step.2.isSome)
      (same : after.metrics.subscriptionsTotal = bus.metrics.subscriptionsTotal)
      (fewer : after.subscriptions.length < bus.subscriptions.length)
  | kept (quiet : step.1.subscribes = false) (none : step.2 = none)
      (same : after.metrics.subscriptionsTotal = bus.metrics.subscriptionsTotal)
      (length : after.subscriptions.length = bus.subscriptions.length)

theorem StepsWith.change (taken : bus.StepsWith step after) : bus.Change step after := by
  obtain ⟨action, removal⟩ := step
  obtain ⟨acts, made⟩ := taken
  obtain rfl : bus.removes action = removal := made
  cases action with
  | registerAgent now request =>
    obtain rfl := Option.some.inj acts
    exact .kept rfl rfl rfl rfl
  | heartbeat now agentId =>
    obtain rfl := Option.some.inj acts
    obtain ⟨presence, same⟩ := bus.heartbeat_eq now agentId
    exact same ▸ .kept rfl rfl rfl rfl
  | subscribe subscriberId filter capacity =>
    obtain rfl := Option.some.inj acts
    exact .set rfl rfl rfl
  | broadcast delta commitId order =>
    obtain ⟨_, rfl⟩ := acts_broadcast_iff.1 acts
    refine .kept rfl rfl ?_ rfl
    rw [broadcast]
    split_ifs <;> rfl
  | proceed place =>
    obtain ⟨flight, subscriberId, sender, rest, queue, found, first, there, turn⟩ := proceed_turn acts
    have gauge : after.metrics.subscriptionsTotal = bus.metrics.subscriptionsTotal :=
      congrArg (·.2.2) turn.gauges
    have removal := removes_proceed found first there
    by_cases givesUp : bus.GivesUp flight subscriberId queue
    · rw [if_pos givesUp] at removal
      exact .removed rfl (by rw [removal]; rfl) gauge (turn.length_subscriptions_of_givesUp givesUp)
    · rw [if_neg givesUp] at removal
      exact .kept rfl removal gauge (turn.length_subscriptions givesUp)
  | recv queue =>
    obtain rfl := Option.some.inj acts
    exact .kept rfl rfl rfl rfl
  | close queue =>
    obtain rfl := Option.some.inj acts
    exact .kept rfl rfl rfl rfl

/-- A heartbeat adds no agent. -/
theorem keys_heartbeat (bus : Bus) (now : Timestamp) (agentId : String) :
    (bus.heartbeat now agentId).presence.keys = bus.presence.keys := by
  rw [heartbeat]
  split
  · rfl
  · next agent found =>
    have known : agentId ∈ bus.presence.keys := by
      rw [Finmap.mem_keys, ← Finmap.lookup_isSome, found]
      rfl
    ext other
    rw [Finmap.mem_keys, Finmap.mem_insert, ← Finmap.mem_keys]
    refine ⟨?_, .inr⟩
    rintro (rfl | old)
    · exact known
    · exact old

theorem Acts.gauged (acts : bus.Acts action after) (gauged : bus.Gauged) : after.Gauged := by
  have subscriptions : after.subscriptions.length ≤ after.metrics.subscriptionsTotal := by
    have bound := gauged.subscriptions
    cases (show bus.StepsWith (action, bus.removes action) after from ⟨acts, rfl⟩).change with
    | set _ _ exact => omega
    | removed _ _ same fewer => omega
    | kept _ _ same length => omega
  cases action with
  | registerAgent now request =>
    obtain rfl := Option.some.inj acts
    exact ⟨rfl, gauged.channels, subscriptions⟩
  | heartbeat now agentId =>
    obtain rfl := Option.some.inj acts
    have agents := bus.keys_heartbeat now agentId
    obtain ⟨presence, same⟩ := bus.heartbeat_eq now agentId
    rw [same] at agents subscriptions ⊢
    exact ⟨gauged.agents.trans (congrArg Finset.card agents.symm), gauged.channels, subscriptions⟩
  | subscribe subscriberId filter capacity =>
    obtain rfl := Option.some.inj acts
    exact ⟨gauged.agents, gauged.channels, subscriptions⟩
  | broadcast delta commitId order =>
    obtain ⟨_, rfl⟩ := acts_broadcast_iff.1 acts
    refine ⟨?_, ?_, subscriptions⟩
    · rw [broadcast]
      split_ifs <;> exact gauged.agents
    · rw [broadcast]
      split_ifs <;> rfl
  | proceed place =>
    obtain ⟨_, _, _, _, _, _, _, _, turn⟩ := proceed_turn acts
    refine ⟨?_, ?_, subscriptions⟩
    · rw [turn.presence, ← gauged.agents]
      exact congrArg (·.1) turn.gauges
    · rw [turn.channels, ← gauged.channels]
      exact congrArg (·.2.1) turn.gauges
  | recv queue =>
    obtain rfl := Option.some.inj acts
    exact ⟨gauged.agents, gauged.channels, subscriptions⟩
  | close queue =>
    obtain rfl := Option.some.inj acts
    exact ⟨gauged.agents, gauged.channels, subscriptions⟩

theorem refreshed_snoc_iff (apart : step.1.subscribes = true → step.2 = none) :
    Refreshed (steps ++ [step]) ↔ step.1.subscribes = true ∨ Refreshed steps ∧ step.2 = none := by
  constructor
  · intro refreshed
    by_cases subscribes : step.1.subscribes = true
    · exact .inl subscribes
    · refine .inr ⟨?_, ?_⟩
      · rintro before removal after rfl removes
        obtain ⟨later, member, last⟩ := refreshed before removal (after ++ [step]) (List.append_assoc _ _ _) removes
        rcases List.mem_append.mp member with old | new
        · exact ⟨later, old, last⟩
        · exact absurd (List.mem_singleton.mp new ▸ last) subscribes
      · by_contra removes
        obtain ⟨_, member, _⟩ := refreshed steps step [] rfl (Option.isSome_iff_ne_none.mpr removes)
        exact absurd member List.not_mem_nil
  · intro either before removal after split removes
    have none : step.2 = none := either.elim apart And.right
    rcases List.eq_nil_or_concat after with rfl | ⟨after, last, rfl⟩
    · obtain ⟨_, same⟩ := List.append_inj' split rfl
      obtain rfl := List.singleton_inj.mp same
      rw [none] at removes
      exact absurd removes nofun
    · have split' : steps ++ [step] = (before ++ removal :: after) ++ [last] := by
        rw [split, List.concat_eq_append, List.append_assoc, List.cons_append]
      obtain ⟨old, same⟩ := List.append_inj' split' rfl
      obtain rfl := List.singleton_inj.mp same
      rw [List.concat_eq_append]
      rcases either with subscribes | ⟨refreshed, _⟩
      · exact ⟨step, List.mem_append_right _ (List.mem_singleton_self _), subscribes⟩
      · obtain ⟨later, member, last⟩ := refreshed before removal after old removes
        exact ⟨later, List.mem_append_left _ member, last⟩

/-- Every run can be told with its removals. -/
theorem exists_stepsWith {actions : List Action} {start : Bus} (run : Run Acts start actions bus) :
    ∃ steps, steps.map (·.1) = actions ∧ Run StepsWith start steps bus := by
  induction run with
  | nil => exact ⟨[], rfl, .nil⟩
  | @snoc actions s t action _ acts ih =>
    obtain ⟨steps, same, steps_run⟩ := ih
    refine ⟨steps ++ [(action, s.removes action)], ?_, .snoc steps_run ⟨acts, rfl⟩⟩
    rw [List.map_append, same, List.map_singleton]

theorem run_acts {start : Bus} (run : Run StepsWith start steps bus) : Run Acts start (steps.map (·.1)) bus := by
  induction run with
  | nil => exact .nil
  | snoc _ taken ih =>
    rw [List.map_append]
    exact .snoc ih taken.1

theorem gauged_of_run (run : Run StepsWith new steps bus) :
    bus.Gauged ∧ (bus.metrics.subscriptionsTotal = bus.subscriptions.length ↔ Refreshed steps) := by
  induction run with
  | nil =>
    refine ⟨⟨rfl, rfl, le_refl _⟩, iff_of_true rfl fun before step after split => ?_⟩
    exact absurd split.symm (List.append_ne_nil_of_right_ne_nil _ (List.cons_ne_nil _ _))
  | @snoc steps s t step _ taken ih =>
    obtain ⟨gauged, agree⟩ := ih
    have bound := gauged.subscriptions
    refine ⟨taken.1.gauged gauged, ?_⟩
    cases taken.change with
    | set subscribes none exact =>
      rw [refreshed_snoc_iff fun _ => none]
      exact iff_of_true exact (.inl subscribes)
    | removed quiet some same fewer =>
      rw [refreshed_snoc_iff fun subscribes => absurd (subscribes.symm.trans quiet) nofun]
      refine iff_of_false (by omega) ?_
      rintro (subscribes | ⟨_, none⟩)
      · exact absurd (subscribes.symm.trans quiet) nofun
      · rw [none] at some
        exact absurd some nofun
    | kept quiet none same length =>
      rw [refreshed_snoc_iff fun _ => none, same, length, agree]
      simp [quiet, none]

/-- After any run the gauges of agents and channels are the sizes of their tables, and that of the subscriptions is
exactly when somebody subscribed after every removal. -/
theorem gauges_iff (run : Run StepsWith new steps bus) :
    bus.metrics.agentsConnected = bus.presence.keys.card ∧ bus.metrics.channelsTotal = bus.channels.keys.card ∧
      (bus.metrics.subscriptionsTotal = bus.subscriptions.length ↔ Refreshed steps) := by
  obtain ⟨gauged, agree⟩ := gauged_of_run run
  exact ⟨gauged.agents, gauged.channels, agree⟩

end Steps

section Sample

private def anything : SubscriptionFilter := ⟨["*"], true⟩

private def ping : StateDelta := { (default : StateDelta) with channel := "topic", durable := true }

/-- A subscriber whose receiver is gone, and a broadcast that finds out -/
private def hangUp : List (Action × Option String) :=
  [(.subscribe "s" anything 1, none), (.close 0, none), (.broadcast ping "" [("s", 0)], none), (.proceed 0, some "s")]

private theorem hangUp_run : ∃ bus, Run StepsWith new hangUp bus ∧ bus.metrics.subscriptionsTotal = 1 ∧
    bus.subscriptions.length = 0 ∧ ∀ flight ∈ bus.flights, flight.targets = [] := by
  refine ⟨_, .cons ⟨rfl, rfl⟩ (.cons ⟨rfl, rfl⟩ (.cons ⟨acts_broadcast_iff.2 ⟨by decide, rfl⟩, rfl⟩
    (.single ⟨rfl, by decide⟩))), rfl, rfl, by decide⟩

/-- The next subscriber sets the gauge right. -/
theorem gauges_iff_refreshed : ∃ bus, Run StepsWith new (hangUp ++ [(.subscribe "t" anything 1, none)]) bus ∧
    bus.metrics.subscriptionsTotal = bus.subscriptions.length := by
  obtain ⟨bus, run, _⟩ := hangUp_run
  have again : Run StepsWith new (hangUp ++ [(.subscribe "t" anything 1, none)]) _ := .snoc run ⟨rfl, rfl⟩
  refine ⟨_, again, (gauges_iff again).2.2.2 ?_⟩
  exact (refreshed_snoc_iff fun _ => rfl).2 (.inl rfl)

/-- The broadcast is over, the table is empty, and the gauge is one. -/
theorem gauge_behind : ¬ ∀ (actions : List Action) (bus : Bus), Run Acts new actions bus →
    (∀ flight ∈ bus.flights, flight.targets = []) → bus.metrics.subscriptionsTotal = bus.subscriptions.length := by
  intro claim
  obtain ⟨bus, run, gauge, table, finished⟩ := hangUp_run
  have same := claim _ bus (run_acts run) finished
  omega

end Sample

end AttowNexus.Bus
