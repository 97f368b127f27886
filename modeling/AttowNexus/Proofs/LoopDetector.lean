import AttowNexus.Library.Window
import AttowNexus.Proofs.Fingerprint
import AttowNexus.Proofs.History

/-! # The loop detector in a run of the daemon

Abstractly the detector remembers every commit that it inspected; its windows are the ends of that list, key by
key. A call hands at most one commit to the detector, after it went into the tables, so in every reachable
state the windows are the ends of some such list.
-/

namespace AttowNexus

open Fallible AppState

namespace LoopDetector

variable {deps : External} {ambient : Ambient} {detector : LoopDetector} {commit : Commit} {key : String}

def windowAt (detector : LoopDetector) (key : String) : List FingerprintEntry := (detector.windows.lookup key).getD []

/-- What a window keeps of a commit. -/
def entry (deps : External) (commit : Commit) : FingerprintEntry := ⟨fingerprint deps commit, commit.commitId⟩

theorem windowAt_inspect_self :
    (detector.inspect deps ambient commit).2.windowAt (windowKey commit) =
      Window.push detector.windowSize (detector.windowAt (windowKey commit)) (entry deps commit) := by
  rw [windowAt, inspect, Finmap.lookup_insert, Option.getD_some]
  rfl

theorem windowAt_inspect_of_ne (apart : key ≠ windowKey commit) :
    (detector.inspect deps ambient commit).2.windowAt key = detector.windowAt key := by
  rw [windowAt, inspect, Finmap.lookup_insert_of_ne _ apart, windowAt]

/-- The warning comes with the third equal fingerprint. -/
theorem warning_isSome_iff :
    (detector.warning deps ambient commit).isSome = true ↔
      2 ≤ (detector.windowAt (windowKey commit)).countP (·.fingerprint = fingerprint deps commit) := by
  have counted : repetitionCount (detector.window commit) (fingerprint deps commit) =
      (detector.windowAt (windowKey commit)).countP (·.fingerprint = fingerprint deps commit) + 1 := by
    rw [repetitionCount, List.countP_eq_length_filter]
    rfl
  rw [warning, counted]
  split_ifs with few
  · simp only [Option.isSome_none, Bool.false_eq_true, false_iff]
    omega
  · simp only [Option.isSome_some, true_iff]
    omega

/-- The part of a log that goes to the window with the key. -/
def logAt (log : List Commit) (key : String) : List Commit := log.filter (windowKey · = key)

/-- The windows hold the ends of the log, key by key. -/
structure Remembers (deps : External) (detector : LoopDetector) (log : List Commit) : Prop where
  positive : 0 < detector.windowSize
  windows : ∀ key, detector.windowAt key = ((logAt log key).map (entry deps)).rtake detector.windowSize

theorem remembers_new (deps : External) : LoopDetector.new.Remembers deps [] := ⟨by decide, fun _ => rfl⟩

/-- Inspecting a commit adds it to the log. -/
theorem Remembers.inspect {log : List Commit} (remembers : detector.Remembers deps log) :
    (detector.inspect deps ambient commit).2.Remembers deps (log ++ [commit]) where
  positive := remembers.positive
  windows key := by
    rw [logAt, List.filter_append]
    by_cases same : windowKey commit = key
    · subst same
      rw [windowAt_inspect_self, remembers.windows, Window.push_rtake remembers.positive,
        List.filter_cons_of_pos (by simp), List.filter_nil, List.map_append]
      rfl
    · rw [windowAt_inspect_of_ne (Ne.symm same), remembers.windows,
        List.filter_cons_of_neg (by simpa using same), List.filter_nil, List.append_nil]
      rfl

end LoopDetector

open LoopDetector

variable {deps : External} {config : Config} {ambient : Ambient} {s t : AppState}

/-- The detector and the bus stay as they are. -/
def SameWatch (s t : AppState) : Prop := t.detector = s.detector ∧ t.bus = s.bus

namespace SameWatch

theorem refl (s : AppState) : SameWatch s s := ⟨rfl, rfl⟩

theorem trans (s t u : AppState) (first : SameWatch s t) (second : SameWatch t u) : SameWatch s u :=
  ⟨second.1.trans first.1, second.2.trans first.2⟩

theorem of_run {α : Type} {x : Fallible AppState Error α} (keeps : Keeps SameWatch x) {r : Except Error α}
    (run : x s = (r, t)) : SameWatch s t := by
  have kept := keeps s
  rwa [run] at kept

end SameWatch

/-- The store knows neither the detector nor the bus. -/
theorem onStore_keepsWatch {α : Type} (x : Fallible SqliteStore Error α) : Keeps SameWatch (onStore x) :=
  fun _ => ⟨rfl, rfl⟩

theorem ensureChannelPermission_keepsWatch (agentId scope : String) :
    Keeps SameWatch (ensureChannelPermission config agentId scope) :=
  .ite (.pure .refl _) (.bind .trans (.get .refl) fun _ => .ensure .refl _ _)

theorem preparePayload_keepsWatch (payload : Option Payload) :
    Keeps SameWatch (preparePayload deps config ambient payload) :=
  .ite (.bind .trans (onStore_keepsWatch _) fun _ => .pure .refl _) (.pure .refl _)

theorem resolveParents_keepsWatch (delta : StateDelta) (explicitParents : List String) :
    Keeps SameWatch (resolveParents ambient delta explicitParents) :=
  .ite (.pure .refl _) (.bind .trans (onStore_keepsWatch _) fun _ => .pure .refl _)

theorem planPublish_keepsWatch (request : PublishDeltaRequest) :
    Keeps SameWatch (planPublish deps config ambient request) := by
  refine .bind .trans (.lift .refl _) fun _ => .bind .trans (ensureChannelPermission_keepsWatch _ _) fun _ =>
    .bind .trans (preparePayload_keepsWatch _) fun _ => .ite (.pure .refl _) ?_
  exact .bind .trans (resolveParents_keepsWatch _ _) fun _ => .pure .refl _

theorem planCheckpoint_keepsWatch (request : CheckpointRequest) :
    Keeps SameWatch (planCheckpoint deps config ambient request) :=
  .bind .trans (ensureChannelPermission_keepsWatch _ _) fun _ => .bind .trans (preparePayload_keepsWatch _) fun _ =>
    .bind .trans (resolveParents_keepsWatch _ _) fun _ => .pure .refl _

theorem persistCommit_keepsWatch (commit : Commit) : Keeps SameWatch (persistCommit ambient commit) := by
  refine .bind .trans ?_ fun _ => .bind .trans (onStore_keepsWatch _) fun _ => onStore_keepsWatch _
  exact .bind .trans (.get .refl) fun _ => .bind .trans (.lift .refl _) fun _ => .modify fun _ => ⟨rfl, rfl⟩

/-- The last call of the bus announced a warning that is in the table. -/
def AppState.Warns (deps : External) (ambient : Ambient) (state : AppState) : Prop :=
  ∃ warning, state.bus.getLast? = some (.broadcast (loopWarningDelta deps ambient warning) "") ∧
    ∃ row ∈ state.store.loopWarnings, row.proto = warning

theorem inspectLoop_eq (enabled : config.loopDetectionEnabled = true) (commit : Commit) (s : AppState) :
    inspectLoop deps config ambient commit s =
      reportLoop deps ambient (s.detector.warning deps ambient commit)
        { s with detector := (s.detector.inspect deps ambient commit).2 } := by
  rw [inspectLoop, if_neg (by rw [enabled]; decide)]
  rfl

theorem reportLoop_detector {found : Option LoopWarning} {r : Except Error Unit}
    (run : reportLoop deps ambient found s = (r, t)) : t.detector = s.detector := by
  cases found with
  | none => exact congrArg AppState.detector (pure_eq_iff.1 run).2
  | some warning =>
    have keeps : Keeps (fun s t : AppState => t.detector = s.detector) (reportLoop deps ambient (some warning)) :=
      .bind (fun _ _ _ first second => second.trans first) (fun _ => rfl) fun _ => .modify fun _ => rfl
    have kept := keeps s
    rwa [run] at kept

/-- A report that goes through leaves the warning in the table and on the bus. -/
theorem reportLoop_some {warning : LoopWarning} (run : reportLoop deps ambient (some warning) s = (.ok (), t)) :
    t.Warns deps ambient := by
  simp only [reportLoop, bind_eq_ok_iff, onStore_eq_iff, SqliteStore.appendLoopWarning, SqliteStore.attempt_eq_ok_iff,
    modify_eq_iff, broadcast] at run
  obtain ⟨_, _, ⟨_, ⟨_, _, ⟨_, rfl⟩, _, rfl⟩, rfl⟩, _, rfl⟩ := run
  exact ⟨warning, List.getLast?_concat, _, Table.mem_insertOrReplace_self, rfl⟩

/-- Once the commit is persisted, recording announces it and inspects it. -/
theorem record_of_persisted {plan : Plan} {middle : AppState}
    (persisted : persistCommit ambient plan.commit s = (.ok (), middle)) :
    record deps config ambient plan s = inspectLoop deps config ambient plan.commit
      { middle with bus := middle.bus ++ [.broadcast plan.delta plan.commit.commitId] } := by
  rw [record, bind_of_ok persisted]
  rfl

/-- Recording leaves the detector alone or lets it inspect the commit, once that is in the tables. -/
theorem record_detector_cases {plan : Plan} {r : Except Error Unit}
    (run : record deps config ambient plan s = (r, t)) :
    t.detector = s.detector ∨
    (t.detector = (s.detector.inspect deps ambient plan.commit).2 ∧
      t.store.tables = s.store.tables.appendCommit plan.commit) := by
  obtain ⟨kept, middle, persisted⟩ : ∃ kept middle, persistCommit ambient plan.commit s = (kept, middle) :=
    ⟨_, _, rfl⟩
  have watch := SameWatch.of_run (persistCommit_keepsWatch plan.commit) persisted
  cases kept with
  | error error =>
    rw [record, bind_of_error persisted] at run
    exact .inl ((Prod.mk.inj run).2 ▸ watch.1)
  | ok =>
    have ledger := (persistCommit_recorded persisted).2 rfl
    rw [record_of_persisted persisted] at run
    by_cases enabled : config.loopDetectionEnabled = true
    · have same := SameLedger.of_run (inspectLoop_keeps plan.commit) run
      rw [inspectLoop_eq enabled] at run
      refine .inr ⟨(reportLoop_detector run).trans (by rw [watch.1]), ?_⟩
      exact congrArg Ledger.tables (same.trans ledger)
    · rw [inspectLoop, if_pos (by simpa using enabled)] at run
      exact .inl ((pure_eq_iff.1 run).2 ▸ watch.1)

/-- Recording that goes through inspects the commit, and a warning of the detector is announced. -/
theorem record_inspects (enabled : config.loopDetectionEnabled = true) {plan : Plan}
    (named : plan.commit.commitId ≠ "") (run : record deps config ambient plan s = (.ok (), t)) :
    t.detector = (s.detector.inspect deps ambient plan.commit).2 ∧
      (t.Warns deps ambient ↔ (s.detector.warning deps ambient plan.commit).isSome = true) := by
  obtain ⟨_, middle, persisted, _⟩ := bind_eq_ok_iff.1 run
  have watch := SameWatch.of_run (persistCommit_keepsWatch plan.commit) persisted
  rw [record_of_persisted persisted, inspectLoop_eq enabled] at run
  have inspected := reportLoop_detector run
  simp only [watch.1] at run inspected
  refine ⟨inspected, ?_⟩
  cases found : s.detector.warning deps ambient plan.commit with
  | none =>
    rw [found] at run
    obtain ⟨_, rfl⟩ := pure_eq_iff.1 run
    simp only [Option.isSome_none, Bool.false_eq_true, iff_false]
    rintro ⟨warning, last, _⟩
    rw [List.getLast?_concat] at last
    exact named (BusCall.broadcast.inj (Option.some.inj last)).2
  | some warning =>
    rw [found] at run
    exact iff_of_true (reportLoop_some run) rfl

/-- A successful checkpoint has its commit inspected. -/
theorem checkpointInner_inspects (enabled : config.loopDetectionEnabled = true) {request : CheckpointRequest}
    {response : CheckpointResponse} (run : checkpointInner deps config ambient request s = (.ok response, t)) :
    t.detector = (s.detector.inspect deps ambient (checkpointCommit deps config ambient s.store.heads request)).2 ∧
      (t.Warns deps ambient ↔
        (s.detector.warning deps ambient (checkpointCommit deps config ambient s.store.heads request)).isSome = true) := by
  obtain ⟨plan, middle, planned, rest⟩ := bind_eq_ok_iff.1 run
  obtain ⟨_, made⟩ := planCheckpoint_eq_ok_iff.1 ⟨middle, planned⟩
  have commit : plan.commit = checkpointCommit deps config ambient s.store.heads request := by rw [made, checkpointPlan]
  have watch := SameWatch.of_run (planCheckpoint_keepsWatch request) planned
  obtain ⟨_, _, recorded, answered⟩ := bind_eq_ok_iff.1 rest
  obtain rfl := (pure_eq_iff.1 answered).2
  have named : plan.commit.commitId ≠ "" := by
    intro empty
    have length : (checkpointCommit deps config ambient s.store.heads request).commitId.length = 34 :=
      length_checkpointCommit_commitId
    rw [← commit, empty] at length
    exact absurd length (by decide)
  rw [← commit, ← watch.1]
  exact record_inspects enabled named recorded

section Steps

/-- The call would make a commit for the window with the key. -/
def Call.CommitsTo (config : Config) (call : Call) (key : String) : Prop :=
  match call.request with
  | .publishDelta request => ∃ delta, request.delta = some delta ∧ Persists config delta ∧
      delta.runId ++ "|" ++ delta.agentId ++ "|" ++ delta.channel = key
  | .checkpoint request => request.runId ++ "|" ++ request.agentId ++ "|" ++ request.channel = key
  | .registerAgent _ => False
  | .rollback _ => False
  | .fork _ => False

/-- A planned commit is inspected only once it is in the tables. -/
theorem recorded_detector_cases {plan : Plan} {middle : AppState} {α : Type} {response : α} {r : Except Error α}
    (watch : SameWatch s middle) (ledger : middle.ledger = s.ledger)
    (run : (do
      record deps config ambient plan
      pure response) middle = (r, t)) :
    t.detector = s.detector ∨
    (t.detector = (s.detector.inspect deps ambient plan.commit).2 ∧
      t.store.tables = s.store.tables.appendCommit plan.commit) := by
  obtain ⟨_, recorded, _⟩ := Fallible.map_eq_iff.1 run
  have tables : middle.store.tables = s.store.tables := congrArg Ledger.tables ledger
  rw [← watch.1, ← tables]
  exact record_detector_cases recorded

theorem windowKey_checkpointCommit {heads : List HeadRow} {request : CheckpointRequest} :
    windowKey (checkpointCommit deps config ambient heads request) =
      request.runId ++ "|" ++ request.agentId ++ "|" ++ request.channel := rfl

theorem planPublish_durable {request : PublishDeltaRequest} {delta : StateDelta} {plan : Plan}
    (planned : PublishPlan.durable plan = publishPlan deps config ambient s.store.heads request delta) :
    Persists config delta ∧
      windowKey plan.commit = delta.runId ++ "|" ++ delta.agentId ++ "|" ++ delta.channel := by
  rw [publishPlan] at planned
  split_ifs at planned with ephemeral
  refine ⟨not_not.mp fun away => ephemeral (not_persists_iff.2 away), ?_⟩
  rw [PublishPlan.durable.inj planned]
  rfl

/-- A call leaves the detector alone or has it inspect the commit that the call put into the tables. -/
theorem Step.detector_cases {event : Event} (step : Step deps config s event t) :
    t.detector = s.detector ∨
    ∃ commit, event.call.CommitsTo config (windowKey commit) ∧
      t.detector = (s.detector.inspect deps event.call.ambient commit).2 ∧
      t.store.tables = s.store.tables.appendCommit commit := by
  obtain ⟨⟨request, ambient⟩, outcome⟩ := event
  cases request with
  | registerAgent request =>
    obtain ⟨_, run, _⟩ := Fallible.map_eq_iff.1 step
    exact .inl ((Prod.mk.inj run).2 ▸ rfl)
  | publishDelta request =>
    obtain ⟨r, run, _⟩ := step_publishDelta step
    obtain ⟨planned, middle, plan⟩ : ∃ planned middle,
      planPublish deps config ambient request s = (planned, middle) := ⟨_, _, rfl⟩
    have watch := SameWatch.of_run (planPublish_keepsWatch request) plan
    have ledger := SameLedger.of_run (planPublish_keeps request) plan
    rcases planned with error | broadcastOnly | durable
    · rw [publishDeltaInner, bind_of_error plan] at run
      exact .inl ((Prod.mk.inj run).2 ▸ watch.1)
    · rw [publishDeltaInner, bind_of_ok plan] at run
      exact .inl ((Prod.mk.inj run).2 ▸ watch.1)
    · rw [publishDeltaInner, bind_of_ok plan] at run
      obtain ⟨delta, admits, made⟩ := planPublish_eq_ok_iff.1 ⟨middle, plan⟩
      obtain ⟨persists, key⟩ := planPublish_durable made
      rcases recorded_detector_cases watch ledger run with same | inspected
      · exact .inl same
      · exact .inr ⟨_, ⟨delta, admits.given, persists, key.symm⟩, inspected⟩
  | checkpoint request =>
    obtain ⟨r, run, _⟩ := step_checkpoint step
    obtain ⟨planned, middle, plan⟩ : ∃ planned middle,
      planCheckpoint deps config ambient request s = (planned, middle) := ⟨_, _, rfl⟩
    have watch := SameWatch.of_run (planCheckpoint_keepsWatch request) plan
    have ledger := SameLedger.of_run (planCheckpoint_keeps request) plan
    rcases planned with error | made
    · rw [checkpointInner, bind_of_error plan] at run
      exact .inl ((Prod.mk.inj run).2 ▸ watch.1)
    · rw [checkpointInner, bind_of_ok plan] at run
      obtain ⟨_, planned⟩ := planCheckpoint_eq_ok_iff.1 ⟨middle, plan⟩
      have commit : made.commit = checkpointCommit deps config ambient s.store.heads request := by
        rw [planned, checkpointPlan]
      have commits : Call.CommitsTo config ⟨.checkpoint request, ambient⟩ (windowKey made.commit) := by
        rw [commit, windowKey_checkpointCommit]
        exact rfl
      rcases recorded_detector_cases watch ledger run with same | inspected
      · exact .inl same
      · exact .inr ⟨made.commit, commits, inspected⟩
  | rollback request =>
    obtain ⟨_, run, _⟩ := step_rollback step
    have keeps : Keeps SameWatch (rollbackInner deps ambient request) :=
      .bind .trans (.get .refl) fun _ => onStore_keepsWatch _
    exact .inl (SameWatch.of_run keeps run).1
  | fork request =>
    obtain ⟨_, run, _⟩ := step_fork step
    exact .inl (SameWatch.of_run (onStore_keepsWatch _) run).1

/-- A call that makes no commit for a window leaves the window alone. -/
theorem Step.windowAt_eq {event : Event} (step : Step deps config s event t) {key : String}
    (apart : event.call.CommitsTo config key → t.store.tables = s.store.tables) :
    t.detector.windowAt key = s.detector.windowAt key := by
  rcases step.detector_cases with same | ⟨commit, commits, inspected, stored⟩
  · rw [same]
  · rw [inspected]
    apply windowAt_inspect_of_ne
    rintro rfl
    -- a commit in the tables is counted there, so they are not the same
    have counted := CommitTables.runCount_appendCommit s.store.tables commit commit.runId
    rw [← stored, apart commits, if_pos rfl] at counted
    omega

/-- In every reachable state the windows are the ends of a log, twelve commits long at most. -/
theorem Reachable.remembers (reachable : Reachable deps config s) :
    s.detector.windowSize = 12 ∧ ∃ log, s.detector.Remembers deps log := by
  obtain ⟨events, history⟩ := reachable
  refine history.invariant
    (I := fun state => state.detector.windowSize = 12 ∧ ∃ log, state.detector.Remembers deps log)
    ⟨rfl, [], remembers_new deps⟩ ?_
  rintro s event t ⟨size, log, remembers⟩ step
  rcases step.detector_cases with same | ⟨commit, _, inspected, _⟩
  · exact same ▸ ⟨size, log, remembers⟩
  · exact inspected ▸ ⟨size, log ++ [commit], remembers.inspect⟩

end Steps

end AttowNexus
