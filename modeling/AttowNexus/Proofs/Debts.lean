import AttowNexus.Proofs.Interleaved
import Mathlib.Algebra.GroupWithZero.Nat
import Mathlib.Data.Multiset.AddSub
import Mathlib.Data.Multiset.Count

/-! # What a call still owes

Between two actions of a call the counters and the tables may be out of step: a broadcast is made and not yet counted, a
commit is indexed and not yet stored. Each call holds such debts until it pays them. The balance of the daemon together
with all debts is kept by every action, and a call that ends holds no debt, unless a store call of its own failed.
-/

namespace AttowNexus

open Fallible

/-- What a call has begun and not finished -/
inductive Debt where
  /-- An indexed commit that is not stored -/
  | unstored (commitId : String)
  /-- A stored commit that is not in `commits_total` -/
  | uncommitted
  /-- A commit in `commits_total` that is not announced -/
  | unannounced
  /-- A warning in `loop_warnings_total` that is not announced -/
  | unwarned
  /-- A broadcast that is not in `deltas_total` -/
  | uncounted
  /-- A broadcast that is in neither of the totals by durability -/
  | unsorted (durable : Bool)
  /-- A delta that was announced without a commit, which nothing pays -/
  | ephemeral
deriving DecidableEq

/-- A failed store call leaves these behind. -/
def Debt.Loss : Debt → Prop
  | .unstored _ => True
  | .uncommitted => True
  | _ => False

/-- No store call of the request fails. -/
def Ambient.Calm (ambient : Ambient) : Prop := ∀ call, ambient.fails call = false

/-- A broadcast with the given property -/
def BusCall.announces (p : StateDelta → String → Bool) : BusCall → Bool
  | .broadcast delta commitId => p delta commitId
  | .registerAgent _ => false
  | .heartbeat _ => false

namespace Daemon

/-- How many broadcasts with the property there have been -/
def spoken (daemon : Daemon) (p : StateDelta → String → Bool) : ℕ := daemon.app.bus.countP (BusCall.announces p)

/-- The sum of all `commit_count` -/
def runCounts (daemon : Daemon) : ℕ := (daemon.app.store.tables.runs.map (·.commitCount)).sum

/-- The counters and the tables, up to what is owed -/
structure Balanced (daemon : Daemon) (owed : Multiset Debt) : Prop where
  counted : daemon.app.store.tables.Counted
  stored : ∀ commitId ∈ daemon.app.dag.parents,
    (∃ commit, daemon.app.store.tables.getCommit commitId = some commit) ∨ .unstored commitId ∈ owed
  rows : daemon.runCounts = daemon.metrics.commitsTotal + owed.count .uncommitted
  commits : daemon.metrics.commitsTotal = daemon.spoken (fun _ commitId => commitId ≠ "") + owed.count .unannounced
  warnings : daemon.metrics.loopWarningsTotal + owed.count .ephemeral =
    daemon.spoken (fun _ commitId => commitId = "") + owed.count .unwarned
  deltas : daemon.metrics.deltasTotal + owed.count .uncounted = daemon.spoken fun _ _ => true
  durables : daemon.metrics.durableDeltasTotal + owed.count (.unsorted true) =
    daemon.spoken fun delta _ => delta.durable
  ephemerals : daemon.metrics.ephemeralDeltasTotal + owed.count (.unsorted false) =
    daemon.spoken fun delta _ => !delta.durable

theorem balanced_initial : initial.Balanced 0 where
  counted := CommitTables.counted_empty
  stored _ known := absurd known Finmap.notMem_empty
  rows := rfl
  commits := rfl
  warnings := rfl
  deltas := rfl
  durables := rfl
  ephemerals := rfl

/-- The debts that a call may end with -/
structure Lost (ambient : Ambient) (kept : Multiset Debt) : Prop where
  kinds : ∀ debt ∈ kept, debt.Loss
  calm : ambient.Calm → kept = 0

theorem lost_zero {ambient : Ambient} : Lost ambient 0 :=
  ⟨fun _ absent => absurd absent (Multiset.notMem_zero _), fun _ => rfl⟩

/-- A part of a call that fails ends with losses, and one that succeeds with what is given. -/
def Settles {α : Type} (ambient : Ambient) (after : α → Multiset Debt) : Except Error α → Multiset Debt → Prop
  | .ok a, kept => kept = after a
  | .error _, kept => Lost ambient kept

section Rules

variable {ambient : Ambient} {α β : Type} {held : Multiset Debt} {after : α → Multiset Debt} {later : β → Multiset Debt}
  {s t : Daemon}

/-- A part of a call keeps the balance, with the debts that it starts and ends with. -/
abbrev Paying (ambient : Ambient) (after : α → Multiset Debt) (x : Activity α) (held : Multiset Debt) : Prop :=
  x.Safe Balanced (Settles ambient after) held

theorem Paying.bind {x : Activity α} {f : α → Activity β} (first : Paying ambient after x held)
    (rest : ∀ a, Paying ambient later (f a) (after a)) : Paying ambient later (x >>= f) held :=
  Strand.Safe.bind first (fun _ _ lost => lost) fun a kept same => by
    obtain rfl : kept = after a := same
    exact rest a

theorem paying_pure {a : α} (settled : held = after a) : Paying ambient after (pure a) held := Strand.Safe.pure settled

theorem paying_settle {outcome : Except Error α} : Paying ambient (fun _ => 0) (.settle outcome) 0 := by
  cases outcome with
  | error e => exact Strand.Safe.settle lost_zero
  | ok a => exact Strand.Safe.settle rfl

theorem paying_bailIf {p : Prop} [Decidable p] {message : String} :
    Paying ambient (fun _ => 0) (bailIf p message) 0 := paying_settle

theorem paying_required {value : Option α} {message : String} :
    Paying ambient (fun _ => 0) (required value message) 0 := paying_settle

/-- Neither the tables nor what is known nor the counters nor the broadcasts change. -/
structure Even (s t : Daemon) : Prop where
  tables : t.app.store.tables = s.app.store.tables
  parents : t.app.dag.parents = s.app.dag.parents
  spoken : ∀ p, t.spoken p = s.spoken p
  metrics : t.metrics = s.metrics

theorem Even.balanced (even : Even s t) (balanced : s.Balanced held) : t.Balanced held where
  counted := even.tables ▸ balanced.counted
  stored := by
    rw [even.tables, even.parents]
    exact balanced.stored
  rows := by
    rw [runCounts, even.tables, even.metrics]
    exact balanced.rows
  commits := by
    rw [even.spoken, even.metrics]
    exact balanced.commits
  warnings := by
    rw [even.spoken, even.metrics]
    exact balanced.warnings
  deltas := by
    rw [even.spoken, even.metrics]
    exact balanced.deltas
  durables := by
    rw [even.spoken, even.metrics]
    exact balanced.durables
  ephemerals := by
    rw [even.spoken, even.metrics]
    exact balanced.ephemerals

/-- An action that changes nothing of the balance; where it may fail, what is held has to be a loss. -/
theorem paying_even {x : Fallible Daemon Error α} (even : ∀ t, Even t (x t).2)
    (fails : ∀ t e, (x t).1 = .error e → Lost ambient held) : Paying ambient (fun _ => held) (.atomic x) held := by
  refine Strand.Safe.atomic fun t others balanced => ⟨held, (even t).balanced balanced, ?_⟩
  cases outcome : (x t).1 with
  | error e => exact fails t e outcome
  | ok a => exact rfl

/-- On the shared parts: neither the tables nor the parents nor the number of broadcasts change. -/
structure Aside (s t : AppState) : Prop where
  tables : t.store.tables = s.store.tables
  parents : t.dag.parents = s.dag.parents
  spoken : ∀ p, t.bus.countP (BusCall.announces p) = s.bus.countP (BusCall.announces p)

theorem Aside.refl (s : AppState) : Aside s s := ⟨rfl, rfl, fun _ => rfl⟩

theorem paying_onApp {x : Fallible AppState Error α} (aside : Keeps Aside x) :
    Paying ambient (fun _ => 0) (onApp x) 0 :=
  paying_even (fun t => ⟨(aside t.app).tables, (aside t.app).parents, (aside t.app).spoken, rfl⟩) fun _ _ _ => lost_zero

theorem aside_onStore {x : Fallible SqliteStore Error α} (keeps : Keeps SameTables x) :
    Keeps Aside (AppState.onStore x) := fun app => ⟨(keeps app.store).1, rfl, fun _ => rfl⟩

theorem paying_onStore {x : Fallible SqliteStore Error α} (keeps : Keeps SameTables x) :
    Paying ambient (fun _ => 0) (onStore x) 0 := paying_onApp (aside_onStore keeps)

end Rules

section Exchange

variable {s t : Daemon} {held kept others : Multiset Debt}

/-- What changes in the counters and the broadcasts is what is paid and incurred. -/
structure Exchanges (s t : Daemon) (held kept : Multiset Debt) : Prop where
  unstored : ∀ commitId, .unstored commitId ∈ held → .unstored commitId ∈ kept
  rows : t.metrics.commitsTotal + kept.count .uncommitted = s.metrics.commitsTotal + held.count .uncommitted
  commits : t.metrics.commitsTotal + s.spoken (fun _ commitId => commitId ≠ "") + held.count .unannounced =
    s.metrics.commitsTotal + t.spoken (fun _ commitId => commitId ≠ "") + kept.count .unannounced
  warnings : t.metrics.loopWarningsTotal + kept.count .ephemeral + s.spoken (fun _ commitId => commitId = "") +
      held.count .unwarned =
    s.metrics.loopWarningsTotal + held.count .ephemeral + t.spoken (fun _ commitId => commitId = "") +
      kept.count .unwarned
  deltas : t.metrics.deltasTotal + kept.count .uncounted + s.spoken (fun _ _ => true) =
    s.metrics.deltasTotal + held.count .uncounted + t.spoken fun _ _ => true
  durables : t.metrics.durableDeltasTotal + kept.count (.unsorted true) + s.spoken (fun delta _ => delta.durable) =
    s.metrics.durableDeltasTotal + held.count (.unsorted true) + t.spoken fun delta _ => delta.durable
  ephemerals : t.metrics.ephemeralDeltasTotal + kept.count (.unsorted false) + s.spoken (fun delta _ => !delta.durable) =
    s.metrics.ephemeralDeltasTotal + held.count (.unsorted false) + t.spoken fun delta _ => !delta.durable

theorem Exchanges.balanced (exchanges : Exchanges s t held kept) (tables : t.app.store.tables = s.app.store.tables)
    (parents : t.app.dag.parents = s.app.dag.parents) (balanced : s.Balanced (held + others)) :
    t.Balanced (kept + others) where
  counted := tables ▸ balanced.counted
  stored commitId known := by
    rw [tables]
    rcases balanced.stored commitId (parents ▸ known) with stored | owed
    · exact .inl stored
    · refine .inr (Multiset.mem_add.mpr ?_)
      exact (Multiset.mem_add.mp owed).imp_left (exchanges.unstored commitId)
  rows := by
    have before := balanced.rows
    have change := exchanges.rows
    rw [Multiset.count_add] at before ⊢
    rw [runCounts, tables]
    change s.runCounts = _
    omega
  commits := by
    have before := balanced.commits
    have change := exchanges.commits
    rw [Multiset.count_add] at before ⊢
    omega
  warnings := by
    have before := balanced.warnings
    have change := exchanges.warnings
    rw [Multiset.count_add, Multiset.count_add] at before ⊢
    omega
  deltas := by
    have before := balanced.deltas
    have change := exchanges.deltas
    rw [Multiset.count_add] at before ⊢
    omega
  durables := by
    have before := balanced.durables
    have change := exchanges.durables
    rw [Multiset.count_add] at before ⊢
    omega
  ephemerals := by
    have before := balanced.ephemerals
    have change := exchanges.ephemerals
    rw [Multiset.count_add] at before ⊢
    omega

end Exchange

section Announcing

variable {ambient : Ambient} {s : Daemon} {held rest : Multiset Debt}

theorem paying_count {bump : ServiceMetrics → ServiceMetrics} {held kept : Multiset Debt}
    (pays : ∀ t : Daemon, Exchanges t { t with metrics := bump t.metrics } held kept) :
    Paying ambient (fun _ => kept) (count bump) held :=
  Strand.Safe.atomic fun t _ balanced => ⟨kept, (pays t).balanced rfl rfl balanced, rfl⟩

theorem paying_countCommit : Paying ambient (fun _ => {.unannounced})
    (count fun metrics => { metrics with commitsTotal := metrics.commitsTotal + 1 }) {.uncommitted} := by
  refine paying_count fun t => ⟨?_, ?_, ?_, ?_, ?_, ?_, ?_⟩ <;> simp [spoken]
  omega

theorem paying_countWarning : Paying ambient (fun _ => {.unwarned})
    (count fun metrics => { metrics with loopWarningsTotal := metrics.loopWarningsTotal + 1 }) 0 := by
  refine paying_count fun t => ⟨?_, ?_, ?_, ?_, ?_, ?_, ?_⟩ <;> simp [spoken]
  omega

theorem paying_countArtifact : Paying ambient (fun _ => 0)
    (count fun metrics => { metrics with artifactsTotal := metrics.artifactsTotal + 1 }) 0 := by
  refine paying_count fun t => ⟨?_, ?_, ?_, ?_, ?_, ?_, ?_⟩ <;> simp [spoken]

theorem paying_countDelta {durable : Bool} : Paying ambient (fun _ => .unsorted durable ::ₘ rest)
    (count fun metrics => { metrics with deltasTotal := metrics.deltasTotal + 1 })
    (.uncounted ::ₘ .unsorted durable ::ₘ rest) := by
  refine paying_count fun t => ⟨?_, ?_, ?_, ?_, ?_, ?_, ?_⟩ <;> simp [spoken, Multiset.count_cons]
  omega

/-- The counter for the durability of the delta -/
theorem paying_sortDelta {delta : StateDelta} : Paying ambient (fun _ => rest)
    (if delta.durable = true then
      count fun metrics => { metrics with durableDeltasTotal := metrics.durableDeltasTotal + 1 }
    else count fun metrics => { metrics with ephemeralDeltasTotal := metrics.ephemeralDeltasTotal + 1 })
    (.unsorted delta.durable ::ₘ rest) := by
  cases kind : delta.durable with
  | true =>
    rw [if_pos rfl]
    refine paying_count fun t => ⟨?_, ?_, ?_, ?_, ?_, ?_, ?_⟩ <;> simp [spoken]
    omega
  | false =>
    rw [if_neg Bool.false_ne_true]
    refine paying_count fun t => ⟨?_, ?_, ?_, ?_, ?_, ?_, ?_⟩ <;> simp [spoken]
    omega

theorem spoken_append (p : StateDelta → String → Bool) (delta : StateDelta) (commitId : String) :
    spoken { s with app := { s.app with bus := s.app.bus ++ [.broadcast delta commitId] } } p =
      s.spoken p + if p delta commitId = true then 1 else 0 := by
  rw [spoken, spoken, List.countP_append, List.countP_singleton]
  rfl

/-- A broadcast, given what it changes at once -/
theorem paying_broadcast {delta : StateDelta} {commitId : String}
    (announces : ∀ t : Daemon, Exchanges t
      { t with app := { t.app with bus := t.app.bus ++ [.broadcast delta commitId] } } held
      (.uncounted ::ₘ .unsorted delta.durable ::ₘ rest)) :
    Paying ambient (fun _ => rest) (broadcast delta commitId) held := by
  have spoke : Paying ambient (fun _ => .uncounted ::ₘ .unsorted delta.durable ::ₘ rest)
      (onApp (AppState.broadcast delta commitId)) held :=
    Strand.Safe.atomic fun t _ balanced => ⟨_, (announces t).balanced rfl rfl balanced, rfl⟩
  exact spoke.bind fun _ => paying_countDelta.bind fun _ => paying_sortDelta

/-- A counted commit is announced. -/
theorem paying_announceCommit {delta : StateDelta} {commitId : String} (named : commitId ≠ "") :
    Paying ambient (fun _ => 0) (broadcast delta commitId) {.unannounced} := by
  refine paying_broadcast fun t => ⟨?_, ?_, ?_, ?_, ?_, ?_, ?_⟩
  all_goals cases kind : delta.durable <;> simp [spoken_append, named, kind] <;> omega

/-- A counted warning is announced. -/
theorem paying_announceWarning {delta : StateDelta} :
    Paying ambient (fun _ => 0) (broadcast delta "") {.unwarned} := by
  refine paying_broadcast fun t => ⟨?_, ?_, ?_, ?_, ?_, ?_, ?_⟩
  all_goals cases kind : delta.durable <;> simp [spoken_append, kind] <;> omega

/-- An ephemeral delta is announced. -/
theorem paying_announceEphemeral {delta : StateDelta} :
    Paying ambient (fun _ => {.ephemeral}) (broadcast delta "") 0 := by
  refine paying_broadcast fun t => ⟨?_, ?_, ?_, ?_, ?_, ?_, ?_⟩
  all_goals cases kind : delta.durable <;> simp [spoken_append, kind] <;> omega

end Announcing

section Persisting

variable {ambient : Ambient} {commit : Commit} {s : Daemon} {others : Multiset Debt}

/-- A transaction counts once, in the row of its run. -/
theorem sum_countRun {runs : List RunRow} (unique : (runs.map (·.runId)).Nodup) :
    ((CommitTables.countRun commit runs).map (·.commitCount)).sum = (runs.map (·.commitCount)).sum + 1 := by
  rw [CommitTables.countRun, Table.upsert]
  split
  · next listed =>
    induction runs with
    | nil => cases listed
    | cons row rest ih =>
      rw [List.map_cons, List.nodup_cons] at unique
      rw [List.map_cons, List.map_cons, List.sum_cons, List.map_cons, List.sum_cons]
      by_cases here : row.runId = commit.runId
      · have away : (rest.map fun old => if old.runId = commit.runId then
            { old with lastCommitAt := commit.wallSeconds, commitCount := old.commitCount + 1 } else old) = rest := by
          refine (List.map_congr_left fun old member => if_neg fun same => ?_).trans (List.map_id rest)
          exact unique.1 (here ▸ same ▸ List.mem_map_of_mem member)
        rw [if_pos here, away]
        exact Nat.add_right_comm _ _ _
      · have later : commit.runId ∈ rest.map (·.runId) :=
          (List.mem_cons.mp listed).resolve_left fun same => here same.symm
        rw [if_neg here, ih unique.2 later]
        omega
  · rw [List.map_append, List.sum_append]
    rfl

theorem paying_checkParents : Paying ambient (fun _ => 0) (checkParents commit) 0 :=
  paying_onApp fun app => .refl app

/-- Other debts are not counted. -/
theorem count_singleton_add {mine debt : Debt} (apart : debt ≠ mine) :
    (({mine} : Multiset Debt) + others).count debt = others.count debt := by
  rw [Multiset.count_add, Multiset.count_singleton, if_neg apart, Nat.zero_add]

theorem Balanced.withParents (balanced : s.Balanced others) :
    (s.withParents commit).Balanced ({.unstored commit.commitId} + others) where
  counted := balanced.counted
  stored commitId known := by
    rcases Finmap.mem_insert.mp known with rfl | old
    · exact .inr (Multiset.mem_add.mpr (.inl (Multiset.mem_singleton_self _)))
    · exact (balanced.stored commitId old).imp_right fun owed => Multiset.mem_add.mpr (.inr owed)
  rows := by
    rw [count_singleton_add (by simp)]
    exact balanced.rows
  commits := by
    rw [count_singleton_add (by simp)]
    exact balanced.commits
  warnings := by
    rw [count_singleton_add (by simp), count_singleton_add (by simp)]
    exact balanced.warnings
  deltas := by
    rw [count_singleton_add (by simp)]
    exact balanced.deltas
  durables := by
    rw [count_singleton_add (by simp)]
    exact balanced.durables
  ephemerals := by
    rw [count_singleton_add (by simp)]
    exact balanced.ephemerals

theorem paying_writeParents : Paying ambient (fun _ => {.unstored commit.commitId}) (writeParents commit) 0 := by
  refine Strand.Safe.atomic fun t others balanced => ⟨_, ?_, rfl⟩
  rw [zero_add] at balanced
  exact balanced.withParents

/-- Storing a commit pays for indexing it, and it has still to be counted. -/
theorem Balanced.withCommit (balanced : s.Balanced ({.unstored commit.commitId} + others)) :
    (s.withCommit commit).Balanced ({.uncommitted} + others) where
  counted := balanced.counted.appendCommit commit
  stored commitId known := by
    rcases balanced.stored commitId known with ⟨found, read⟩ | owed
    · exact .inl ⟨found, (CommitTables.extends_appendCommit _ _).keeps read⟩
    · rcases Multiset.mem_add.mp owed with here | elsewhere
      · obtain ⟨rfl⟩ := Multiset.mem_singleton.mp here
        exact .inl (CommitTables.getCommit_appendCommit_self _ _)
      · exact .inr (Multiset.mem_add.mpr (.inr elsewhere))
  rows := by
    have before := balanced.rows
    have counts : (s.withCommit commit).runCounts = s.runCounts + 1 := sum_countRun balanced.counted.runs
    rw [count_singleton_add (by simp)] at before
    rw [counts, Multiset.count_add, Multiset.count_singleton_self]
    change _ = s.metrics.commitsTotal + _
    omega
  commits := by
    have before := balanced.commits
    rw [count_singleton_add (by simp)] at before ⊢
    exact before
  warnings := by
    have before := balanced.warnings
    rw [count_singleton_add (by simp), count_singleton_add (by simp)] at before ⊢
    exact before
  deltas := by
    have before := balanced.deltas
    rw [count_singleton_add (by simp)] at before ⊢
    exact before
  durables := by
    have before := balanced.durables
    rw [count_singleton_add (by simp)] at before ⊢
    exact before
  ephemerals := by
    have before := balanced.ephemerals
    rw [count_singleton_add (by simp)] at before ⊢
    exact before

/-- A store call that fails leaves a loss behind. -/
theorem lost_singleton {debt : Debt} {call : StoreCall} (loss : debt.Loss) (fails : ambient.fails call = true) :
    Lost ambient {debt} where
  kinds other member := Multiset.mem_singleton.mp member ▸ loss
  calm calm := by
    rw [calm call] at fails
    cases fails

theorem paying_appendCommit : Paying ambient (fun _ => {.uncommitted})
    (onStore (SqliteStore.appendCommit ambient commit)) {.unstored commit.commitId} := by
  refine Strand.Safe.atomic fun t others balanced => ?_
  obtain ⟨r, store, run⟩ : ∃ r store, SqliteStore.appendCommit ambient commit t.app.store = (r, store) := ⟨_, _, rfl⟩
  rw [onStore_run run]
  rcases SqliteStore.appendCommit_cases run with ⟨fails, rfl, rfl⟩ | ⟨_, rfl, rfl⟩
  · exact ⟨_, balanced, lost_singleton trivial fails⟩
  · exact ⟨_, balanced.withCommit, rfl⟩

theorem paying_setHead {lineage : Lineage} {commitId : String} :
    Paying ambient (fun _ => {.uncommitted}) (onStore (SqliteStore.setHead ambient lineage commitId)) {.uncommitted} := by
  refine Strand.Safe.atomic fun t others balanced => ⟨{.uncommitted}, ?_⟩
  obtain ⟨r, store, run⟩ : ∃ r store, SqliteStore.setHead ambient lineage commitId t.app.store = (r, store) :=
    ⟨_, _, rfl⟩
  rw [onStore_run run]
  rcases SqliteStore.setHead_cases run with ⟨fails, rfl, rfl⟩ | ⟨_, rfl, rfl⟩
  · exact ⟨balanced, lost_singleton trivial fails⟩
  · exact ⟨Even.balanced (s := t) ⟨rfl, rfl, fun _ => rfl, rfl⟩ balanced, rfl⟩

theorem paying_appendToDag : Paying ambient (fun _ => {.unstored commit.commitId}) (appendToDag commit) 0 := by
  refine paying_bailIf.bind fun _ => paying_bailIf.bind fun _ => paying_checkParents.bind fun _ =>
    paying_writeParents.bind fun _ => ?_
  refine paying_even (fun t => ⟨rfl, rfl, fun _ => rfl, rfl⟩) fun t e failed => ?_
  cases failed

theorem paying_persistCommit : Paying ambient (fun _ => {.unannounced}) (persistCommit ambient commit) 0 :=
  paying_appendToDag.bind fun _ => paying_appendCommit.bind fun _ => paying_setHead.bind fun _ => paying_countCommit

end Persisting

section Calls

variable {deps : External} {config : Config} {ambient : Ambient} {commit : Commit}

theorem aside_read {α : Type} {x : Fallible AppState Error α} (reads : Keeps Same x) : Keeps Aside x := by
  intro app
  have same : (x app).2 = app := reads app
  rw [same]
  exact .refl app

theorem paying_read {α : Type} {x : Fallible AppState Error α} (reads : Keeps Same x) :
    Paying ambient (fun _ => 0) (onApp x) 0 := paying_onApp (aside_read reads)

theorem paying_reportLoop (found : Option LoopWarning) :
    Paying ambient (fun _ => 0) (reportLoop deps ambient found) 0 := by
  cases found with
  | none => exact paying_pure rfl
  | some warning =>
    exact (paying_onStore (AppState.appendLoopWarning_keeps warning)).bind fun _ => paying_countWarning.bind fun _ =>
      paying_announceWarning

theorem paying_inspectLoop : Paying ambient (fun _ => 0) (inspectLoop deps config ambient commit) 0 := by
  rw [inspectLoop]
  split
  · exact paying_pure rfl
  · exact (paying_onApp fun app => ⟨rfl, rfl, fun _ => rfl⟩).bind fun found => paying_reportLoop found

theorem paying_record {delta : StateDelta} (named : commit.commitId ≠ "") :
    Paying ambient (fun _ => 0) (record deps config ambient delta commit) 0 :=
  paying_persistCommit.bind fun _ => (paying_announceCommit named).bind fun _ => paying_inspectLoop

theorem paying_putArtifact {bytes : Bytes} {mediaType : String} :
    Paying ambient (fun _ => 0) (putArtifact deps config ambient bytes mediaType) 0 := by
  refine (paying_onStore (SqliteStore.attempt_keeps _)).bind fun _ => (paying_onStore (maybeCompress_keeps _)).bind
    fun _ => (paying_onStore (writeFile_keeps _ _)).bind fun _ => ?_
  have inserted : ∀ row, Paying ambient (fun _ => 0) (insertArtifact ambient row) 0 := fun row =>
    paying_onStore (.bind .trans (SqliteStore.attempt_keeps _) fun _ => .modify fun _ => ⟨rfl, rfl⟩)
  exact (inserted _).bind fun _ => paying_pure rfl

theorem paying_preparePayload {payload : Option Payload} :
    Paying ambient (fun _ => 0) (preparePayload deps config ambient payload) 0 := by
  rw [preparePayload]
  obtain ⟨kept, report⟩ := AppState.redactedPayload deps config payload
  dsimp only
  split
  · exact paying_putArtifact.bind fun _ => paying_countArtifact.bind fun _ => paying_pure rfl
  · exact paying_pure rfl

theorem sealed_ne_empty (named : commit.Sealed deps) : commit.commitId ≠ "" := by
  intro unnamed
  have long := congrArg String.length (named.symm.trans unnamed)
  rw [String.length_append, deps.length_shortHash] at long
  exact absurd long (by decide)

/-- A delta that was published without a commit stays in the account. -/
theorem paying_publishDeltaInner {request : PublishDeltaRequest} :
    Paying ambient (fun response => if response.persisted = true then 0 else {.ephemeral})
      (publishDeltaInner deps config ambient request) 0 := by
  refine paying_required.bind fun delta => (paying_read ensureChannelPermission_reads).bind fun _ => ?_
  refine paying_preparePayload.bind fun prepared => ?_
  obtain ⟨payload, report, artifacts⟩ := prepared
  dsimp only
  split
  · exact paying_announceEphemeral.bind fun _ => paying_pure rfl
  · exact (paying_read resolveParents_reads).bind fun parents =>
      (paying_record (sealed_ne_empty fromDelta_sealed)).bind fun _ => paying_pure rfl

theorem paying_checkpointInner {request : CheckpointRequest} :
    Paying ambient (fun _ => 0) (checkpointInner deps config ambient request) 0 := by
  refine (paying_read ensureChannelPermission_reads).bind fun _ => paying_preparePayload.bind fun prepared => ?_
  obtain ⟨payload, report, artifacts⟩ := prepared
  exact (paying_read resolveParents_reads).bind fun parents =>
    (paying_record (sealed_ne_empty fromDelta_sealed)).bind fun _ => paying_pure rfl

theorem paying_getRequired {α : Type} {after : α → Multiset Debt} {call : StoreCall} {commitId message : String}
    {f : Commit → Activity α} (rest : ∀ commit, Paying ambient after (f commit) 0) : Paying ambient after (do
      let found ← onStore (SqliteStore.getCommit ambient call commitId)
      let commit ← required found message
      f commit) 0 :=
  (paying_read (getCommit_reads call commitId)).bind fun _ => paying_required.bind rest

theorem paying_collectWarnings (target : String) (ids : List String) :
    Paying ambient (fun _ => 0) (collectWarnings ambient target ids) 0 := by
  induction ids with
  | nil => exact paying_pure rfl
  | cons commitId rest ih =>
    rw [collectWarnings]
    split
    · exact paying_pure rfl
    · exact (paying_read (getCommit_reads _ _)).bind fun _ => Paying.bind ih fun _ => paying_pure rfl

theorem paying_moveHead {lineage : Lineage} {commitId : String} :
    Paying ambient (fun _ => 0) (onStore (SqliteStore.setHead ambient lineage commitId)) 0 := by
  refine paying_onApp fun app => ?_
  obtain ⟨r, store, run⟩ : ∃ r store, SqliteStore.setHead ambient lineage commitId app.store = (r, store) :=
    ⟨_, _, rfl⟩
  rw [AppState.onStore_eq_iff.2 ⟨store, run, rfl⟩]
  rcases SqliteStore.setHead_cases run with ⟨_, _, rfl⟩ | ⟨_, _, rfl⟩
  · exact ⟨rfl, rfl, fun _ => rfl⟩
  · exact ⟨rfl, rfl, fun _ => rfl⟩

theorem paying_appendEvent {eventType : String} {payloadJson : Bytes} :
    Paying ambient (fun _ => 0) (appendEvent ambient eventType payloadJson) 0 := by
  refine (paying_onStore ?_).bind fun _ => ?_
  · exact .bind .trans (SqliteStore.attempt_keeps _) fun _ => .modify fun _ => ⟨rfl, rfl⟩
  · split
    · exact paying_onStore (.bind .trans (SqliteStore.attempt_keeps _) fun _ => .modify fun _ => ⟨rfl, rfl⟩)
    · exact paying_pure rfl

theorem paying_checkAncestor {request : RollbackRequest} :
    Paying ambient (fun _ => 0) (checkAncestor request) 0 := by
  rw [checkAncestor]
  split
  · exact paying_pure rfl
  · exact paying_read (.bind .trans (.get .refl) fun _ => .ensure .refl _ _)

theorem paying_rollbackInner {request : RollbackRequest} :
    Paying ambient (fun _ => 0) (rollbackInner deps ambient request) 0 :=
  paying_checkAncestor.bind fun _ => paying_getRequired fun _ => paying_getRequired fun _ =>
    (paying_read (.bind .trans (.get .refl) fun _ => .pure .refl _)).bind fun _ =>
      (paying_collectWarnings _ _).bind fun _ => paying_moveHead.bind fun _ =>
        paying_appendEvent.bind fun _ => paying_pure rfl

theorem paying_forkInner {request : ForkRequest} : Paying ambient (fun _ => 0) (forkInner deps ambient request) 0 :=
  paying_getRequired fun _ => paying_moveHead.bind fun _ => paying_appendEvent.bind fun _ => paying_pure rfl

/-- A registration is no broadcast. -/
theorem paying_registerAgentInner {request : RegisterAgentRequest} :
    Paying ambient (fun _ => 0) (registerAgentInner config request) 0 := by
  refine (paying_onApp fun app => ⟨rfl, rfl, fun _ => rfl⟩).bind fun _ => ?_
  refine (paying_onApp fun app => ⟨rfl, rfl, fun p => ?_⟩).bind fun _ => paying_pure rfl
  exact List.countP_append.trans (Nat.add_zero _)

/-- The debts that an answer leaves open -/
def openDebts : Response → Multiset Debt
  | .publishDelta response => if response.persisted = true then 0 else {.ephemeral}
  | _ => 0

theorem paying_serve (call : Call) : Paying call.ambient openDebts (serve deps config call) 0 := by
  obtain ⟨request, ambient⟩ := call
  cases request with
  | registerAgent request => exact paying_registerAgentInner.bind fun _ => paying_pure rfl
  | publishDelta request => exact paying_publishDeltaInner.bind fun _ => paying_pure rfl
  | checkpoint request => exact paying_checkpointInner.bind fun _ => paying_pure rfl
  | rollback request => exact paying_rollbackInner.bind fun _ => paying_pure rfl
  | fork request => exact paying_forkInner.bind fun _ => paying_pure rfl

end Calls

end Daemon

end AttowNexus
