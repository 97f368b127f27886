import AttowNexus.Model.Interleaved
import AttowNexus.Proofs.Naming

/-! # What the actions of a call keep

Whatever comes in between, an action only ever adds: commits to the index, rows to the tables, calls to the bus. So
what a call has seen stays true until it acts on it, except that no new parents of a commit close a cycle, and for this
it takes that no two commits collide.
-/

namespace AttowNexus

open SuccGraph Fallible

namespace Daemon

variable {deps : External} {config : Config} {ambient : Ambient} {s t : Daemon} {commit : Commit}

/-- The commit is in the tables. -/
def Stores (daemon : Daemon) (commitId : String) : Prop :=
  ∃ commit, daemon.app.store.tables.getCommit commitId = some commit

/-- Nothing got lost between the states. -/
structure Later (s t : Daemon) : Prop where
  indexed : s.indexed ⊆ t.indexed
  known : ∀ commitId ∈ s.app.dag.parents, commitId ∈ t.app.dag.parents
  tables : s.app.store.tables.Extends t.app.store.tables

theorem Later.refl (s : Daemon) : Later s s := ⟨fun _ => id, fun _ => id, .refl _⟩

theorem Later.trans (s t u : Daemon) (first : Later s t) (second : Later t u) : Later s u :=
  ⟨fun _ inside => second.indexed (first.indexed inside), fun _ inside => second.known _ (first.known _ inside),
    first.tables.trans second.tables⟩

theorem Stores.later {commitId : String} (stores : s.Stores commitId) (later : Later s t) : t.Stores commitId :=
  stores.imp fun _ found => later.tables.keeps found

/-- What holds of the daemon whatever runs on it. -/
structure Consistent (deps : External) (daemon : Daemon) : Prop where
  keyed : daemon.app.store.tables.Keyed
  counted : daemon.app.store.tables.Counted
  headKeys : (daemon.app.store.heads.map (·.headKey)).Nodup
  headsStored : daemon.app.ledger.HeadsStored
  named : ∀ commit ∈ daemon.indexed, commit.Sealed deps
  known : ∀ commit ∈ daemon.indexed, commit.commitId ∈ daemon.app.dag.parents
  stated : ∀ commitId parents, daemon.app.dag.parents.lookup commitId = some parents →
    ∃ commit ∈ daemon.indexed, commit.commitId = commitId ∧ commit.parentCommitIds = parents
  closed : ∀ commit ∈ daemon.indexed, ∀ parent ∈ commit.parentCommitIds, parent ∈ daemon.app.dag.parents
  stored : ∀ commit ∈ daemon.app.store.tables.stored, commit ∈ daemon.indexed
  announced : ∀ delta commitId, .broadcast delta commitId ∈ daemon.app.bus → commitId ≠ "" →
    daemon.Stores commitId ∧ ∃ commit ∈ daemon.indexed, commit.commitId = commitId ∧ commit.deltaId = delta.deltaId
  acyclic : CollisionFree deps daemon.indexed → Acyclic daemon.app.dag.parents.next

theorem consistent_initial : initial.Consistent deps where
  keyed := CommitTables.keyed_empty
  counted := CommitTables.counted_empty
  headKeys := List.nodup_nil
  headsStored _ absent := absurd absent List.not_mem_nil
  named _ absent := absurd absent List.not_mem_nil
  known _ absent := absurd absent List.not_mem_nil
  stated commitId parents found := absurd found (by simp [initial, AppState.initial, AppState.new, DagIndex.empty])
  closed _ absent := absurd absent List.not_mem_nil
  stored _ absent := absurd absent List.not_mem_nil
  announced _ _ absent := absurd absent List.not_mem_nil
  acyclic _ := ParentMap.wellFormed_empty.acyclic

namespace Consistent

/-- Without collisions the index states the parents of every commit that went into it. -/
theorem lookup_parents (consistent : s.Consistent deps) (free : CollisionFree deps s.indexed)
    (member : commit ∈ s.indexed) :
    s.app.dag.parents.lookup commit.commitId = some commit.parentCommitIds := by
  obtain ⟨parents, found⟩ := Finmap.mem_iff.mp (consistent.known commit member)
  obtain ⟨other, inside, same, rfl⟩ := consistent.stated _ _ found
  rw [found, free.eq_of_commitId_eq inside member (consistent.named other inside) (consistent.named commit member) same]

theorem wellFormed (consistent : s.Consistent deps) (free : CollisionFree deps s.indexed) :
    s.app.dag.parents.WellFormed where
  closed commitId parent edge := by
    cases found : s.app.dag.parents.lookup commitId with
    | none =>
      rw [ParentMap.next, found, Option.getD_none] at edge
      exact absurd edge List.not_mem_nil
    | some parents =>
      obtain ⟨commit, inside, rfl, rfl⟩ := consistent.stated _ _ found
      rw [ParentMap.next_of_lookup found] at edge
      exact consistent.closed commit inside parent edge
  acyclic := consistent.acyclic free

/-- Without collisions the ledger is sound. -/
theorem sound (consistent : s.Consistent deps) (free : CollisionFree deps s.indexed) : s.app.ledger.Sound where
  graph := consistent.wellFormed free
  keyed := consistent.keyed
  counted := consistent.counted
  headKeys := consistent.headKeys
  named commit member := by
    rw [consistent.named commit (consistent.stored commit member), String.length_append, deps.length_shortHash]
    rfl
  indexed commit member := consistent.known commit (consistent.stored commit member)

/-- A read finds the commit that went into the index under the name, unless commits collide. -/
theorem getCommit_eq (consistent : s.Consistent deps) (free : CollisionFree deps s.indexed)
    (member : commit ∈ s.indexed) (stores : s.Stores commit.commitId) :
    s.app.store.tables.getCommit commit.commitId = some commit := by
  obtain ⟨found, read⟩ := stores
  obtain ⟨inside, same⟩ := consistent.keyed.getCommit_eq_some_iff.mp read
  have indexed := consistent.stored found inside
  rw [read, free.eq_of_commitId_eq indexed member (consistent.named found indexed) (consistent.named commit member) same]

end Consistent

section Writes

/-- Nothing that the invariant is about changes. -/
structure Quiet (s t : Daemon) : Prop where
  parents : t.app.dag.parents = s.app.dag.parents
  tables : t.app.store.tables = s.app.store.tables
  heads : t.app.store.heads = s.app.store.heads
  announced : ∀ delta commitId, .broadcast delta commitId ∈ t.app.bus → .broadcast delta commitId ∈ s.app.bus
  indexed : t.indexed = s.indexed

theorem Quiet.later (quiet : Quiet s t) : Later s t where
  indexed _ inside := quiet.indexed ▸ inside
  known _ inside := quiet.parents ▸ inside
  tables := quiet.tables ▸ .refl _

theorem Quiet.consistent (quiet : Quiet s t) (consistent : s.Consistent deps) : t.Consistent deps where
  keyed := quiet.tables ▸ consistent.keyed
  counted := quiet.tables ▸ consistent.counted
  headKeys := quiet.heads ▸ consistent.headKeys
  headsStored row member := by
    change ∃ commit, t.app.store.tables.getCommit row.commitId = some commit
    rw [quiet.tables]
    have inside : row ∈ s.app.store.heads := quiet.heads ▸ member
    exact consistent.headsStored row inside
  named := quiet.indexed ▸ consistent.named
  known := quiet.indexed ▸ quiet.parents ▸ consistent.known
  stated := quiet.indexed ▸ quiet.parents ▸ consistent.stated
  closed := quiet.indexed ▸ quiet.parents ▸ consistent.closed
  stored := quiet.indexed ▸ quiet.tables ▸ consistent.stored
  announced delta commitId member named := by
    obtain ⟨stores, told⟩ := consistent.announced delta commitId (quiet.announced _ _ member) named
    exact ⟨stores.later quiet.later, quiet.indexed ▸ told⟩
  acyclic := quiet.indexed ▸ quiet.parents ▸ consistent.acyclic

/-- The commit goes into the map of parents. -/
def withParents (commit : Commit) (daemon : Daemon) : Daemon :=
  { daemon with
    app := { daemon.app with dag := { daemon.app.dag with
      parents := daemon.app.dag.parents.insert commit.commitId commit.parentCommitIds } }
    indexed := daemon.indexed ++ [commit] }

def withCommit (commit : Commit) (daemon : Daemon) : Daemon :=
  { daemon with app := { daemon.app with store := { daemon.app.store with
    tables := daemon.app.store.tables.appendCommit commit } } }

def withHead (lineage : Lineage) (commitId : String) (daemon : Daemon) : Daemon :=
  { daemon with app := { daemon.app with store := { daemon.app.store with
    heads := moveHead lineage commitId daemon.app.store.heads } } }

def withBroadcast (delta : StateDelta) (commitId : String) (daemon : Daemon) : Daemon :=
  { daemon with app := { daemon.app with bus := daemon.app.bus ++ [.broadcast delta commitId] } }

theorem later_withParents : Later s (s.withParents commit) where
  indexed _ inside := List.mem_append_left _ inside
  known _ inside := Finmap.mem_insert.mpr (.inr inside)
  tables := .refl _

/-- A commit that the index knows already states the same parents again, and a new one is an ancestor of nothing. -/
theorem acyclic_withParents (consistent : s.Consistent deps) (named : commit.Sealed deps)
    (parents : ∀ parent ∈ commit.parentCommitIds, parent ∈ s.app.dag.parents)
    (free : CollisionFree deps (s.indexed ++ [commit])) : Acyclic (s.withParents commit).app.dag.parents.next := by
  have before := free.mono (List.subset_append_left s.indexed [commit])
  have next : (s.withParents commit).app.dag.parents.next =
      Function.update s.app.dag.parents.next commit.commitId commit.parentCommitIds := ParentMap.next_insert _ _
  rw [next]
  by_cases known : commit.commitId ∈ s.app.dag.parents
  · obtain ⟨stated, found⟩ := Finmap.mem_iff.mp known
    obtain ⟨other, inside, same, rfl⟩ := consistent.stated _ _ found
    have one : other = commit := free.eq_of_commitId_eq (List.mem_append_left _ inside) (by simp)
      (consistent.named other inside) named same
    rw [one] at found
    rw [← ParentMap.next_of_lookup found, Function.update_eq_self]
    exact consistent.acyclic before
  · refine (consistent.acyclic before).update fun parent edge path => known ?_
    exact (consistent.wellFormed before).mem_of_reach (parents parent edge) path

theorem Consistent.withParents (consistent : s.Consistent deps) (named : commit.Sealed deps)
    (parents : ∀ parent ∈ commit.parentCommitIds, parent ∈ s.app.dag.parents) :
    (s.withParents commit).Consistent deps where
  keyed := consistent.keyed
  counted := consistent.counted
  headKeys := consistent.headKeys
  headsStored := consistent.headsStored
  named other member := by
    rcases List.mem_append.mp member with old | new
    · exact consistent.named other old
    · exact List.mem_singleton.mp new ▸ named
  known other member := by
    rcases List.mem_append.mp member with old | new
    · exact Finmap.mem_insert.mpr (.inr (consistent.known other old))
    · exact Finmap.mem_insert.mpr (.inl (congrArg Commit.commitId (List.mem_singleton.mp new)))
  stated commitId stated found := by
    by_cases same : commitId = commit.commitId
    · rw [same, Daemon.withParents, Finmap.lookup_insert] at found
      exact ⟨commit, by simp [Daemon.withParents], same.symm, Option.some.inj found⟩
    · rw [Daemon.withParents, Finmap.lookup_insert_of_ne _ same] at found
      obtain ⟨other, inside, told⟩ := consistent.stated _ _ found
      exact ⟨other, List.mem_append_left _ inside, told⟩
  closed other member parent edge := by
    apply Finmap.mem_insert.mpr
    rcases List.mem_append.mp member with old | new
    · exact .inr (consistent.closed other old parent edge)
    · rw [List.mem_singleton.mp new] at edge
      exact .inr (parents parent edge)
  stored other member := List.mem_append_left _ (consistent.stored other member)
  announced delta commitId member given := by
    obtain ⟨stores, other, inside, told⟩ := consistent.announced delta commitId member given
    exact ⟨stores, other, List.mem_append_left _ inside, told⟩
  acyclic free := acyclic_withParents consistent named parents free

theorem later_withCommit : Later s (s.withCommit commit) where
  indexed _ := id
  known _ := id
  tables := CommitTables.extends_appendCommit _ _

theorem Consistent.withCommit (consistent : s.Consistent deps) (indexed : commit ∈ s.indexed) :
    (s.withCommit commit).Consistent deps where
  keyed := consistent.keyed.appendCommit commit
  counted := consistent.counted.appendCommit commit
  headKeys := consistent.headKeys
  headsStored row member := (consistent.headsStored row member).imp fun _ found =>
    (CommitTables.extends_appendCommit _ _).keeps found
  named := consistent.named
  known := consistent.known
  stated := consistent.stated
  closed := consistent.closed
  stored other member := by
    rcases @Ledger.mem_stored_append s.app.ledger _ _ member with old | rfl
    · exact consistent.stored other old
    · exact indexed
  announced delta commitId member given := by
    obtain ⟨stores, told⟩ := consistent.announced delta commitId member given
    exact ⟨stores.later later_withCommit, told⟩
  acyclic := consistent.acyclic

theorem stores_withCommit : (s.withCommit commit).Stores commit.commitId := CommitTables.getCommit_appendCommit_self _ _

theorem later_withHead {lineage : Lineage} {commitId : String} : Later s (s.withHead lineage commitId) :=
  ⟨fun _ => id, fun _ => id, .refl _⟩

theorem Consistent.withHead {lineage : Lineage} {commitId : String} (consistent : s.Consistent deps)
    (stores : s.Stores commitId) : (s.withHead lineage commitId).Consistent deps :=
  { consistent with
    headKeys := moveHead_nodup consistent.headKeys
    headsStored := by
      intro row member
      rcases mem_moveHead member with old | moved
      · exact consistent.headsStored row old
      · exact moved ▸ stores }

theorem later_withBroadcast {delta : StateDelta} {commitId : String} : Later s (s.withBroadcast delta commitId) :=
  ⟨fun _ => id, fun _ => id, .refl _⟩

theorem Consistent.withBroadcast {delta : StateDelta} {commitId : String} (consistent : s.Consistent deps)
    (told : commitId ≠ "" → s.Stores commitId ∧
      ∃ commit ∈ s.indexed, commit.commitId = commitId ∧ commit.deltaId = delta.deltaId) :
    (s.withBroadcast delta commitId).Consistent deps :=
  { consistent with
    announced := by
      intro other otherId member given
      rcases List.mem_append.mp member with old | new
      · exact consistent.announced other otherId old given
      · obtain ⟨rfl, rfl⟩ := BusCall.broadcast.inj (List.mem_singleton.mp new)
        exact told given }

end Writes

section Actions

variable {α β : Type} {P : α → Daemon → Prop} {R : β → Daemon → Prop}

/-- The strand keeps the invariant and loses nothing; if it succeeds, what it promises holds. -/
abbrev Keeping (deps : External) (P : α → Daemon → Prop) (x : Activity α) (s : Daemon) : Prop :=
  x.Grows (Consistent deps) Later (OnSuccess P) s

theorem Keeping.bind {x : Activity α} {f : α → Activity β} (first : Keeping deps P x s)
    (rest : ∀ a t, P a t → Later s t → Keeping deps R (f a) t) : Keeping deps R (x >>= f) s :=
  (first.later Later.trans (Later.refl s)).bind (fun _ _ _ => trivial) fun a t held => rest a t held.1 held.2

theorem keeping_pure {a : α} (ends : P a s) : Keeping deps P (pure a) s := Strand.Grows.pure ends

theorem keeping_settle {outcome : Except Error α} (ends : ∀ a, outcome = .ok a → P a s) :
    Keeping deps P (.settle outcome) s := by
  cases outcome with
  | error e => exact Strand.Grows.settle trivial
  | ok a => exact Strand.Grows.settle (ends a rfl)

theorem keeping_atomic {x : Fallible Daemon Error α}
    (acts : ∀ t, t.Consistent deps → Later s t → (x t).2.Consistent deps ∧ Later t (x t).2)
    (learns : ∀ t a u, t.Consistent deps → Later s t → x t = (.ok a, u) → P a u) :
    Keeping deps P (.atomic x) s := by
  refine Strand.Grows.atomic fun t consistent later => ?_
  obtain ⟨keeps, on⟩ := acts t consistent later
  refine ⟨keeps, on, ?_⟩
  rcases run : x t with ⟨e | a, u⟩
  · trivial
  · exact learns t a u consistent later run

/-- Neither the parents nor the tables nor the heads nor the announcements change. -/
structure Silent (s t : AppState) : Prop where
  parents : t.dag.parents = s.dag.parents
  tables : t.store.tables = s.store.tables
  heads : t.store.heads = s.store.heads
  announced : ∀ delta commitId, .broadcast delta commitId ∈ t.bus → .broadcast delta commitId ∈ s.bus

theorem Silent.refl (s : AppState) : Silent s s := ⟨rfl, rfl, rfl, fun _ _ => id⟩

theorem Silent.quiet {app : AppState} (silent : Silent s.app app) : Quiet s { s with app := app } :=
  ⟨silent.parents, silent.tables, silent.heads, silent.announced, rfl⟩

theorem onApp_eq_iff {x : Fallible AppState Error α} {r : Except Error α} :
    zoom (·.app) (fun app daemon => { daemon with app := app }) x s = (r, t) ↔
      ∃ app, x s.app = (r, app) ∧ t = { s with app := app } := zoom_eq_iff

theorem onStore_run {x : Fallible SqliteStore Error α} {r : Except Error α} {store : SqliteStore}
    (run : x s.app.store = (r, store)) :
    zoom (·.app) (fun app daemon => { daemon with app := app }) (AppState.onStore x) s =
      (r, { s with app := { s.app with store := store } }) :=
  onApp_eq_iff.2 ⟨_, AppState.onStore_eq_iff.2 ⟨store, run, rfl⟩, rfl⟩

theorem keeping_onApp {x : Fallible AppState Error α} (silent : Fallible.Keeps Silent x)
    (learns : ∀ t a app, t.Consistent deps → Later s t → x t.app = (.ok a, app) → P a { t with app := app }) :
    Keeping deps P (onApp x) s := by
  refine keeping_atomic (fun t consistent _ => ?_) fun t a u consistent later run => ?_
  · have quiet : Quiet t _ := (silent t.app).quiet
    exact ⟨quiet.consistent consistent, quiet.later⟩
  · obtain ⟨app, inner, rfl⟩ := onApp_eq_iff.1 run
    exact learns t a app consistent later inner

/-- An action of which only the outcome matters -/
theorem keeping_silent {x : Fallible AppState Error α} (silent : Fallible.Keeps Silent x) :
    Keeping deps (fun _ _ => True) (onApp x) s := keeping_onApp silent fun _ _ _ _ _ _ => trivial

theorem silent_onStore {x : Fallible SqliteStore Error α} (keeps : Fallible.Keeps SameTables x) :
    Fallible.Keeps Silent (AppState.onStore x) :=
  fun app => ⟨rfl, (keeps app.store).1, (keeps app.store).2, fun _ _ => id⟩

/-- The state is only read. -/
def Same (s t : AppState) : Prop := t = s

theorem Same.refl (s : AppState) : Same s s := rfl

theorem Same.trans (s t u : AppState) (first : Same s t) (second : Same t u) : Same s u := Eq.trans second first

theorem silent_read {x : Fallible AppState Error α} (reads : Fallible.Keeps Same x) : Fallible.Keeps Silent x := by
  intro app
  have same : (x app).2 = app := reads app
  rw [same]
  exact .refl _

theorem same_onStore {x : Fallible SqliteStore Error α} (reads : Fallible.Keeps SqliteStore.Untouched x) :
    Fallible.Keeps Same (AppState.onStore x) := by
  intro app
  have same : (x app.store).2 = app.store := reads app.store
  change { app with store := (x app.store).2 } = app
  rw [same]

theorem keeping_read {x : Fallible AppState Error α} (reads : Fallible.Keeps Same x)
    (learns : ∀ t a, t.Consistent deps → Later s t → x t.app = (.ok a, t.app) → P a t) :
    Keeping deps P (onApp x) s := by
  refine keeping_onApp (silent_read reads) fun t a app consistent later run => ?_
  have same : app = t.app := by
    have kept : (x t.app).2 = t.app := reads t.app
    rwa [run] at kept
  subst same
  exact learns t a consistent later run

theorem quiet_count (bump : ServiceMetrics → ServiceMetrics) : Quiet s { s with metrics := bump s.metrics } :=
  ⟨rfl, rfl, rfl, fun _ _ => id, rfl⟩

theorem keeping_count (bump : ServiceMetrics → ServiceMetrics) : Keeping deps (fun _ _ => True) (count bump) s := by
  refine keeping_atomic (fun t consistent _ => ?_) fun _ _ _ _ _ _ => trivial
  exact ⟨(quiet_count bump).consistent consistent, (quiet_count bump).later⟩

theorem keeping_bailIf {p : Prop} [Decidable p] {message : String} :
    Keeping deps (fun _ _ => True) (bailIf p message) s := keeping_settle fun _ _ => trivial

theorem keeping_required {value : Option α} {message : String} :
    Keeping deps (fun a _ => value = some a) (required value message) s := by
  refine keeping_settle fun a given => ?_
  cases value with
  | none => cases given
  | some b => exact congrArg some (Except.ok.inj given)

end Actions

section Appending

theorem keeping_checkParents : Keeping deps
    (fun _ t => ∀ parent ∈ commit.parentCommitIds, parent ∈ t.app.dag.parents) (checkParents commit) s := by
  refine keeping_read (fun _ => rfl) fun t _ _ _ run parent edge => ?_
  have checked := (Prod.mk.inj run).1
  cases fits : DagIndex.checkParents t.app.dag.parents commit.commitId commit.parentCommitIds with
  | error refusal =>
    rw [fits] at checked
    cases checked
  | ok => exact (DagIndex.checkParents_eq_ok_iff.1 fits parent edge).1

theorem keeping_writeParents (named : commit.Sealed deps)
    (parents : ∀ parent ∈ commit.parentCommitIds, parent ∈ s.app.dag.parents) :
    Keeping deps (fun _ t => commit ∈ t.indexed) (writeParents commit) s := by
  refine keeping_atomic (fun t consistent later => ?_) fun t _ u _ _ run => ?_
  · exact ⟨consistent.withParents named fun parent edge => later.known _ (parents parent edge), later_withParents⟩
  · obtain ⟨_, rfl⟩ := modify_eq_iff.1 run
    simp

theorem keeping_appendToDag (named : commit.Sealed deps) :
    Keeping deps (fun _ t => commit ∈ t.indexed) (appendToDag commit) s := by
  refine keeping_bailIf.bind fun _ _ _ _ => keeping_bailIf.bind fun _ _ _ _ =>
    keeping_checkParents.bind fun _ _ parents _ => (keeping_writeParents named parents).bind fun _ t indexed _ => ?_
  refine keeping_onApp ?_ fun u _ app _ later run => ?_
  · exact fun app => ⟨rfl, rfl, rfl, fun _ _ => id⟩
  · exact later.indexed indexed

end Appending

section Records

theorem keeping_onStore {α : Type} {x : Fallible SqliteStore Error α} (keeps : Fallible.Keeps SameTables x) :
    Keeping deps (fun _ _ => True) (onStore x) s := keeping_silent (silent_onStore keeps)

theorem keeping_appendCommit (indexed : commit ∈ s.indexed) :
    Keeping deps (fun _ t => t.Stores commit.commitId) (onStore (SqliteStore.appendCommit ambient commit)) s := by
  refine keeping_atomic (fun t consistent later => ?_) fun t _ u _ _ run => ?_
  · obtain ⟨r, store, run⟩ : ∃ r store, SqliteStore.appendCommit ambient commit t.app.store = (r, store) := ⟨_, _, rfl⟩
    rw [onStore_run run]
    rcases SqliteStore.appendCommit_cases run with ⟨_, _, rfl⟩ | ⟨_, _, rfl⟩
    · exact ⟨consistent, Later.refl t⟩
    · exact ⟨consistent.withCommit (later.indexed indexed), later_withCommit⟩
  · obtain ⟨app, inner, rfl⟩ := onApp_eq_iff.1 run
    obtain ⟨store, called, rfl⟩ := AppState.onStore_eq_iff.1 inner
    rcases SqliteStore.appendCommit_cases called with ⟨_, failed, _⟩ | ⟨_, _, rfl⟩
    · cases failed
    · exact stores_withCommit (s := t)

theorem keeping_setHead {lineage : Lineage} {commitId : String} (stores : s.Stores commitId) :
    Keeping deps (fun _ _ => True) (onStore (SqliteStore.setHead ambient lineage commitId)) s := by
  refine keeping_atomic (fun t consistent later => ?_) fun _ _ _ _ _ _ => trivial
  obtain ⟨r, store, run⟩ : ∃ r store, SqliteStore.setHead ambient lineage commitId t.app.store = (r, store) :=
    ⟨_, _, rfl⟩
  rw [onStore_run run]
  rcases SqliteStore.setHead_cases run with ⟨_, _, rfl⟩ | ⟨_, _, rfl⟩
  · exact ⟨consistent, Later.refl t⟩
  · exact ⟨consistent.withHead (stores.later later), later_withHead⟩

/-- The commit has been persisted. -/
def Persisted (commit : Commit) (daemon : Daemon) : Prop := commit ∈ daemon.indexed ∧ daemon.Stores commit.commitId

theorem Persisted.later (persisted : Persisted commit s) (later : Later s t) : Persisted commit t :=
  ⟨later.indexed persisted.1, persisted.2.later later⟩

theorem keeping_persistCommit (named : commit.Sealed deps) :
    Keeping deps (fun _ t => Persisted commit t) (persistCommit ambient commit) s := by
  refine (keeping_appendToDag named).bind fun _ _ indexed _ => (keeping_appendCommit indexed).bind
    fun _ _ stores after => (keeping_setHead stores).bind fun _ t _ onward => ?_
  refine ((keeping_count _).later Later.trans (Later.refl t)).mono fun outcome u held => ?_
  cases outcome with
  | error e => trivial
  | ok => exact Persisted.later ⟨onward.indexed (after.indexed indexed), stores.later onward⟩ held.2

theorem keeping_broadcast {delta : StateDelta} {commitId : String}
    (told : commitId ≠ "" → s.Stores commitId ∧
      ∃ commit ∈ s.indexed, commit.commitId = commitId ∧ commit.deltaId = delta.deltaId) :
    Keeping deps (fun _ _ => True) (broadcast delta commitId) s := by
  have spoken : Keeping deps (fun _ _ => True) (onApp (AppState.broadcast delta commitId)) s := by
    refine keeping_atomic (fun t consistent later => ⟨?_, later_withBroadcast⟩) fun _ _ _ _ _ _ => trivial
    refine consistent.withBroadcast fun given => ?_
    obtain ⟨stores, other, inside, same⟩ := told given
    exact ⟨stores.later later, other, later.indexed inside, same⟩
  refine spoken.bind fun _ _ _ _ => (keeping_count _).bind fun _ _ _ _ => ?_
  split
  · exact keeping_count _
  · exact keeping_count _

theorem keeping_reportLoop (found : Option LoopWarning) :
    Keeping deps (fun _ _ => True) (reportLoop deps ambient found) s := by
  cases found with
  | none => exact keeping_pure trivial
  | some warning =>
    exact (keeping_onStore (AppState.appendLoopWarning_keeps warning)).bind fun _ _ _ _ =>
      (keeping_count _).bind fun _ _ _ _ => keeping_broadcast fun given => absurd rfl given

theorem keeping_inspectLoop : Keeping deps (fun _ _ => True) (inspectLoop deps config ambient commit) s := by
  rw [inspectLoop]
  split
  · exact keeping_pure trivial
  · exact (keeping_silent fun app => ⟨rfl, rfl, rfl, fun _ _ => id⟩).bind fun found _ _ _ => keeping_reportLoop found

theorem keeping_record {delta : StateDelta} (named : commit.Sealed deps) (same : commit.deltaId = delta.deltaId) :
    Keeping deps (fun _ t => Persisted commit t) (record deps config ambient delta commit) s := by
  refine (keeping_persistCommit named).bind fun _ _ persisted _ => ?_
  have told : Keeping deps (fun _ _ => True) (broadcast delta commit.commitId) _ :=
    keeping_broadcast fun _ => ⟨persisted.2, commit, persisted.1, rfl, same⟩
  refine told.bind fun _ t _ after => ?_
  refine (keeping_inspectLoop.later Later.trans (Later.refl t)).mono fun outcome u held => ?_
  cases outcome with
  | error e => trivial
  | ok => exact persisted.later (after.trans _ _ _ held.2)

theorem maybeCompress_keeps (bytes : Bytes) :
    Fallible.Keeps SameTables (SqliteStore.maybeCompress deps config ambient bytes) :=
  .ite (.pure .refl _) (.bind .trans (SqliteStore.attempt_keeps _) fun _ => .pure .refl _)

theorem writeFile_keeps (path : String) (bytes : Bytes) :
    Fallible.Keeps SameTables (SqliteStore.writeFile ambient path bytes) :=
  .bind .trans (SqliteStore.attempt_keeps _) fun _ =>
    .bind .trans (.modify fun _ => ⟨rfl, rfl⟩) fun _ => SqliteStore.attempt_keeps _

theorem keeping_putArtifact {bytes : Bytes} {mediaType : String} :
    Keeping deps (fun _ _ => True) (putArtifact deps config ambient bytes mediaType) s := by
  refine (keeping_onStore (SqliteStore.attempt_keeps _)).bind fun _ _ _ _ =>
    (keeping_onStore (maybeCompress_keeps _)).bind fun _ _ _ _ =>
      (keeping_onStore (writeFile_keeps _ _)).bind fun _ _ _ _ => ?_
  refine Keeping.bind (P := fun _ _ => True) (keeping_onStore ?_) fun _ _ _ _ => keeping_pure trivial
  exact .bind .trans (SqliteStore.attempt_keeps _) fun _ => .modify fun _ => ⟨rfl, rfl⟩

theorem keeping_preparePayload {payload : Option Payload} :
    Keeping deps (fun _ _ => True) (preparePayload deps config ambient payload) s := by
  rw [preparePayload]
  obtain ⟨kept, report⟩ := AppState.redactedPayload deps config payload
  dsimp only
  split
  · exact keeping_putArtifact.bind fun _ _ _ _ => (keeping_count _).bind fun _ _ _ _ => keeping_pure trivial
  · exact keeping_pure trivial

theorem resolveParents_reads {delta : StateDelta} {explicitParents : List String} :
    Fallible.Keeps Same (AppState.resolveParents ambient delta explicitParents) := by
  have head : Fallible.Keeps SqliteStore.Untouched (SqliteStore.getHead ambient delta.lineage) :=
    .bind SqliteStore.Untouched.trans (.ensure .refl _ _) fun _ =>
      .bind SqliteStore.Untouched.trans (.get .refl) fun _ => .pure .refl _
  exact .ite (.pure .refl _) (.bind .trans (same_onStore head) fun _ => .pure .refl _)

theorem keeping_resolveParents {delta : StateDelta} {explicitParents : List String} :
    Keeping deps (fun parents _ => explicitParents ≠ [] → parents = explicitParents)
      (resolveParents ambient delta explicitParents) s := by
  refine keeping_read resolveParents_reads fun t parents _ _ run given => ?_
  rw [AppState.resolveParents, if_pos given] at run
  exact (Except.ok.inj (Prod.mk.inj run).1).symm

theorem ensureChannelPermission_reads {agentId scope : String} :
    Fallible.Keeps Same (AppState.ensureChannelPermission config agentId scope) :=
  .ite (.pure .refl _) (.bind .trans (.get .refl) fun _ => .ensure .refl _ _)

theorem keeping_ensureChannelPermission {agentId scope : String} :
    Keeping deps (fun _ _ => True) (onApp (AppState.ensureChannelPermission config agentId scope)) s :=
  keeping_silent (silent_read ensureChannelPermission_reads)

/-- The daemon has the commit that it speaks of, with what the request stated of it. -/
def Holds (daemon : Daemon) (commitId deltaId : String) (lineage : Lineage) (parents : List String) : Prop :=
  daemon.Stores commitId ∧ ∃ commit ∈ daemon.indexed, commit.commitId = commitId ∧ commit.deltaId = deltaId ∧
    commit.lineage = lineage ∧ (parents ≠ [] → commit.parentCommitIds = parents)

theorem Holds.later {commitId deltaId : String} {lineage : Lineage} {parents : List String}
    (holds : s.Holds commitId deltaId lineage parents) (later : Later s t) : t.Holds commitId deltaId lineage parents := by
  obtain ⟨stores, commit, inside, told⟩ := holds
  exact ⟨stores.later later, commit, later.indexed inside, told⟩

theorem keeping_publishDeltaInner {request : PublishDeltaRequest} : Keeping deps
    (fun response t => response.persisted = true → ∃ delta, request.delta = some delta ∧
      t.Holds response.commitId response.deltaId delta.lineage request.parentCommitIds)
    (publishDeltaInner deps config ambient request) s := by
  refine keeping_required.bind fun delta _ given _ => ?_
  refine keeping_ensureChannelPermission.bind fun _ _ _ _ => ?_
  refine keeping_preparePayload.bind fun prepared _ _ _ => ?_
  obtain ⟨payload, report, artifacts⟩ := prepared
  dsimp only
  split
  · exact (keeping_broadcast fun named => absurd rfl named).bind fun _ _ _ _ => keeping_pure fun persisted => by
      cases persisted
  · refine keeping_resolveParents.bind fun parents _ explicit _ => ?_
    refine (keeping_record fromDelta_sealed rfl).bind fun _ u persisted _ => keeping_pure fun _ => ?_
    exact ⟨delta, given, persisted.2, _, persisted.1, rfl, rfl, rfl, explicit⟩

theorem keeping_checkpointInner {request : CheckpointRequest} : Keeping deps
    (fun response t => t.Holds response.commitId response.deltaId request.lineage request.parentCommitIds)
    (checkpointInner deps config ambient request) s := by
  refine keeping_ensureChannelPermission.bind fun _ _ _ _ => ?_
  refine keeping_preparePayload.bind fun prepared _ _ _ => ?_
  obtain ⟨payload, report, artifacts⟩ := prepared
  dsimp only
  refine keeping_resolveParents.bind fun parents _ explicit _ => ?_
  refine (keeping_record fromDelta_sealed rfl).bind fun _ u persisted _ => keeping_pure ?_
  exact ⟨persisted.2, _, persisted.1, rfl, rfl, rfl, explicit⟩

end Records

section Moves

theorem getCommit_reads (call : StoreCall) (commitId : String) :
    Fallible.Keeps Same (AppState.onStore (SqliteStore.getCommit ambient call commitId)) :=
  same_onStore (SqliteStore.getCommit_keeps call commitId)

/-- What a read finds is stored under the name that was asked for, and under its own. -/
theorem keeping_getCommit {call : StoreCall} {commitId : String} : Keeping deps
    (fun found t => ∀ commit, found = some commit → t.Stores commitId ∧ commit.commitId = commitId)
    (onStore (SqliteStore.getCommit ambient call commitId)) s := by
  refine keeping_read (getCommit_reads call commitId) fun t found consistent _ run commit some => ?_
  obtain ⟨store, called, _⟩ := AppState.onStore_eq_iff.1 run
  obtain ⟨_, read, _⟩ := SqliteStore.getCommit_eq_ok_iff.1 called
  have stored := read.symm.trans some
  exact ⟨⟨commit, stored⟩, (consistent.keyed.getCommit_eq_some_iff.mp stored).2⟩

/-- A commit that has to be there -/
theorem keeping_getRequired {α : Type} {R : α → Daemon → Prop} {call : StoreCall} {commitId message : String}
    {f : Commit → Activity α}
    (rest : ∀ commit t, t.Stores commitId → commit.commitId = commitId → Later s t → Keeping deps R (f commit) t) :
    Keeping deps R (do
      let found ← onStore (SqliteStore.getCommit ambient call commitId)
      let commit ← required found message
      f commit) s := by
  refine keeping_getCommit.bind fun found t read later => keeping_required.bind fun commit u given after => ?_
  obtain ⟨stores, named⟩ := read commit given
  exact rest commit u (stores.later after) named (later.trans _ _ _ after)

theorem keeping_collectWarnings (target : String) (ids : List String) :
    Keeping deps (fun _ _ => True) (collectWarnings ambient target ids) s := by
  induction ids generalizing s with
  | nil => exact keeping_pure trivial
  | cons commitId rest ih =>
    rw [collectWarnings]
    split
    · exact keeping_pure trivial
    · exact (keeping_silent (silent_read (getCommit_reads _ _))).bind fun _ _ _ _ =>
        Keeping.bind (P := fun _ _ => True) ih fun _ _ _ _ => keeping_pure trivial

theorem keeping_appendEvent {eventType : String} {payloadJson : Bytes} :
    Keeping deps (fun _ _ => True) (appendEvent ambient eventType payloadJson) s := by
  refine (keeping_onStore ?_).bind fun _ _ _ _ => ?_
  · exact .bind .trans (SqliteStore.attempt_keeps _) fun _ => .modify fun _ => ⟨rfl, rfl⟩
  · split
    · exact keeping_onStore (.bind .trans (SqliteStore.attempt_keeps _) fun _ => .modify fun _ => ⟨rfl, rfl⟩)
    · exact keeping_pure trivial

theorem keeping_checkAncestor {request : RollbackRequest} :
    Keeping deps (fun _ _ => True) (checkAncestor request) s := by
  rw [checkAncestor]
  split
  · exact keeping_pure trivial
  · exact keeping_silent (silent_read (.bind .trans (.get .refl) fun _ => .ensure .refl _ _))

theorem keeping_rollbackInner {request : RollbackRequest} : Keeping deps
    (fun response t => t.Stores response.previousHeadCommitId ∧ t.Stores response.newHeadCommitId)
    (rollbackInner deps ambient request) s := by
  refine keeping_checkAncestor.bind fun _ _ _ _ => keeping_getRequired fun head _ heads _ _ =>
    keeping_getRequired fun target _ targets named afterHead => ?_
  have reads : Fallible.Keeps Same (do
      let state ← Fallible.get
      pure (state.dag.ancestry request.headCommitId) : Fallible AppState Error (List String)) :=
    .bind .trans (.get .refl) fun _ => .pure .refl _
  refine (keeping_silent (silent_read reads)).bind fun walk _ _ afterTarget =>
    (keeping_collectWarnings _ _).bind fun warnings _ _ afterWalk => ?_
  have afterReads := afterTarget.trans _ _ _ afterWalk
  refine (keeping_setHead (named ▸ targets.later afterReads)).bind fun _ _ _ afterHead' =>
    keeping_appendEvent.bind fun _ _ _ afterEvent => keeping_pure ?_
  have afterAll := afterReads.trans _ _ _ (afterHead'.trans _ _ _ afterEvent)
  exact ⟨heads.later (afterHead.trans _ _ _ afterAll), targets.later afterAll⟩

theorem keeping_forkInner {request : ForkRequest} : Keeping deps (fun response t => t.Stores response.headCommitId)
    (forkInner deps ambient request) s := by
  refine keeping_getRequired fun source _ stores named _ => ?_
  refine (keeping_setHead (named ▸ stores)).bind fun _ _ _ after => keeping_appendEvent.bind fun _ _ _ later =>
    keeping_pure (stores.later (after.trans _ _ _ later))

theorem keeping_registerAgentInner {request : RegisterAgentRequest} :
    Keeping deps (fun _ _ => True) (registerAgentInner config request) s := by
  refine (keeping_silent fun app => ⟨rfl, rfl, rfl, fun _ _ => id⟩).bind fun _ _ _ _ =>
    (keeping_silent fun app => ⟨rfl, rfl, rfl, fun delta commitId member => ?_⟩).bind fun _ _ _ _ =>
      keeping_pure trivial
  rcases List.mem_append.mp member with old | new
  · exact old
  · cases List.mem_singleton.mp new

end Moves

/-- What an answer says of the ledger -/
def Told (call : Call) (response : Response) (daemon : Daemon) : Prop :=
  match call.request, response with
  | .publishDelta request, .publishDelta response => response.persisted = true →
      ∃ delta, request.delta = some delta ∧
        daemon.Holds response.commitId response.deltaId delta.lineage request.parentCommitIds
  | .checkpoint request, .checkpoint response =>
      daemon.Holds response.commitId response.deltaId request.lineage request.parentCommitIds
  | .rollback _, .rollback response =>
      daemon.Stores response.previousHeadCommitId ∧ daemon.Stores response.newHeadCommitId
  | .fork _, .fork response => daemon.Stores response.headCommitId
  | _, _ => True

theorem keeping_serve (call : Call) : Keeping deps (Told call) (serve deps config call) s := by
  obtain ⟨request, ambient⟩ := call
  cases request with
  | registerAgent request => exact keeping_registerAgentInner.bind fun _ _ _ _ => keeping_pure trivial
  | publishDelta request => exact keeping_publishDeltaInner.bind fun _ _ told _ => keeping_pure told
  | checkpoint request => exact keeping_checkpointInner.bind fun _ _ told _ => keeping_pure told
  | rollback request => exact keeping_rollbackInner.bind fun _ _ told _ => keeping_pure told
  | fork request => exact keeping_forkInner.bind fun _ _ told _ => keeping_pure told

end Daemon

end AttowNexus
