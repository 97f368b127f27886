import AttowNexus.Proofs.Service
import AttowNexus.Proofs.DagIndex

/-! # The effect of a call on the ledger

Recording a commit, a rollback and a fork each have a handful of outcomes, told apart by how far the
writes got. Every call is one of them or leaves the ledger alone, so invariants of the ledger need
only its single writes, and statements about a call need only its outcomes.
-/

namespace AttowNexus

open SuccGraph Fallible AppState

namespace Ledger

/-- How far recording a commit gets, and whether the call succeeds in the end. -/
inductive Recorded (ambient : Ambient) (commit : Commit) (start : Ledger) : Bool → Ledger → Prop
  | refused (refuses : ¬ start.dag.Accepts commit) : Recorded ambient commit start false start
  | unstored (accepts : start.dag.Accepts commit) (fails : ambient.fails .appendCommit = true) :
      Recorded ambient commit start false (start.index commit)
  | headless (accepts : start.dag.Accepts commit) (stores : ambient.fails .appendCommit = false)
      (fails : ambient.fails .setHead = true) :
      Recorded ambient commit start false ((start.index commit).append commit)
  | persisted (accepts : start.dag.Accepts commit) (stores : ambient.fails .appendCommit = false)
      (moves : ambient.fails .setHead = false) (succeeds : Bool) :
      Recorded ambient commit start succeeds (start.persist commit)

/-- The part of the ancestry that a rollback walks. -/
def walk (ledger : Ledger) (request : RollbackRequest) : List String :=
  (ledger.dag.ancestry request.headCommitId).takeWhile (· ≠ request.targetCommitId)

/-- The warnings of a rollback. -/
def warnings (ledger : Ledger) (request : RollbackRequest) : List String :=
  (ledger.walk request).flatMap fun commitId => commitWarnings (ledger.tables.getCommit commitId)

/-- What a rollback needs to get as far as its writes. -/
structure AdmitsRollback (ledger : Ledger) (ambient : Ambient) (request : RollbackRequest)
    (head target : Commit) : Prop where
  allowed : request.force = true ∨
    ledger.dag.isAncestor request.targetCommitId request.headCommitId = true
  readsHead : ambient.fails .getHeadCommit = false
  head : ledger.tables.getCommit request.headCommitId = some head
  readsTarget : ambient.fails .getTargetCommit = false
  target : ledger.tables.getCommit request.targetCommitId = some target
  walks : ∀ commitId ∈ ledger.walk request, ambient.fails (.getWalkCommit commitId) = false

/-- Without force the target has to be below the head commit. -/
theorem AdmitsRollback.reach {ledger : Ledger} {ambient : Ambient} {request : RollbackRequest} {head target : Commit}
    (admits : ledger.AdmitsRollback ambient request head target) (plain : request.force = false) :
    Reach ledger.dag.parents.next request.headCommitId request.targetCommitId := by
  rcases admits.allowed with forced | ancestor
  · exact absurd (plain.symm.trans forced) Bool.false_ne_true
  · exact DagIndex.isAncestor_iff.1 ancestor

/-- The outcomes of a rollback. -/
inductive RolledBack (ambient : Ambient) (request : RollbackRequest) (start : Ledger) :
    Except Error RollbackResponse → Ledger → Prop
  | rejected (rejects : ∀ head target, ¬ start.AdmitsRollback ambient request head target) (error : Error) :
      RolledBack ambient request start (.error error) start
  | headless {head target : Commit} (admits : start.AdmitsRollback ambient request head target)
      (fails : ambient.fails .setHead = true) (error : Error) :
      RolledBack ambient request start (.error error) start
  | unlogged {head target : Commit} (admits : start.AdmitsRollback ambient request head target)
      (moves : ambient.fails .setHead = false) (error : Error) :
      RolledBack ambient request start (.error error) (start.setHead head.lineage target.commitId)
  | moved {head target : Commit} (admits : start.AdmitsRollback ambient request head target)
      (moves : ambient.fails .setHead = false) :
      RolledBack ambient request start
        (.ok ⟨true, request.headCommitId, request.targetCommitId, start.warnings request⟩)
        (start.setHead head.lineage target.commitId)

/-- What a fork needs to get as far as its writes. -/
structure AdmitsFork (ledger : Ledger) (ambient : Ambient) (request : ForkRequest) (source : Commit) : Prop where
  readsSource : ambient.fails .getSourceCommit = false
  source : ledger.tables.getCommit request.sourceCommitId = some source

/-- The lineage whose head a fork writes. -/
def forkLineage (ambient : Ambient) (request : ForkRequest) (source : Commit) : Lineage :=
  { source.lineage with runId := forkRunId ambient request }

/-- The outcomes of a fork. -/
inductive Forked (ambient : Ambient) (request : ForkRequest) (start : Ledger) :
    Except Error ForkResult → Ledger → Prop
  | rejected (rejects : ∀ source, ¬ start.AdmitsFork ambient request source) (error : Error) :
      Forked ambient request start (.error error) start
  | headless {source : Commit} (admits : start.AdmitsFork ambient request source)
      (fails : ambient.fails .setHead = true) (error : Error) :
      Forked ambient request start (.error error) start
  | unlogged {source : Commit} (admits : start.AdmitsFork ambient request source)
      (moves : ambient.fails .setHead = false) (error : Error) :
      Forked ambient request start (.error error)
        (start.setHead (forkLineage ambient request source) source.commitId)
  | moved {source : Commit} (admits : start.AdmitsFork ambient request source)
      (moves : ambient.fails .setHead = false) :
      Forked ambient request start
        (.ok ⟨request.sourceCommitId, forkRunId ambient request, request.sourceCommitId⟩)
        (start.setHead (forkLineage ambient request source) source.commitId)

end Ledger

namespace SqliteStore

variable {deps : External} {ambient : Ambient} {store finish : SqliteStore}

theorem setHead_cases {lineage : Lineage} {commitId : String} {r : Except Error Unit}
    (run : setHead ambient lineage commitId store = (r, finish)) :
    (ambient.fails .setHead = true ∧ r = .error (.store .setHead) ∧ finish = store) ∨
    (ambient.fails .setHead = false ∧ r = .ok () ∧
      finish = { store with heads := moveHead lineage commitId store.heads }) := by
  cases r with
  | error error =>
    simp only [setHead, bind_eq_error_iff, Ambient.attempt_eq_iff, modify_eq_iff] at run
    cases failing : ambient.fails .setHead <;> simp_all
  | ok =>
    simp only [setHead, bind_eq_ok_iff, attempt_eq_ok_iff, modify_eq_iff] at run
    obtain ⟨_, _, ⟨works, rfl⟩, _, rfl⟩ := run
    exact .inr ⟨works, rfl, rfl⟩

theorem appendCommit_cases {commit : Commit} {r : Except Error Unit}
    (run : appendCommit ambient commit store = (r, finish)) :
    (ambient.fails .appendCommit = true ∧ r = .error (.store .appendCommit) ∧ finish = store) ∨
    (ambient.fails .appendCommit = false ∧ r = .ok () ∧
      finish = { store with tables := store.tables.appendCommit commit }) := by
  cases r with
  | error error =>
    simp only [appendCommit, bind_eq_error_iff, Ambient.attempt_eq_iff, modify_eq_iff] at run
    cases failing : ambient.fails .appendCommit <;> simp_all
  | ok =>
    simp only [appendCommit, bind_eq_ok_iff, attempt_eq_ok_iff, modify_eq_iff] at run
    obtain ⟨_, _, ⟨works, rfl⟩, _, rfl⟩ := run
    exact .inr ⟨works, rfl, rfl⟩

theorem setHead_ok {lineage : Lineage} {commitId : String} (moves : ambient.fails .setHead = false) :
    setHead ambient lineage commitId store =
      (.ok (), { store with heads := moveHead lineage commitId store.heads }) := by
  obtain ⟨r, finish, run⟩ : ∃ r finish, setHead ambient lineage commitId store = (r, finish) := ⟨_, _, rfl⟩
  rcases setHead_cases run with ⟨fails, _⟩ | ⟨_, rfl, rfl⟩
  · exact absurd (fails.symm.trans moves) nofun
  · exact run

theorem appendCommit_ok {commit : Commit} (stores : ambient.fails .appendCommit = false) :
    appendCommit ambient commit store = (.ok (), { store with tables := store.tables.appendCommit commit }) := by
  obtain ⟨r, finish, run⟩ : ∃ r finish, appendCommit ambient commit store = (r, finish) := ⟨_, _, rfl⟩
  rcases appendCommit_cases run with ⟨fails, _⟩ | ⟨_, rfl, rfl⟩
  · exact absurd (fails.symm.trans stores) nofun
  · exact run

theorem getCommit_eq_ok_iff {call : StoreCall} {commitId : String} {found : Option Commit} :
    getCommit ambient call commitId store = (.ok found, finish) ↔
      ambient.fails call = false ∧ found = store.tables.getCommit commitId ∧ finish = store := by
  simp only [getCommit, bind_eq_ok_iff, attempt_eq_ok_iff, get_eq_iff, pure_eq_iff, Except.ok.injEq]
  constructor
  · rintro ⟨_, _, ⟨works, rfl⟩, _, _, ⟨rfl, rfl⟩, rfl, rfl⟩
    exact ⟨works, rfl, rfl⟩
  · rintro ⟨works, rfl, rfl⟩
    exact ⟨(), _, ⟨works, rfl⟩, _, _, ⟨rfl, rfl⟩, rfl, rfl⟩

/-- The store is only read. -/
def Untouched (s t : SqliteStore) : Prop := t = s

theorem Untouched.refl (s : SqliteStore) : Untouched s s := rfl

theorem Untouched.trans (s t u : SqliteStore) (first : Untouched s t) (second : Untouched t u) :
    Untouched s u := Eq.trans second first

theorem getCommit_keeps (call : StoreCall) (commitId : String) :
    Keeps Untouched (getCommit ambient call commitId) :=
  .bind .trans (.ensure .refl _ _) fun _ =>
    .bind .trans (.get fun _ => rfl) fun _ => .pure .refl _

theorem collectWarnings_keeps (target : String) (ids : List String) :
    Keeps Untouched (collectWarnings ambient target ids) := by
  induction ids with
  | nil => exact .pure .refl _
  | cons commitId rest ih =>
    exact .ite (.pure .refl _) (.bind .trans (getCommit_keeps _ _) fun _ =>
      .bind .trans ih fun _ => .pure .refl _)

/-- The loop reads the ids before the target and collects their warnings in order. -/
theorem collectWarnings_eq_ok_iff {target : String} {ids warnings : List String} :
    collectWarnings ambient target ids store = (.ok warnings, finish) ↔
      (∀ commitId ∈ ids.takeWhile (· ≠ target), ambient.fails (.getWalkCommit commitId) = false) ∧
      warnings = (ids.takeWhile (· ≠ target)).flatMap
        (fun commitId => commitWarnings (store.tables.getCommit commitId)) ∧ finish = store := by
  induction ids generalizing warnings finish with
  | nil => simp [collectWarnings]
  | cons commitId rest ih =>
    rw [collectWarnings]
    by_cases here : commitId = target
    · simp [here]
    · rw [if_neg here, List.takeWhile_cons_of_pos (by simpa using here), List.forall_mem_cons, List.flatMap_cons]
      simp only [bind_eq_ok_iff, getCommit_eq_ok_iff, pure_eq_iff, Except.ok.injEq]
      constructor
      · rintro ⟨_, _, ⟨works, rfl, rfl⟩, later, _, run, rfl, rfl⟩
        obtain ⟨others, rfl, rfl⟩ := ih.mp run
        exact ⟨⟨works, others⟩, rfl, rfl⟩
      · rintro ⟨⟨works, others⟩, rfl, rfl⟩
        exact ⟨_, _, ⟨works, rfl, rfl⟩, _, _, ih.mpr ⟨others, rfl, rfl⟩, rfl, rfl⟩

theorem planRollback_keeps (dag : DagIndex) (request : RollbackRequest) :
    Keeps Untouched (planRollback ambient dag request) := by
  refine .ite (.fail .refl _) (.bind .trans (getCommit_keeps _ _) fun _ =>
    .bind .trans (.lift .refl _) fun _ => .bind .trans (getCommit_keeps _ _) fun _ =>
    .bind .trans (.lift .refl _) fun _ => ?_)
  exact .bind .trans (collectWarnings_keeps _ _) fun _ => .pure .refl _

theorem appendEvent_keeps (eventType : String) (payloadJson : Bytes) :
    Keeps SameTables (appendEvent ambient eventType payloadJson) := by
  refine .bind .trans (attempt_keeps _) fun _ => .bind .trans (.modify fun _ => ⟨rfl, rfl⟩) fun _ =>
    .ite ?_ (.pure .refl _)
  exact .bind .trans (attempt_keeps _) fun _ => .modify fun _ => ⟨rfl, rfl⟩

/-- The writes that rollback and fork share: move a head, log it, answer. -/
theorem move_cases {lineage : Lineage} {commitId eventType : String} {payloadJson : Bytes} {α : Type}
    {response : α} {r : Except Error α}
    (run : (do
      setHead ambient lineage commitId
      appendEvent ambient eventType payloadJson
      pure response) store = (r, finish)) :
    (ambient.fails .setHead = true ∧ (∃ error, r = .error error) ∧ finish = store) ∨
    (ambient.fails .setHead = false ∧ finish.tables = store.tables ∧
      finish.heads = moveHead lineage commitId store.heads ∧ (r = .ok response ∨ ∃ error, r = .error error)) := by
  obtain ⟨moved, after, set⟩ : ∃ moved after, setHead ambient lineage commitId store = (moved, after) :=
    ⟨_, _, rfl⟩
  rcases setHead_cases set with ⟨fails, rfl, rfl⟩ | ⟨moves, rfl, rfl⟩
  · rw [bind_of_error set] at run
    obtain ⟨rfl, rfl⟩ := Prod.mk.inj run
    exact .inl ⟨fails, ⟨_, rfl⟩, rfl⟩
  · rw [bind_of_ok set] at run
    have kept : SameTables _ (appendEvent ambient eventType payloadJson
      { store with heads := moveHead lineage commitId store.heads }).2 := appendEvent_keeps eventType payloadJson _
    cases r with
    | error error =>
      rcases bind_eq_error_iff.1 run with logged | ⟨_, _, _, impossible⟩
      · rw [logged] at kept
        exact .inr ⟨moves, kept.1, kept.2, .inr ⟨error, rfl⟩⟩
      · exact absurd (Prod.mk.inj impossible).1 nofun
    | ok answer =>
      obtain ⟨_, _, logged, rest⟩ := bind_eq_ok_iff.1 run
      obtain ⟨same, rfl⟩ := pure_eq_iff.1 rest
      rw [logged] at kept
      exact .inr ⟨moves, kept.1, kept.2, .inl same⟩

end SqliteStore

namespace AppState

variable {deps : External} {config : Config} {ambient : Ambient} {s t : AppState}

section Records

theorem appendToDag_cases {commit : Commit} {r : Except Error Unit} (run : appendToDag commit s = (r, t)) :
    (s.dag.Accepts commit ∧ r = .ok () ∧ t = { s with dag := s.dag.record commit }) ∨
    (¬ s.dag.Accepts commit ∧ (∃ error, r = .error error) ∧ t = s) := by
  cases outcome : s.dag.append commit with
  | error refusal =>
    refine .inr ⟨fun accepts => ?_, ?_⟩
    · rw [DagIndex.append_eq_ok_iff.2 ⟨accepts, rfl⟩] at outcome
      exact absurd outcome nofun
    · have failed : appendToDag commit s = (.error (.message refusal), s) := by
        simp only [appendToDag, bind_of_ok (show Fallible.get s = (.ok s, s) from rfl), outcome]
        rfl
      obtain ⟨rfl, rfl⟩ := Prod.mk.inj (failed.symm.trans run)
      exact ⟨⟨_, rfl⟩, rfl⟩
  | ok dag =>
    obtain ⟨accepts, rfl⟩ := DagIndex.append_eq_ok_iff.1 outcome
    have added : appendToDag commit s = (.ok (), { s with dag := s.dag.record commit }) := by
      simp only [appendToDag, bind_of_ok (show Fallible.get s = (.ok s, s) from rfl), outcome]
      rfl
    obtain ⟨rfl, rfl⟩ := Prod.mk.inj (added.symm.trans run)
    exact .inl ⟨accepts, rfl, rfl⟩

/-- Persisting stops at the first of its three writes that fails. -/
theorem persistCommit_recorded {commit : Commit} {r : Except Error Unit}
    (run : persistCommit ambient commit s = (r, t)) :
    Ledger.Recorded ambient commit s.ledger r.isOk t.ledger ∧ (r = .ok () → t.ledger = s.ledger.persist commit) := by
  obtain ⟨added, middle, indexed⟩ : ∃ added middle, appendToDag commit s = (added, middle) := ⟨_, _, rfl⟩
  rcases appendToDag_cases indexed with ⟨accepts, rfl, rfl⟩ | ⟨refuses, ⟨error, rfl⟩, rfl⟩
  · rw [persistCommit, bind_of_ok indexed] at run
    obtain ⟨kept, after, stored⟩ : ∃ kept after, onStore (SqliteStore.appendCommit ambient commit)
      { s with dag := s.dag.record commit } = (kept, after) := ⟨_, _, rfl⟩
    obtain ⟨m, call, rfl⟩ := onStore_eq_iff.1 stored
    rcases SqliteStore.appendCommit_cases call with ⟨fails, rfl, rfl⟩ | ⟨stores, rfl, rfl⟩
    · rw [bind_of_error stored] at run
      obtain ⟨rfl, rfl⟩ := Prod.mk.inj run
      exact ⟨.unstored accepts fails, nofun⟩
    · rw [bind_of_ok stored] at run
      obtain ⟨m, call, rfl⟩ := onStore_eq_iff.1 run
      rcases SqliteStore.setHead_cases call with ⟨fails, rfl, rfl⟩ | ⟨moves, rfl, rfl⟩
      · exact ⟨.headless accepts stores fails, nofun⟩
      · exact ⟨.persisted accepts stores moves true, fun _ => rfl⟩
  · rw [persistCommit, bind_of_error indexed] at run
    obtain ⟨rfl, rfl⟩ := Prod.mk.inj run
    exact ⟨.refused refuses, nofun⟩

/-- An accepted commit is persisted when neither store call fails. -/
theorem persistCommit_of_accepts {commit : Commit} (accepts : s.dag.Accepts commit)
    (stores : ambient.fails .appendCommit = false) (moves : ambient.fails .setHead = false) :
    ∃ t, persistCommit ambient commit s = (.ok (), t) := by
  obtain ⟨added, middle, indexed⟩ : ∃ added middle, appendToDag commit s = (added, middle) := ⟨_, _, rfl⟩
  rcases appendToDag_cases indexed with ⟨_, rfl, rfl⟩ | ⟨refuses, _⟩
  · have stored : onStore (SqliteStore.appendCommit ambient commit) { s with dag := s.dag.record commit } =
        (.ok (), _) := onStore_eq_iff.2 ⟨_, SqliteStore.appendCommit_ok stores, rfl⟩
    rw [persistCommit, bind_of_ok indexed, bind_of_ok stored]
    exact ⟨_, onStore_eq_iff.2 ⟨_, SqliteStore.setHead_ok moves, rfl⟩⟩
  · exact absurd accepts refuses

/-- A commit without parents is accepted by any index. -/
theorem persistCommit_root {commit : Commit} (named : commit.commitId.length = 34) (bare : commit.parentCommitIds = [])
    (stores : ambient.fails .appendCommit = false) (moves : ambient.fails .setHead = false) :
    ∃ t, persistCommit ambient commit s = (.ok (), t) ∧ t.ledger = s.ledger.persist commit := by
  have accepts : s.dag.Accepts commit := by
    refine ⟨?_, ?_, ?_, ?_⟩
    · intro unnamed
      rw [unnamed] at named
      exact absurd named (by decide)
    · simp [bare]
    · simp [bare]
    · simp [bare]
  obtain ⟨t, run⟩ := persistCommit_of_accepts accepts stores moves
  exact ⟨t, run, (persistCommit_recorded run).2 rfl⟩

theorem appendLoopWarning_keeps (warning : LoopWarning) :
    Keeps SameTables (SqliteStore.appendLoopWarning ambient warning) :=
  .bind .trans (SqliteStore.attempt_keeps _) fun _ => .modify fun _ => ⟨rfl, rfl⟩

theorem broadcast_keeps (delta : StateDelta) (commitId : String) : Keeps SameLedger (broadcast delta commitId) :=
  .modify fun _ => rfl

theorem reportLoop_keeps (found : Option LoopWarning) : Keeps SameLedger (reportLoop deps ambient found) := by
  cases found with
  | none => exact Keeps.pure SameLedger.refl ()
  | some warning =>
    exact Keeps.bind SameLedger.trans (onStore_keeps (appendLoopWarning_keeps warning)) fun _ =>
      broadcast_keeps _ _

theorem inspectLoop_keeps (commit : Commit) : Keeps SameLedger (inspectLoop deps config ambient commit) :=
  .ite (.pure .refl _) (.bind .trans (.get .refl) fun _ =>
    .bind .trans (.modify fun _ => rfl) fun _ => reportLoop_keeps _)

/-- What recording does after persisting leaves the ledger alone. -/
theorem record_ledger {plan : Plan} {middle : AppState} {r : Except Error Unit}
    (persisted : persistCommit ambient plan.commit s = (.ok (), middle))
    (run : record deps config ambient plan s = (r, t)) : t.ledger = s.ledger.persist plan.commit := by
  rw [record, bind_of_ok persisted] at run
  have rest : t.ledger = middle.ledger := by
    refine SameLedger.of_run (x := do
      broadcast plan.delta plan.commit.commitId
      inspectLoop deps config ambient plan.commit) ?_ run
    exact .bind .trans (broadcast_keeps _ _) fun _ => inspectLoop_keeps _
  rw [rest, (persistCommit_recorded persisted).2 rfl]

/-- Recording adds to persisting only steps that leave the ledger alone. -/
theorem record_recorded {plan : Plan} {r : Except Error Unit}
    (run : record deps config ambient plan s = (r, t)) :
    Ledger.Recorded ambient plan.commit s.ledger r.isOk t.ledger := by
  obtain ⟨kept, middle, persisted⟩ : ∃ kept middle, persistCommit ambient plan.commit s = (kept, middle) :=
    ⟨_, _, rfl⟩
  obtain ⟨recorded, done⟩ := persistCommit_recorded persisted
  cases kept with
  | error error =>
    rw [record, bind_of_error persisted] at run
    obtain ⟨rfl, rfl⟩ := Prod.mk.inj run
    exact recorded
  | ok =>
    rw [record_ledger persisted run]
    rw [done rfl] at recorded
    generalize finish : s.ledger.persist plan.commit = ledger at recorded
    cases recorded with
    | persisted accepts stores moves => exact finish ▸ .persisted accepts stores moves _

/-- A call that records its plan and then answers. -/
theorem record_answer {α : Type} {plan : Plan} {response : α} {r : Except Error α}
    (run : (do
      record deps config ambient plan
      pure response) s = (r, t)) :
    Ledger.Recorded ambient plan.commit s.ledger r.isOk t.ledger ∧ ∀ answer, r = .ok answer → answer = response := by
  cases r with
  | error error =>
    rcases bind_eq_error_iff.1 run with failed | ⟨_, _, _, impossible⟩
    · exact ⟨record_recorded failed, nofun⟩
    · exact absurd (Prod.mk.inj impossible).1 nofun
  | ok answer =>
    obtain ⟨_, _, recorded, rest⟩ := bind_eq_ok_iff.1 run
    obtain ⟨same, rfl⟩ := pure_eq_iff.1 rest
    exact ⟨record_recorded recorded, fun other given => (Except.ok.inj given).symm.trans (Except.ok.inj same)⟩

end Records

section Moves

/-- Planning a rollback succeeds exactly when it is admitted. -/
theorem planRollback_eq_ok_iff {store finish : SqliteStore} {request : RollbackRequest} {dag : DagIndex}
    {head target : Commit} {warnings : List String} :
    planRollback ambient dag request store = (.ok (head, target, warnings), finish) ↔
      Ledger.AdmitsRollback ⟨dag, store.tables, store.heads⟩ ambient request head target ∧
      warnings = Ledger.warnings ⟨dag, store.tables, store.heads⟩ request ∧ finish = store := by
  have found : ∀ {value : Option Commit} {commit : Commit} {message : String},
      (Except.ok commit : Except Error Commit) = value.elim (.error (.message message)) .ok ↔
        value = some commit := by
    intro value commit message
    cases value <;> simp [eq_comm]
  rw [planRollback]
  by_cases refused : request.force = false ∧ dag.isAncestor request.targetCommitId request.headCommitId = false
  · rw [if_pos refused, fail_eq_iff]
    refine iff_of_false (by simp) fun ⟨admits, _⟩ => ?_
    rcases admits.allowed with forced | ancestor
    · exact Bool.noConfusion (forced.symm.trans refused.1)
    · exact Bool.noConfusion (ancestor.symm.trans refused.2)
  · have allowed : request.force = true ∨ dag.isAncestor request.targetCommitId request.headCommitId = true := by
      simpa only [not_and_or, Bool.not_eq_false] using refused
    rw [if_neg refused]
    simp only [bind_eq_ok_iff, SqliteStore.getCommit_eq_ok_iff, required_eq_iff, found,
      SqliteStore.collectWarnings_eq_ok_iff, pure_eq_iff, Except.ok.injEq, Prod.mk.injEq]
    constructor
    · rintro ⟨_, _, ⟨readsHead, rfl, rfl⟩, _, _, ⟨atHead, rfl⟩, _, _, ⟨readsTarget, rfl, rfl⟩, _, _,
        ⟨atTarget, rfl⟩, _, _, ⟨walks, rfl, rfl⟩, ⟨rfl, rfl, rfl⟩, rfl⟩
      exact ⟨⟨allowed, readsHead, atHead, readsTarget, atTarget, walks⟩, rfl, rfl⟩
    · rintro ⟨admits, rfl, rfl⟩
      exact ⟨_, _, ⟨admits.readsHead, rfl, rfl⟩, _, _, ⟨admits.head, rfl⟩, _, _,
        ⟨admits.readsTarget, rfl, rfl⟩, _, _, ⟨admits.target, rfl⟩, _, _, ⟨admits.walks, rfl, rfl⟩,
        ⟨rfl, rfl, rfl⟩, rfl⟩

theorem rollbackInner_rolledBack {request : RollbackRequest} {r : Except Error RollbackResponse}
    (run : rollbackInner deps ambient request s = (r, t)) :
    Ledger.RolledBack ambient request s.ledger r t.ledger := by
  rw [rollbackInner, bind_of_ok (show Fallible.get s = (.ok s, s) from rfl)] at run
  obtain ⟨store, call, rfl⟩ := onStore_eq_iff.1 run
  obtain ⟨planned, middle, plan⟩ : ∃ planned middle, planRollback ambient s.dag request s.store = (planned, middle) :=
    ⟨_, _, rfl⟩
  obtain rfl : middle = s.store := by
    have kept : (planRollback ambient s.dag request s.store).2 = s.store :=
      SqliteStore.planRollback_keeps _ _ _
    rwa [plan] at kept
  cases planned with
  | error error =>
    rw [rollback, bind_of_error plan] at call
    obtain ⟨rfl, rfl⟩ := Prod.mk.inj call
    refine .rejected (fun head target admits => ?_) error
    have planned := planRollback_eq_ok_iff.2 ⟨admits, rfl, rfl⟩
    exact absurd (Prod.mk.inj (plan.symm.trans planned)).1 nofun
  | ok out =>
    obtain ⟨head, target, warnings⟩ := out
    obtain ⟨admits, rfl, -⟩ := planRollback_eq_ok_iff.1 plan
    rw [rollback, bind_of_ok plan] at call
    rcases SqliteStore.move_cases call with ⟨fails, ⟨error, rfl⟩, rfl⟩ | ⟨moves, tables, heads, result⟩
    · exact .headless admits fails error
    · have same : AppState.ledger { s with store := store } = s.ledger.setHead head.lineage target.commitId :=
        congrArg₂ (Ledger.mk s.dag) tables heads
      rw [same]
      rcases result with rfl | ⟨error, rfl⟩
      · exact .moved admits moves
      · exact .unlogged admits moves error

/-- What a successful rollback had, answers and leaves. -/
theorem rollbackInner_ok {request : RollbackRequest} {response : RollbackResponse}
    (run : rollbackInner deps ambient request s = (.ok response, t)) :
    ∃ head target, s.ledger.AdmitsRollback ambient request head target ∧
      response = ⟨true, request.headCommitId, request.targetCommitId, s.ledger.warnings request⟩ ∧
      t.ledger = s.ledger.setHead head.lineage target.commitId := by
  have outcome := rollbackInner_rolledBack run
  generalize t.ledger = finish at outcome ⊢
  cases outcome with
  | moved admits => exact ⟨_, _, admits, rfl, rfl⟩

theorem forkInner_forked {request : ForkRequest} {r : Except Error ForkResult}
    (run : forkInner deps ambient request s = (r, t)) : Ledger.Forked ambient request s.ledger r t.ledger := by
  obtain ⟨store, call, rfl⟩ := onStore_eq_iff.1 run
  obtain ⟨found, middle, read⟩ : ∃ found middle,
    SqliteStore.getCommit ambient .getSourceCommit request.sourceCommitId s.store = (found, middle) := ⟨_, _, rfl⟩
  obtain rfl : middle = s.store := by
    have kept : (SqliteStore.getCommit ambient .getSourceCommit request.sourceCommitId s.store).2 = s.store :=
      SqliteStore.getCommit_keeps _ _ _
    rwa [read] at kept
  cases found with
  | error error =>
    rw [fork, bind_of_error read] at call
    obtain ⟨rfl, rfl⟩ := Prod.mk.inj call
    refine .rejected (fun source admits => ?_) error
    have works : SqliteStore.getCommit ambient .getSourceCommit request.sourceCommitId s.store =
        (.ok _, s.store) := SqliteStore.getCommit_eq_ok_iff.2 ⟨admits.readsSource, rfl, rfl⟩
    exact absurd (Prod.mk.inj (read.symm.trans works)).1 nofun
  | ok found =>
    obtain ⟨reads, rfl, -⟩ := SqliteStore.getCommit_eq_ok_iff.1 read
    rw [fork, bind_of_ok read] at call
    cases present : s.store.tables.getCommit request.sourceCommitId with
    | none =>
      rw [present, bind_of_error (required_none _ _)] at call
      obtain ⟨rfl, rfl⟩ := Prod.mk.inj call
      refine .rejected (fun source admits => ?_) _
      exact absurd (present.symm.trans admits.source) nofun
    | some source =>
      rw [present, bind_of_ok (required_some _ _ _)] at call
      have admits : s.ledger.AdmitsFork ambient request source := ⟨reads, present⟩
      rcases SqliteStore.move_cases call with ⟨fails, ⟨error, rfl⟩, rfl⟩ | ⟨moves, tables, heads, result⟩
      · exact .headless admits fails error
      · have same : AppState.ledger { s with store := store } =
            s.ledger.setHead (Ledger.forkLineage ambient request source) source.commitId :=
          congrArg₂ (Ledger.mk s.dag) tables heads
        rw [same]
        rcases result with rfl | ⟨error, rfl⟩
        · exact .moved admits moves
        · exact .unlogged admits moves error

/-- What a successful fork had and leaves. -/
theorem forkInner_ok {request : ForkRequest} {result : ForkResult}
    (run : forkInner deps ambient request s = (.ok result, t)) :
    ∃ source, s.ledger.AdmitsFork ambient request source ∧
      t.ledger = s.ledger.setHead (Ledger.forkLineage ambient request source) source.commitId := by
  have outcome := forkInner_forked run
  generalize t.ledger = finish at outcome ⊢
  cases outcome with
  | moved admits => exact ⟨_, admits, rfl⟩

end Moves

section Commits

/-- A publish is not admitted, is only broadcast, or records its commit. -/
theorem publishDeltaInner_cases {request : PublishDeltaRequest} {r : Except Error PublishDeltaResponse}
    (run : publishDeltaInner deps config ambient request s = (r, t)) :
    ((∀ delta, ¬ AdmitsPublish deps config ambient s request delta) ∧ (∃ error, r = .error error) ∧
      t.ledger = s.ledger) ∨
    (∃ delta, AdmitsPublish deps config ambient s request delta ∧ ¬ Persists config delta ∧
      (∃ response, r = .ok response ∧ response.commitId = "") ∧ t.ledger = s.ledger) ∨
    (∃ delta, AdmitsPublish deps config ambient s request delta ∧ Persists config delta ∧
      Ledger.Recorded ambient (publishCommit deps config ambient s.store.heads request delta) s.ledger
        r.isOk t.ledger ∧
      ∀ response, r = .ok response →
        response.commitId = (publishCommit deps config ambient s.store.heads request delta).commitId) := by
  obtain ⟨planned, middle, plan⟩ : ∃ planned middle,
    planPublish deps config ambient request s = (planned, middle) := ⟨_, _, rfl⟩
  have kept := SameLedger.of_run (planPublish_keeps request) plan
  cases planned with
  | error error =>
    rw [publishDeltaInner, bind_of_error plan] at run
    obtain ⟨rfl, rfl⟩ := Prod.mk.inj run
    refine .inl ⟨fun delta admits => ?_, ⟨error, rfl⟩, kept⟩
    obtain ⟨_, works⟩ := planPublish_eq_ok_iff.2 ⟨delta, admits, rfl⟩
    exact absurd (Prod.mk.inj (plan.symm.trans works)).1 nofun
  | ok out =>
    obtain ⟨delta, admits, rfl⟩ := planPublish_eq_ok_iff.1 ⟨middle, plan⟩
    rw [publishDeltaInner, bind_of_ok plan, publishPlan] at run
    split_ifs at run with ephemeral
    · obtain ⟨rfl, rfl⟩ := Prod.mk.inj run
      exact .inr (.inl ⟨delta, admits, not_persists_iff.1 ephemeral, ⟨_, rfl, rfl⟩, kept⟩)
    · have persists : Persists config delta := not_not.mp fun away => ephemeral (not_persists_iff.2 away)
      refine .inr (.inr ⟨delta, admits, persists, ?_⟩)
      obtain ⟨recorded, answered⟩ := record_answer run
      refine ⟨kept ▸ recorded, fun response given => ?_⟩
      rw [answered response given]

/-- A checkpoint is not admitted or records its commit. -/
theorem checkpointInner_cases {request : CheckpointRequest} {r : Except Error CheckpointResponse}
    (run : checkpointInner deps config ambient request s = (r, t)) :
    (¬ AdmitsCheckpoint deps config ambient s request ∧ (∃ error, r = .error error) ∧ t.ledger = s.ledger) ∨
    (AdmitsCheckpoint deps config ambient s request ∧
      Ledger.Recorded ambient (checkpointCommit deps config ambient s.store.heads request) s.ledger
        r.isOk t.ledger ∧
      ∀ response, r = .ok response →
        response.commitId = (checkpointCommit deps config ambient s.store.heads request).commitId) := by
  obtain ⟨planned, middle, plan⟩ : ∃ planned middle,
    planCheckpoint deps config ambient request s = (planned, middle) := ⟨_, _, rfl⟩
  have kept := SameLedger.of_run (planCheckpoint_keeps request) plan
  cases planned with
  | error error =>
    rw [checkpointInner, bind_of_error plan] at run
    obtain ⟨rfl, rfl⟩ := Prod.mk.inj run
    refine .inl ⟨fun admits => ?_, ⟨error, rfl⟩, kept⟩
    obtain ⟨_, works⟩ := planCheckpoint_eq_ok_iff.2 ⟨admits, rfl⟩
    exact absurd (Prod.mk.inj (plan.symm.trans works)).1 nofun
  | ok out =>
    obtain ⟨admits, rfl⟩ := planCheckpoint_eq_ok_iff.1 ⟨middle, plan⟩
    rw [checkpointInner, bind_of_ok plan] at run
    obtain ⟨recorded, answered⟩ := record_answer run
    refine .inr ⟨admits, kept ▸ recorded, fun response given => ?_⟩
    rw [answered response given]
    rfl

theorem reportLoop_raises (works : ambient.fails .appendLoopWarning = false) (found : Option LoopWarning) :
    Raises (fun _ => False) (reportLoop deps ambient found) := by
  cases found with
  | none => exact Raises.pure ()
  | some warning =>
    have stored : Raises (fun _ => False) (onStore (SqliteStore.appendLoopWarning ambient warning)) :=
      .zoom (.bind (.ensure_of works) fun _ => .modify _)
    exact Raises.bind stored fun _ => Raises.modify _

/-- When the store takes the warning, the loop inspection goes through. -/
theorem inspectLoop_raises (works : ambient.fails .appendLoopWarning = false) (commit : Commit) :
    Raises (fun _ => False) (inspectLoop deps config ambient commit) :=
  .ite (.pure _) (.bind .get fun _ => .bind (.modify _) fun _ => reportLoop_raises works _)

/-- An admitted checkpoint whose commit the index accepts goes through when the store takes its writes. -/
theorem checkpointInner_of_accepts {request : CheckpointRequest} (admits : AdmitsCheckpoint deps config ambient s request)
    (accepts : s.dag.Accepts (checkpointCommit deps config ambient s.store.heads request))
    (stores : ambient.fails .appendCommit = false) (moves : ambient.fails .setHead = false)
    (warns : ambient.fails .appendLoopWarning = false) :
    ∃ response t, checkpointInner deps config ambient request s = (.ok response, t) := by
  obtain ⟨middle, plan⟩ := planCheckpoint_eq_ok_iff.2 ⟨admits, rfl⟩
  have kept := SameLedger.of_run (planCheckpoint_keeps request) plan
  have accepts' : middle.dag.Accepts (checkpointPlan deps config ambient s.store.heads request).commit := by
    rw [show middle.dag = s.dag from congrArg Ledger.dag kept]
    exact accepts
  obtain ⟨after, persisted⟩ := persistCommit_of_accepts accepts' stores moves
  have rest : Raises (fun _ => False) (do
      broadcast (checkpointPlan deps config ambient s.store.heads request).delta
        (checkpointPlan deps config ambient s.store.heads request).commit.commitId
      inspectLoop deps config ambient (checkpointPlan deps config ambient s.store.heads request).commit) :=
    .bind (.modify _) fun _ => inspectLoop_raises warns _
  obtain ⟨_, t, announced⟩ := rest.exists_ok after
  have recorded : record deps config ambient (checkpointPlan deps config ambient s.store.heads request) middle =
      (.ok (), t) := by
    rw [record, bind_of_ok persisted]
    exact announced
  rw [checkpointInner, bind_of_ok plan, bind_of_ok recorded]
  exact ⟨_, t, rfl⟩

end Commits

end AppState

end AttowNexus
