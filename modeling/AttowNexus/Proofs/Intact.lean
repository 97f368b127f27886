import AttowNexus.Proofs.History
import AttowNexus.Proofs.Replay

/-! # Histories that lose no commit

A commit is indexed before it is stored, so when the transaction fails the index knows a commit that the
tables lack. As long as no transaction fails, whatever else does, the tables hold every indexed commit and hold
parents before their children, and every stored commit can be replayed.
-/

namespace AttowNexus

open SuccGraph AppState

/-- The transaction of `append_commit` would go through during this call. -/
def Event.Stores (event : Event) : Prop := event.call.ambient.fails .appendCommit = false

instance (event : Event) : Decidable event.Stores :=
  inferInstanceAs (Decidable (event.call.ambient.fails .appendCommit = false))

namespace CommitTables

variable {tables : CommitTables} {commit : Commit}

/-- A commit whose parents are stored keeps the order. -/
theorem Causal.appendCommit (causal : tables.Causal)
    (parents : ∀ parent ∈ commit.parentCommitIds, parent ∈ tables.stored.map (·.commitId)) :
    (tables.appendCommit commit).Causal := by
  by_cases known : commit.commitId ∈ tables.commits.map (·.commitId)
  · rw [Causal, stored, stored_appendCommit_of_mem known]
    exact causal
  · rw [Causal, stored_appendCommit_of_notMem known]
    exact ParentsFirst.snoc causal parents

theorem mem_ids_appendCommit (keyed : tables.Keyed) {commitId : String} :
    commitId ∈ (tables.appendCommit commit).stored.map (·.commitId) ↔
      commitId ∈ tables.stored.map (·.commitId) ∨ commitId = commit.commitId := by
  rw [(keyed.appendCommit commit).ids_eq, keyed.ids_eq]
  exact Table.mem_keys_insertOrIgnore

end CommitTables

namespace Ledger

variable {start finish : Ledger} {ambient : Ambient} {commit : Commit}

/-- The tables hold what the index knows, parents first. -/
structure Intact (ledger : Ledger) : Prop where
  causal : ledger.tables.Causal
  stored : ∀ commitId ∈ ledger.dag.parents, commitId ∈ ledger.tables.stored.map (·.commitId)

theorem intact_empty : Intact empty :=
  ⟨.nil, fun _ known => absurd known Finmap.notMem_empty⟩

/-- Indexing an accepted commit and storing it. -/
theorem Intact.append (intact : start.Intact) (keyed : start.tables.Keyed) (accepts : start.dag.Accepts commit) :
    ((start.index commit).append commit).Intact where
  causal := intact.causal.appendCommit fun parent edge => intact.stored parent (accepts.known parent edge)
  stored commitId known := by
    apply (CommitTables.mem_ids_appendCommit keyed).mpr
    rcases DagIndex.mem_record_iff.1 known with new | old
    · exact .inr new
    · exact .inl (intact.stored commitId old)

theorem Intact.setHead (intact : start.Intact) (lineage : Lineage) (commitId : String) :
    (start.setHead lineage commitId).Intact := ⟨intact.causal, intact.stored⟩

theorem Recorded.intact {succeeds : Bool} (recorded : Recorded ambient commit start succeeds finish)
    (stores : ambient.fails .appendCommit = false) (keyed : start.tables.Keyed) (intact : start.Intact) :
    finish.Intact := by
  cases recorded with
  | refused => exact intact
  | unstored accepts fails => exact absurd (fails.symm.trans stores) nofun
  | headless accepts => exact intact.append keyed accepts
  | persisted accepts => exact (intact.append keyed accepts).setHead _ _

end Ledger

section Histories

variable {deps : External} {config : Config} {s t : AppState}

/-- A call whose transaction would go through keeps the ledger intact, also when it fails elsewhere. -/
theorem Step.intact {event : Event} (step : Step deps config s event t) (stores : event.Stores)
    (keyed : s.ledger.tables.Keyed) (intact : s.ledger.Intact) : t.ledger.Intact := by
  obtain ⟨⟨request, ambient⟩, outcome⟩ := event
  cases request with
  | registerAgent request => exact step_registerAgent step ▸ intact
  | publishDelta request =>
    obtain ⟨r, run, _⟩ := step_publishDelta step
    rcases publishDeltaInner_cases run with ⟨_, _, same⟩ | ⟨_, _, _, _, same⟩ | ⟨_, _, _, recorded, _⟩
    · exact same ▸ intact
    · exact same ▸ intact
    · exact recorded.intact stores keyed intact
  | checkpoint request =>
    obtain ⟨r, run, _⟩ := step_checkpoint step
    rcases checkpointInner_cases run with ⟨_, _, same⟩ | ⟨_, recorded, _⟩
    · exact same ▸ intact
    · exact recorded.intact stores keyed intact
  | rollback request =>
    obtain ⟨r, run, _⟩ := step_rollback step
    have outcome := rollbackInner_rolledBack run
    generalize t.ledger = finish at outcome ⊢
    cases outcome with
    | rejected => exact intact
    | headless => exact intact
    | unlogged => exact intact.setHead _ _
    | moved => exact intact.setHead _ _
  | fork request =>
    obtain ⟨r, run, _⟩ := step_fork step
    have outcome := forkInner_forked run
    generalize t.ledger = finish at outcome ⊢
    cases outcome with
    | rejected => exact intact
    | headless => exact intact
    | unlogged => exact intact.setHead _ _
    | moved => exact intact.setHead _ _

theorem intact_of_run {events : List Event} (run : Run (Step deps config) s events t) (sound : s.ledger.Sound)
    (intact : s.ledger.Intact) (stores : ∀ event ∈ events, event.Stores) : t.ledger.Intact := by
  induction run with
  | nil => exact intact
  | snoc before step ih =>
    obtain ⟨earlier, last⟩ := List.forall_mem_append.mp stores
    have keyed := ((writes_of_run before sound).sound sound).keyed
    exact step.intact (last _ (List.mem_singleton_self _)) keyed (ih earlier)

theorem History.intact {events : List Event} (history : History deps config events s)
    (stores : ∀ event ∈ events, event.Stores) : s.ledger.Intact :=
  intact_of_run history Ledger.sound_empty Ledger.intact_empty stores

theorem history_stores {calls : List Call} {events : List Event} (made : events.map (·.call) = calls)
    (stores : ∀ call ∈ calls, call.ambient.fails .appendCommit = false) : ∀ event ∈ events, event.Stores := by
  intro event member
  exact stores event.call (made ▸ List.mem_map_of_mem member)

/-- In an intact ledger every confirmed replay of a stored commit returns. -/
theorem Ledger.Intact.replays (intact : s.ledger.Intact) (keyed : s.ledger.tables.Keyed) {commit : Commit}
    (stored : commit ∈ s.store.tables.stored) {request : ReplayRequest} (of : request.commitId = commit.commitId)
    (confirmed : request.Confirmed) : ∃ result, replayInner deps request s = (.ok result, s) := by
  have causal : s.store.tables.Causal := intact.causal
  obtain ⟨listed, read, _⟩ := CommitTables.ancestryCommits_ok keyed causal stored
  obtain ⟨result, run, _⟩ : ∃ result, replay deps s.store.tables request = .ok result ∧ _ :=
    replay_of_ancestry confirmed (of ▸ read)
  exact ⟨result, replayInner_eq_ok_iff.2 ⟨run, rfl⟩⟩

end Histories

end AttowNexus
