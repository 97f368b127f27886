import AttowNexus.Proofs.Interleaved

/-! # Requests side by side keep the ledger sound

Calls may overlap in any way and any of their store calls may fail. As long as no two commits collide, the index stays
a closed acyclic graph that states the parents of every stored commit, every head names a stored commit, and what an
answer or an announcement said of the ledger holds from then on.
-/

namespace AttowNexus

open SuccGraph

namespace Daemon

variable {deps : External} {config : Config} {moves more : List (Pool.Move Call)} {calls after : Calls}

/-- What runs side by side keeps the invariant, and everything told so far. -/
theorem SideBySide.grown (run : SideBySide deps config moves calls) :
    calls.Grown (Consistent deps) Later fun call => OnSuccess (Told call) :=
  (Pool.grown_of_run run Later.refl Later.trans (fun call _ _ => keeping_serve call)
    (Pool.grown_idle consistent_initial)).1

theorem SideBySide.continue (run : SideBySide deps config moves calls)
    (rest : Run (Pool.Step (serve deps config)) calls more after) :
    after.Grown (Consistent deps) Later (fun call => OnSuccess (Told call)) ∧ Later calls.state after.state :=
  Pool.grown_of_run rest Later.refl Later.trans (fun call _ _ => keeping_serve call) (SideBySide.grown run)

/-- However calls overlap and whatever fails, the ledger is sound, every head names a stored commit, and the index
states the parents of each stored commit, unless commits collide. -/
theorem ledger_sound_of_sideBySide (run : SideBySide deps config moves calls)
    (free : CollisionFree deps calls.state.indexed) :
    calls.state.app.ledger.Sound ∧ calls.state.app.ledger.HeadsStored ∧
      ∀ commit ∈ calls.state.app.store.tables.stored,
        calls.state.app.dag.parents.lookup commit.commitId = some commit.parentCommitIds := by
  have consistent := (SideBySide.grown run).state
  exact ⟨consistent.sound free, consistent.headsStored, fun commit member =>
    consistent.lookup_parents free (consistent.stored commit member)⟩

section Sample

/-- Two checkpoints of different runs, action by action in turn -/
def inTurn : List (Pool.Move Call) :=
  [.start (Sample.checkpoint "left" 1), .start (Sample.checkpoint "right" 2)] ++
    (List.replicate 11 [.proceed 0, .proceed 1]).flatten

def sampleCalls : Calls :=
  (inTurn.foldlM (Pool.perform (serve .sample Sample.config)) (.idle initial)).getD (.idle initial)

theorem run_sampleCalls : SideBySide .sample Sample.config inTurn sampleCalls :=
  Pool.run_of_performs (Option.eq_some_of_isSome (by decide))

theorem done_sampleCalls : sampleCalls.Done := Pool.done_of_all (by decide)

theorem collisionFree_sampleCalls : CollisionFree .sample sampleCalls.state.indexed := collisionFree_of_nodup (by decide)

/-- The calls when the first one has its answer -/
private def answeredCalls : Calls :=
  (List.foldlM (Pool.perform (serve .sample Sample.config)) (.idle initial) (inTurn.take 23)).getD (.idle initial)

private theorem run_answeredCalls : SideBySide .sample Sample.config (inTurn.take 23) answeredCalls :=
  Pool.run_of_performs (Option.eq_some_of_isSome (by decide))

private theorem run_restOfCalls : Run (Pool.Step (serve .sample Sample.config)) answeredCalls (inTurn.drop 23) sampleCalls :=
  Pool.run_of_performs (by rfl)

private theorem running_answeredCalls : ¬ answeredCalls.Done := by
  intro done
  obtain ⟨entry, last, going⟩ : ∃ entry, answeredCalls.strands[1]? = some entry ∧ entry.2.ended = false := ⟨_, rfl, rfl⟩
  obtain ⟨outcome, ended⟩ := done entry (List.mem_of_getElem? last)
  rw [ended] at going
  exact Bool.false_ne_true going.symm

private def sampleAnswer : CheckpointResponse :=
  ⟨"c_00001000100000000000000000000000", "delta_00000000000000000000000000000001", true, true, "", some ⟨[], false⟩⟩

end Sample

/-- The second commit is indexed while the first is about to be written. -/
theorem ledger_sound_of_sideBySide_inTurn :
    sampleCalls.state.app.ledger.Sound ∧ sampleCalls.state.app.ledger.HeadsStored ∧
      ∀ commit ∈ sampleCalls.state.app.store.tables.stored,
        sampleCalls.state.app.dag.parents.lookup commit.commitId = some commit.parentCommitIds :=
  ledger_sound_of_sideBySide run_sampleCalls collisionFree_sampleCalls

/-- A commit that a read finds, with its delta, its lineage and the parents that were asked for -/
def Finds (daemon : Daemon) (commitId deltaId : String) (lineage : Lineage) (parents : List String) : Prop :=
  ∃ commit, daemon.app.store.tables.getCommit commitId = some commit ∧ commit.deltaId = deltaId ∧
    commit.lineage = lineage ∧ (parents ≠ [] → commit.parentCommitIds = parents)

theorem Holds.finds {daemon : Daemon} {commitId deltaId : String} {lineage : Lineage} {parents : List String}
    (holds : daemon.Holds commitId deltaId lineage parents) (consistent : daemon.Consistent deps)
    (free : CollisionFree deps daemon.indexed) : daemon.Finds commitId deltaId lineage parents := by
  obtain ⟨stores, commit, inside, rfl, told⟩ := holds
  exact ⟨commit, consistent.getCommit_eq free inside stores, told⟩

/-- What an answer promises of reads -/
def Confirmed (call : Call) (response : Response) (daemon : Daemon) : Prop :=
  match call.request, response with
  | .publishDelta request, .publishDelta response => response.persisted = true →
      ∃ delta, request.delta = some delta ∧
        daemon.Finds response.commitId response.deltaId delta.lineage request.parentCommitIds
  | .checkpoint request, .checkpoint response =>
      daemon.Finds response.commitId response.deltaId request.lineage request.parentCommitIds
  | .rollback _, .rollback response =>
      daemon.Stores response.previousHeadCommitId ∧ daemon.Stores response.newHeadCommitId
  | .fork _, .fork response => daemon.Stores response.headCommitId
  | _, _ => True

theorem Told.confirmed {call : Call} {response : Response} {s t : Daemon} (told : Told call response s) (later : Later s t)
    (consistent : t.Consistent deps) (free : CollisionFree deps t.indexed) : Confirmed call response t := by
  obtain ⟨request, ambient⟩ := call
  cases request <;> cases response <;> simp only [Told, Confirmed] at told ⊢
  case publishDelta.publishDelta request response =>
    intro persisted
    obtain ⟨delta, given, holds⟩ := told persisted
    exact ⟨delta, given, (holds.later later).finds consistent free⟩
  case checkpoint.checkpoint request response => exact (told.later later).finds consistent free
  case rollback.rollback request response => exact ⟨told.1.later later, told.2.later later⟩
  case fork.fork request response => exact told.later later

/-- An answer is never taken back: from then on, whatever else runs, reads find the commit that the answer named, with
the delta of the answer, and the lineage and the parents of the request. -/
theorem answers_hold (run : SideBySide deps config moves calls)
    (rest : Run (Pool.Step (serve deps config)) calls more after) (free : CollisionFree deps after.state.indexed)
    {call : Call} {response : Response} (answered : (call, Strand.done (.ok response)) ∈ calls.strands) :
    Confirmed call response after.state := by
  obtain ⟨s, later, told⟩ := (SideBySide.grown run).of_done answered
  obtain ⟨grown, on⟩ := SideBySide.continue run rest
  exact Told.confirmed told (later.trans _ _ _ on) grown.state free

/-- The first call is answered while the second one still runs, and holds once that has run to its end. -/
theorem answers_hold_inTurn : ¬ answeredCalls.Done ∧
    sampleCalls.state.Finds sampleAnswer.commitId sampleAnswer.deltaId (Sample.lineage "left") [] := by
  have answered : (Sample.checkpoint "left" 1, Strand.done (.ok (.checkpoint sampleAnswer))) ∈ answeredCalls.strands :=
    List.mem_of_getElem? (i := 0) rfl
  exact ⟨running_answeredCalls, answers_hold run_answeredCalls run_restOfCalls collisionFree_sampleCalls answered⟩

/-- Whoever is told of a commit by a broadcast can read it, with the delta of the broadcast. -/
theorem announcements_hold (run : SideBySide deps config moves calls) (free : CollisionFree deps calls.state.indexed)
    {delta : StateDelta} {commitId : String} (announced : .broadcast delta commitId ∈ calls.state.app.bus)
    (named : commitId ≠ "") :
    ∃ commit, calls.state.app.store.tables.getCommit commitId = some commit ∧ commit.deltaId = delta.deltaId := by
  have consistent := (SideBySide.grown run).state
  obtain ⟨stores, commit, inside, rfl, same⟩ := consistent.announced delta commitId announced named
  exact ⟨commit, consistent.getCommit_eq free inside stores, same⟩

theorem announcements_hold_inTurn :
    ∃ commit, sampleCalls.state.app.store.tables.getCommit sampleAnswer.commitId = some commit ∧
      commit.deltaId = sampleAnswer.deltaId := by
  have announced : ∃ delta, sampleCalls.state.app.bus[0]? = some (.broadcast delta sampleAnswer.commitId) ∧
      delta.deltaId = sampleAnswer.deltaId := ⟨_, rfl, rfl⟩
  obtain ⟨delta, spoken, same⟩ := announced
  rw [← same]
  exact announcements_hold run_sampleCalls collisionFree_sampleCalls (List.mem_of_getElem? spoken) (by decide)

end Daemon

end AttowNexus
