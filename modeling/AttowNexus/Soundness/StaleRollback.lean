import AttowNexus.Proofs.History

/-! # When a rollback moves a head backwards

The ancestor check compares the target with the head commit that the request names. The head that is
moved is the one stored for the lineage of that commit, so the move goes backwards exactly when the
same check would have passed against the stored head.
-/

namespace AttowNexus

open SuccGraph AppState

variable {deps : External} {config : Config} {ambient : Ambient} {s t : AppState}

/-- The lineage had a head before the call only if its head afterwards is that commit or an ancestor. -/
def MovesBackwards (s t : AppState) (lineage : Lineage) : Prop :=
  ∀ old, headOf s.store.heads lineage = some old →
    ∃ new, headOf t.store.heads lineage = some new ∧ Reach s.dag.parents.next old new

/-- A successful rollback leaves the target as the head of the lineage of the named head commit. -/
theorem headOf_of_rollback {request : RollbackRequest} {response : RollbackResponse}
    (sound : s.ledger.Sound) (run : rollbackInner deps ambient request s = (.ok response, t)) {head : Commit}
    (named : s.store.tables.getCommit request.headCommitId = some head) :
    headOf t.store.heads head.lineage = some request.targetCommitId := by
  obtain ⟨stored, target, admits, _, finish⟩ := rollbackInner_ok run
  obtain rfl : stored = head := Option.some.inj (admits.head.symm.trans named)
  have heads : t.store.heads = moveHead stored.lineage target.commitId s.store.heads := congrArg Ledger.heads finish
  rw [heads, headOf_moveHead, if_pos rfl, (sound.keyed.getCommit_eq_some_iff.mp admits.target).2]

theorem movesBackwards_iff {request : RollbackRequest} {response : RollbackResponse}
    (sound : s.ledger.Sound) (run : rollbackInner deps ambient request s = (.ok response, t)) {head : Commit}
    (named : s.store.tables.getCommit request.headCommitId = some head) :
    MovesBackwards s t head.lineage ↔
      ∀ old, headOf s.store.heads head.lineage = some old → s.dag.isAncestor request.targetCommitId old = true := by
  simp only [MovesBackwards, headOf_of_rollback sound run named, Option.some.injEq, exists_eq_left',
    DagIndex.isAncestor_iff]

/-- A rollback that succeeds without force moves the head backwards exactly when the target is an ancestor
of the stored head; a named head commit that is not ahead of the stored head makes sure of it. -/
theorem nonForcedRollback_movesBackwards_iff {request : RollbackRequest} {response : RollbackResponse}
    (reachable : Reachable deps config s) (plain : request.force = false)
    (run : rollbackInner deps ambient request s = (.ok response, t)) {head : Commit}
    (named : s.store.tables.getCommit request.headCommitId = some head) :
    (MovesBackwards s t head.lineage ↔
      ∀ old, headOf s.store.heads head.lineage = some old →
        s.dag.isAncestor request.targetCommitId old = true) ∧
    ((∀ old, headOf s.store.heads head.lineage = some old → s.dag.isAncestor request.headCommitId old = true) →
      MovesBackwards s t head.lineage) := by
  have exactly := movesBackwards_iff reachable.sound run named
  refine ⟨exactly, fun fresh => exactly.mpr fun old stored => ?_⟩
  obtain ⟨_, _, admits, _⟩ := rollbackInner_ok run
  have below := admits.reach plain
  exact DagIndex.isAncestor_iff.2 ((DagIndex.isAncestor_iff.1 (fresh old stored)).trans below)

section Stale

/-- Two checkpoints. -/
private def chainCalls : List Call := [Sample.checkpoint "r" 1, Sample.checkpoint "r" 2]

private def chain : AppState := runCalls .sample Sample.config chainCalls

private def root : String := Sample.headOf (runCalls .sample Sample.config [Sample.checkpoint "r" 1]) "r"

private def upperEnd : String := Sample.headOf chain "r"

/-- The chain after its head went back to the root. -/
private def back : AppState :=
  runCalls .sample Sample.config (chainCalls ++ [⟨.rollback ⟨upperEnd, root, false⟩, .calm ⟨3, 0⟩ 3⟩])

private def forth : RollbackRequest := ⟨upperEnd, upperEnd, false⟩

theorem nonForcedRollback_movesBackwards_chain :
    ∃ head, chain.store.tables.getCommit upperEnd = some head ∧
      MovesBackwards chain (rollbackInner .sample (.calm ⟨3, 0⟩ 3) ⟨upperEnd, root, false⟩ chain).2 head.lineage := by
  have found : (chain.store.tables.getCommit upperEnd).isSome = true := by decide
  obtain ⟨head, named⟩ := Option.isSome_iff_exists.mp found
  obtain ⟨response, run⟩ := Fallible.exists_ok (x := rollbackInner .sample (.calm ⟨3, 0⟩ 3) ⟨upperEnd, root, false⟩)
    (s := chain) (by decide)
  have reachable : Reachable .sample Sample.config chain := reachable_runCalls .sample Sample.config chainCalls
  refine ⟨head, named, (nonForcedRollback_movesBackwards_iff reachable rfl run named).1.mpr fun old stored => ?_⟩
  have lineage : (chain.store.tables.getCommit upperEnd).map (·.lineage) = some (Sample.lineage "r") := by
    decide
  have atTip : headOf chain.store.heads (Sample.lineage "r") = some upperEnd := by decide
  rw [named, Option.map_some, Option.some.injEq] at lineage
  rw [lineage, atTip] at stored
  obtain rfl := Option.some.inj stored
  decide

/-- The head went back to the root, and a rollback that names the old head brings it forward again. -/
theorem staleRollback_movesForward :
    ¬ ∀ (deps : External) (config : Config) (ambient : Ambient) (s t : AppState) (request : RollbackRequest)
      (response : RollbackResponse) (head : Commit), Reachable deps config s → request.force = false →
      rollbackInner deps ambient request s = (.ok response, t) →
      s.store.tables.getCommit request.headCommitId = some head → MovesBackwards s t head.lineage := by
  intro claim
  have found : (back.store.tables.getCommit upperEnd).isSome = true := by decide
  obtain ⟨head, named⟩ := Option.isSome_iff_exists.mp found
  obtain ⟨response, run⟩ := Fallible.exists_ok (x := rollbackInner .sample (.calm ⟨4, 0⟩ 4) forth)
    (s := back) (by decide)
  have reachable : Reachable .sample Sample.config back := reachable_runCalls .sample Sample.config _
  have backwards := claim .sample Sample.config _ back _ forth response head reachable rfl run named
  have lineage : (back.store.tables.getCommit upperEnd).map (·.lineage) = some (Sample.lineage "r") := by
    decide
  have atRoot : headOf back.store.heads (Sample.lineage "r") = some root := by decide
  rw [named, Option.map_some, Option.some.injEq] at lineage
  have ancestor := (movesBackwards_iff reachable.sound run named).mp backwards root (lineage ▸ atRoot)
  exact absurd ancestor (by decide)

end Stale

end AttowNexus
