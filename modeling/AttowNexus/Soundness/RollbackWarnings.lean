import AttowNexus.Proofs.History
import AttowNexus.Library.Listing

/-! # What a rollback warns about

The walk runs through the ancestry of the head commit parents first and stops at the target. It
therefore meets every proper ancestor of the target, which is not rolled back, and misses whatever is
listed after the target, which is. The warnings are right exactly when neither kind has side effects.
-/

namespace AttowNexus

open SuccGraph AppState

variable {deps : External} {config : Config} {ambient : Ambient} {s t : AppState}

/-- One warning for each side effect of each commit that a rollback from `head` to `target` undoes: the
ancestors of the head commit that are not ancestors of the target, both counted with themselves. -/
def WarnsExactly (s : AppState) (head target : String) (warnings : List String) : Prop :=
  ∃ undone : List String, undone.Nodup ∧
    (∀ commitId, commitId ∈ undone ↔
      Reach s.dag.parents.next head commitId ∧ ¬ Reach s.dag.parents.next target commitId) ∧
    warnings.Perm (undone.flatMap fun commitId => commitWarnings (s.store.tables.getCommit commitId))

/-- The commits that the ancestry of the head lists before the target. -/
def listedBefore (s : AppState) (head target : String) : List String :=
  (s.dag.ancestry head).takeWhile (· ≠ target)

/-- The commits that the ancestry of the head lists after the target. -/
def listedAfter (s : AppState) (head target : String) : List String :=
  ((s.dag.ancestry head).dropWhile (· ≠ target)).tail

theorem ancestry_split {head target : String} (below : Reach s.dag.parents.next head target) :
    listedBefore s head target ++ target :: listedAfter s head target = s.dag.ancestry head :=
  Listing.takeWhile_append_dropWhile_tail (DagIndex.mem_ancestry_iff.2 below)

/-- The commit has no side effects, or is not stored. -/
def NoSideEffects (s : AppState) (commitId : String) : Prop :=
  ∀ commit, s.store.tables.getCommit commitId = some commit → commit.externalSideEffects = []

theorem commitWarnings_eq_nil_iff {commitId : String} :
    commitWarnings (s.store.tables.getCommit commitId) = [] ↔ NoSideEffects s commitId := by
  rw [NoSideEffects]
  cases s.store.tables.getCommit commitId with
  | none => simp [commitWarnings]
  | some commit => simp [commitWarnings]

/-- A warning names its commit. -/
theorem rollbackWarning_inj {c d : Commit} {e f : ExternalSideEffect}
    (sameLength : c.commitId.length = d.commitId.length) (same : rollbackWarning c e = rollbackWarning d f) :
    c.commitId = d.commitId := by
  have lists := congrArg String.toList same
  simp only [rollbackWarning, String.toList_append, List.append_assoc, List.append_cancel_left_eq] at lists
  exact String.toList_inj.mp (List.append_inj lists (by simpa only [String.length_toList] using sameLength)).1

/-- Two commits never give the same warning. -/
theorem commitWarnings_disjoint (sound : s.ledger.Sound) {a b m : String}
    (left : m ∈ commitWarnings (s.store.tables.getCommit a))
    (right : m ∈ commitWarnings (s.store.tables.getCommit b)) : a = b := by
  have named : ∀ {commitId : String}, m ∈ commitWarnings (s.store.tables.getCommit commitId) →
      ∃ c e, c.commitId = commitId ∧ c.commitId.length = 34 ∧ rollbackWarning c e = m := by
    intro commitId member
    cases found : s.store.tables.getCommit commitId with
    | none => simp [commitWarnings, found] at member
    | some c =>
      rw [found] at member
      obtain ⟨e, _, rfl⟩ := List.mem_map.mp member
      obtain ⟨stored, own⟩ := sound.keyed.getCommit_eq_some_iff.mp found
      exact ⟨c, e, own, sound.named c stored, rfl⟩
  obtain ⟨c, e, rfl, long, rfl⟩ := named left
  obtain ⟨d, f, rfl, long', same⟩ := named right
  exact rollbackWarning_inj (long.trans long'.symm) same.symm

section Walk

variable {head target commitId : String} (below : Reach s.dag.parents.next head target)
include below

theorem reach_iff_listed :
    Reach s.dag.parents.next head commitId ↔
      commitId ∈ listedBefore s head target ∨ commitId = target ∨ commitId ∈ listedAfter s head target := by
  rw [← DagIndex.mem_ancestry_iff, ← ancestry_split below, List.mem_append, List.mem_cons]

theorem listed_nodup : (listedBefore s head target ++ target :: listedAfter s head target).Nodup := by
  rw [ancestry_split below]
  exact DagIndex.ancestry_nodup head

/-- The ancestors of the target are listed before it. -/
theorem mem_listedBefore_of_reach (sound : s.ledger.Sound) (path : Reach s.dag.parents.next target commitId)
    (proper : commitId ≠ target) : commitId ∈ listedBefore s head target := by
  have first : ParentsFirst id s.dag.parents.next (s.dag.ancestry head) :=
    DagIndex.ancestry_parentsFirst sound.graph.acyclic head
  rw [← ancestry_split below] at first
  rcases path.eq_or_head with same | ⟨parent, edge, rest⟩
  · exact absurd same.symm proper
  · have early : parent ∈ listedBefore s head target := by
      simpa using first _ target _ rfl parent edge
    -- the list before the target is itself parents first, hence closed under parents
    refine rest.mem_of_closed {x | x ∈ listedBefore s head target} (fun x inside y next => ?_) early
    simpa using first.of_append.mem_of_mem inside next

/-- The warnings of the walk are right exactly when, among the commits with side effects, it meets those
that are undone. -/
theorem warnsExactly_iff_agree (sound : s.ledger.Sound) :
    WarnsExactly s head target ((listedBefore s head target).flatMap fun commitId =>
        commitWarnings (s.store.tables.getCommit commitId)) ↔
      ∀ commitId, ¬ NoSideEffects s commitId → (commitId ∈ listedBefore s head target ↔
        Reach s.dag.parents.next head commitId ∧ ¬ Reach s.dag.parents.next target commitId) := by
  have nodup : (listedBefore s head target).Nodup := (List.nodup_append.mp (listed_nodup below)).1
  constructor
  · rintro ⟨undone, distinct, members, perm⟩ commitId effects
    rw [← members]
    apply (Listing.perm_flatMap_iff nodup distinct fun a b m => commitWarnings_disjoint sound).mp perm
    exact fun bare => effects (commitWarnings_eq_nil_iff.1 bare)
  · intro agree
    have members : ∀ commitId, commitId ∈ (s.dag.ancestry head).filter
        (fun commitId => !s.dag.isAncestor commitId target) ↔
        Reach s.dag.parents.next head commitId ∧ ¬ Reach s.dag.parents.next target commitId := by
      intro commitId
      rw [List.mem_filter, Bool.not_eq_true', ← Bool.not_eq_true, DagIndex.isAncestor_iff]
      exact and_congr_left fun _ => DagIndex.mem_ancestry_iff
    have distinct : ((s.dag.ancestry head).filter fun commitId => !s.dag.isAncestor commitId target).Nodup :=
      (DagIndex.ancestry_nodup head).filter _
    refine ⟨_, distinct, members, ?_⟩
    apply (Listing.perm_flatMap_iff nodup distinct fun a b m => commitWarnings_disjoint sound).mpr
    intro commitId full
    rw [members]
    exact agree commitId fun bare => full (commitWarnings_eq_nil_iff.2 bare)

/-- They are right exactly when neither the ancestors of the target nor the commits listed after it have
side effects. -/
theorem warnsExactly_iff (sound : s.ledger.Sound) :
    WarnsExactly s head target ((listedBefore s head target).flatMap fun commitId =>
        commitWarnings (s.store.tables.getCommit commitId)) ↔
      (∀ commitId, Reach s.dag.parents.next target commitId → commitId ≠ target → NoSideEffects s commitId) ∧
      ∀ commitId ∈ listedAfter s head target, NoSideEffects s commitId := by
  obtain ⟨_, nodupRest, apart⟩ := List.nodup_append.mp (listed_nodup below)
  obtain ⟨targetOnce, _⟩ := List.nodup_cons.mp nodupRest
  rw [warnsExactly_iff_agree below sound]
  constructor
  · intro agree
    refine ⟨fun commitId path proper => ?_, fun commitId late => ?_⟩
    · by_contra effects
      exact ((agree commitId effects).mp (mem_listedBefore_of_reach below sound path proper)).2 path
    · by_contra effects
      have notEarly : commitId ∉ listedBefore s head target := fun early =>
        apart _ early _ (List.mem_cons_of_mem _ late) rfl
      have undone : ¬ Reach s.dag.parents.next target commitId := fun path =>
        notEarly (mem_listedBefore_of_reach below sound path fun same => targetOnce (same ▸ late))
      exact notEarly ((agree commitId effects).mpr ⟨(reach_iff_listed below).mpr (.inr (.inr late)), undone⟩)
  · rintro ⟨bareBelow, bareAfter⟩ commitId effects
    constructor
    · intro early
      refine ⟨(reach_iff_listed below).mpr (.inl early), fun path => effects (bareBelow commitId path fun same => ?_)⟩
      exact apart _ early _ List.mem_cons_self same
    · rintro ⟨path, away⟩
      rcases (reach_iff_listed below).mp path with early | rfl | late
      · exact early
      · exact absurd (.refl _) away
      · exact absurd (bareAfter commitId late) effects

end Walk

/-- What the check and the walk of a successful rollback without force establish. -/
theorem rollback_walked {request : RollbackRequest} {response : RollbackResponse} (plain : request.force = false)
    (run : rollbackInner deps ambient request s = (.ok response, t)) :
    Reach s.dag.parents.next request.headCommitId request.targetCommitId ∧
      response.warnings = (listedBefore s request.headCommitId request.targetCommitId).flatMap fun commitId =>
        commitWarnings (s.store.tables.getCommit commitId) := by
  obtain ⟨_, _, admits, rfl, _⟩ := rollbackInner_ok run
  exact ⟨admits.reach plain, rfl⟩

/-- A rollback without force warns about exactly the side effects that it undoes if and only if no proper
ancestor of the target has any and no commit listed after the target has any. -/
theorem rollbackWarnings_exact_iff {request : RollbackRequest} {response : RollbackResponse}
    (reachable : Reachable deps config s) (plain : request.force = false)
    (run : rollbackInner deps ambient request s = (.ok response, t)) :
    WarnsExactly s request.headCommitId request.targetCommitId response.warnings ↔
      (∀ commitId, Reach s.dag.parents.next request.targetCommitId commitId →
        commitId ≠ request.targetCommitId → NoSideEffects s commitId) ∧
      ∀ commitId ∈ listedAfter s request.headCommitId request.targetCommitId, NoSideEffects s commitId := by
  obtain ⟨below, warnings⟩ := rollback_walked plain run
  rw [warnings]
  exact warnsExactly_iff below reachable.sound

section Merge

private def leftCalls : List Call := [Sample.checkpoint "left" 1]

private def left : String := Sample.headOf (runCalls .sample Sample.config leftCalls) "left"

/-- A second root, with a side effect. -/
private def forkedCalls : List Call :=
  leftCalls ++ [⟨.checkpoint (Sample.checkpointRequest "right" [] [Sample.sideEffect]), .calm ⟨2, 0⟩ 2⟩]

private def right : String := Sample.headOf (runCalls .sample Sample.config forkedCalls) "right"

/-- A commit on both roots, the one with the side effect first. -/
private def mergedCalls : List Call :=
  forkedCalls ++ [⟨.checkpoint (Sample.checkpointRequest "left" [right, left] []), .calm ⟨3, 0⟩ 3⟩]

private def merged : AppState := runCalls .sample Sample.config mergedCalls

private def mergeTip : String := Sample.headOf merged "left"

theorem rollbackWarnings_exact_merge :
    ∃ response, (rollbackInner .sample (.calm ⟨4, 0⟩ 4) ⟨mergeTip, left, false⟩ merged).1 = .ok response ∧
      response.warnings.length = 1 ∧ WarnsExactly merged mergeTip left response.warnings := by
  obtain ⟨response, run⟩ := Fallible.exists_ok (x := rollbackInner .sample (.calm ⟨4, 0⟩ 4) ⟨mergeTip, left, false⟩)
    (s := merged) (by decide)
  have one : (rollbackInner .sample (.calm ⟨4, 0⟩ 4) ⟨mergeTip, left, false⟩ merged).1.toOption.map
      (·.warnings.length) = some 1 := by decide
  rw [run] at one
  have reachable : Reachable .sample Sample.config merged := reachable_runCalls .sample Sample.config mergedCalls
  refine ⟨response, by rw [run], Option.some.inj one,
    (rollbackWarnings_exact_iff reachable rfl run).mpr ⟨fun commitId path proper => ?_, ?_⟩⟩
  · have root : merged.dag.parents.next left = [] := by decide
    rcases path.eq_or_head with same | ⟨parent, edge, _⟩
    · exact absurd same.symm proper
    · exact absurd (root ▸ edge) List.not_mem_nil
  · have last : listedAfter merged mergeTip left = [mergeTip] := by decide
    have bare : (merged.store.tables.getCommit mergeTip).map (·.externalSideEffects) = some [] := by decide
    intro commitId late commit found
    rw [last] at late
    obtain rfl := List.mem_singleton.mp late
    rw [found] at bare
    exact Option.some.inj bare

end Merge

section Chain

private def effectCalls : List Call :=
  [⟨.checkpoint (Sample.checkpointRequest "r" [] [Sample.sideEffect]), .calm ⟨1, 0⟩ 1⟩]

private def effectRoot : String := Sample.headOf (runCalls .sample Sample.config effectCalls) "r"

private def middleCalls : List Call := effectCalls ++ [Sample.checkpoint "r" 2]

private def middle : String := Sample.headOf (runCalls .sample Sample.config middleCalls) "r"

/-- Three commits in a row; only the first has a side effect. -/
private def effectChain : AppState := runCalls .sample Sample.config (middleCalls ++ [Sample.checkpoint "r" 3])

private def chainTip : String := Sample.headOf effectChain "r"

/-- Going back from the third commit to the second warns about the first. -/
theorem rollbackWarnings_name_kept_commit :
    ¬ ∀ (deps : External) (config : Config) (ambient : Ambient) (s t : AppState) (request : RollbackRequest)
      (response : RollbackResponse), Reachable deps config s → request.force = false →
      rollbackInner deps ambient request s = (.ok response, t) →
      WarnsExactly s request.headCommitId request.targetCommitId response.warnings := by
  intro claim
  obtain ⟨response, run⟩ := Fallible.exists_ok (x := rollbackInner .sample (.calm ⟨4, 0⟩ 4) ⟨chainTip, middle, false⟩)
    (s := effectChain) (by decide)
  have reachable : Reachable .sample Sample.config effectChain := reachable_runCalls .sample Sample.config _
  have warned := claim .sample Sample.config _ effectChain _ ⟨chainTip, middle, false⟩ response reachable rfl run
  obtain ⟨below, warnings⟩ := rollback_walked rfl run
  rw [warnings] at warned
  have ancestor : Reach effectChain.dag.parents.next middle effectRoot :=
    DagIndex.isAncestor_iff.1 (by decide)
  have bare := ((warnsExactly_iff below reachable.sound).mp warned).1 effectRoot ancestor (by decide)
  have effects : (effectChain.store.tables.getCommit effectRoot).map (·.externalSideEffects) =
      some [Sample.sideEffect] := by decide
  obtain ⟨commit, found, listed⟩ := Option.map_eq_some_iff.mp effects
  exact absurd ((bare commit found).symm.trans listed) nofun

end Chain

end AttowNexus
