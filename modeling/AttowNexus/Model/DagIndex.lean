import AttowNexus.Model.Commit
import AttowNexus.Library.Graph.StackSearch
import AttowNexus.Library.Graph.PostOrder
import AttowNexus.Library.Fallible
import Mathlib.Data.Finmap

/-! # The in-memory DAG index

`ledger/dag.rs`. Both maps are finite; the two searches run on the successor lists of the parent map,
with fuel for every edge and every vertex of it. A refused append leaves the index as it was.
-/

namespace AttowNexus

open SuccGraph

abbrev HashMap (κ ν : Type) := Finmap fun _ : κ => ν

abbrev ParentMap := HashMap String (List String)

namespace ParentMap

/-- The parents of a commit; none for an unknown one. -/
def next (parents : ParentMap) (commitId : String) : List String := (parents.lookup commitId).getD []

/-- One iteration for each edge, one for the start and one to see that the stack is empty. -/
def searchFuel (parents : ParentMap) : ℕ := 2 + ∑ commitId ∈ parents.keys, (parents.next commitId).length

/-- `reachable_locked` -/
def reachableLocked (parents : ParentMap) (start target : String) : Bool :=
  stackSearch parents.next target parents.searchFuel [start] ∅

/-- `collect_ancestry`, from an empty result. -/
def collectAncestry (parents : ParentMap) (commitId : String) : List String :=
  (postOrder parents.next (parents.keys.card + 1) commitId (∅, [])).2

theorem next_of_notMem {parents : ParentMap} {commitId : String} (unknown : commitId ∉ parents.keys) :
    parents.next commitId = [] := by
  rw [next, Finmap.lookup_eq_none.mpr (fun known => unknown (Finmap.mem_keys.mpr known)), Option.getD_none]

/-- The loop decides reachability. -/
theorem reachableLocked_iff {parents : ParentMap} {start target : String} :
    parents.reachableLocked start target = true ↔ Reach parents.next start target :=
  stackSearch_iff (fun _ unknown => next_of_notMem unknown) (by rw [searchFuel]; omega)

theorem mem_collectAncestry_iff {parents : ParentMap} {commitId ancestor : String} :
    ancestor ∈ parents.collectAncestry commitId ↔ Reach parents.next commitId ancestor :=
  mem_postOrder_iff (fun _ unknown => next_of_notMem unknown) (Nat.lt_succ_self _) _ _

theorem collectAncestry_nodup {parents : ParentMap} (commitId : String) :
    (parents.collectAncestry commitId).Nodup :=
  postOrder_nodup (fun _ unknown => next_of_notMem unknown) (Nat.lt_succ_self _) _

theorem collectAncestry_parentsFirst {parents : ParentMap} (acyclic : Acyclic parents.next)
    (commitId : String) : ParentsFirst id parents.next (parents.collectAncestry commitId) :=
  postOrder_parentsFirst (fun _ unknown => next_of_notMem unknown) (Nat.lt_succ_self _) acyclic _

end ParentMap

structure DagIndex where
  parents : ParentMap
  children : HashMap String (List String)
deriving DecidableEq

namespace DagIndex

/-- `DagIndex::default` -/
def empty : DagIndex := ⟨∅, ∅⟩

/-- The loop over the parents in `append`, which stops at the first parent that does not fit. -/
def checkParents (parents : ParentMap) (commitId : String) : List String → Except String Unit
  | [] => .ok ()
  | parent :: rest =>
      if parent ∉ parents then .error ("parent commit " ++ parent ++ " is unknown")
      else if parents.reachableLocked parent commitId then .error "commit would introduce a DAG cycle"
      else checkParents parents commitId rest

/-- `children.entry(parent).or_default().push(commit_id)` -/
def addChild (commitId : String) (children : HashMap String (List String)) (parent : String) :
    HashMap String (List String) :=
  children.insert parent ((children.lookup parent).getD [] ++ [commitId])

/-- The two writes of `append`. -/
def record (dag : DagIndex) (commit : Commit) : DagIndex where
  parents := dag.parents.insert commit.commitId commit.parentCommitIds
  children := commit.parentCommitIds.foldl (addChild commit.commitId) dag.children

/-- `DagIndex::append` -/
def append (dag : DagIndex) (commit : Commit) : Except String DagIndex :=
  if commit.commitId = "" then .error "commit_id is required"
  else if commit.parentCommitIds.any (· = commit.commitId) then .error "commit cannot parent itself"
  else
    match checkParents dag.parents commit.commitId commit.parentCommitIds with
    | .error refusal => .error refusal
    | .ok () => .ok (dag.record commit)

/-- `DagIndex::append` statement by statement, on the two maps that the daemon shares. -/
def appendInPlace (commit : Commit) : Fallible DagIndex String Unit := do
  Fallible.ensure (commit.commitId ≠ "") "commit_id is required"
  Fallible.ensure (commit.commitId ∉ commit.parentCommitIds) "commit cannot parent itself"
  let dag ← Fallible.get
  Fallible.lift (checkParents dag.parents commit.commitId commit.parentCommitIds)
  Fallible.modify fun dag => { dag with parents := dag.parents.insert commit.commitId commit.parentCommitIds }
  Fallible.modify fun dag =>
    { dag with children := commit.parentCommitIds.foldl (addChild commit.commitId) dag.children }

/-- `DagIndex::from_commits` -/
def fromCommits (commits : List Commit) : Except String DagIndex := commits.foldlM append empty

/-- `DagIndex::is_ancestor` -/
def isAncestor (dag : DagIndex) (ancestor commitId : String) : Bool :=
  if ancestor = commitId then true else dag.parents.reachableLocked commitId ancestor

/-- `DagIndex::ancestry` -/
def ancestry (dag : DagIndex) (commitId : String) : List String := dag.parents.collectAncestry commitId

/-- `DagIndex::nearest_common_ancestor` -/
def nearestCommonAncestor (dag : DagIndex) (a b : String) : Option String :=
  (dag.ancestry b).find? (· ∈ dag.ancestry a)

@[simp] theorem record_parents (dag : DagIndex) (commit : Commit) :
    (dag.record commit).parents = dag.parents.insert commit.commitId commit.parentCommitIds := rfl

/-- The self-check of `is_ancestor` agrees with the search. -/
theorem isAncestor_iff {dag : DagIndex} {ancestor commitId : String} :
    dag.isAncestor ancestor commitId = true ↔ Reach dag.parents.next commitId ancestor := by
  rw [isAncestor]
  split
  · next same => exact iff_of_true rfl (same ▸ .refl _)
  · exact ParentMap.reachableLocked_iff

theorem checkParents_eq_ok_iff {parents : ParentMap} {commitId : String} {checked : List String} :
    checkParents parents commitId checked = .ok () ↔
      ∀ parent ∈ checked, parent ∈ parents ∧ ¬ Reach parents.next parent commitId := by
  induction checked with
  | nil => simp [checkParents]
  | cons parent rest ih =>
    rw [checkParents, List.forall_mem_cons, ← ih, ← ParentMap.reachableLocked_iff]
    split_ifs with known cycle
    · simp [cycle]
    · simp [known, cycle]
    · simp [known]

/-- What `append` asks of a commit. -/
structure Accepts (dag : DagIndex) (commit : Commit) : Prop where
  named : commit.commitId ≠ ""
  notOwnParent : commit.commitId ∉ commit.parentCommitIds
  known : ∀ parent ∈ commit.parentCommitIds, parent ∈ dag.parents
  noCycle : ∀ parent ∈ commit.parentCommitIds, ¬ Reach dag.parents.next parent commit.commitId

/-- An append succeeds exactly when the index accepts the commit, and then writes both maps. -/
theorem append_eq_ok_iff {dag dag' : DagIndex} {commit : Commit} :
    dag.append commit = .ok dag' ↔ dag.Accepts commit ∧ dag' = dag.record commit := by
  have fits : checkParents dag.parents commit.commitId commit.parentCommitIds = .ok () ↔ _ :=
    checkParents_eq_ok_iff
  constructor
  · intro success
    rw [append] at success
    split_ifs at success with unnamed own
    simp only [List.any_eq_true, decide_eq_true_eq, exists_eq_right] at own
    cases outcome : checkParents dag.parents commit.commitId commit.parentCommitIds with
    | error refusal => simp [outcome] at success
    | ok =>
      simp only [outcome, Except.ok.injEq] at success
      have checked := fits.mp outcome
      exact ⟨⟨unnamed, own, fun p edge => (checked p edge).1, fun p edge => (checked p edge).2⟩, success.symm⟩
  · rintro ⟨accepts, rfl⟩
    have own : ¬ (commit.parentCommitIds.any (· = commit.commitId)) = true := by
      simpa only [List.any_eq_true, decide_eq_true_eq, exists_eq_right] using accepts.notOwnParent
    rw [append, if_neg accepts.named, if_neg own,
      fits.mpr fun p edge => ⟨accepts.known p edge, accepts.noCycle p edge⟩]

/-- Both versions accept the same commits, and a refusal touches neither map. -/
theorem appendInPlace_eq (dag : DagIndex) (commit : Commit) :
    appendInPlace commit dag =
      ((dag.append commit).map fun _ => (), ((dag.append commit).toOption).getD dag) := by
  have own : commit.parentCommitIds.any (· = commit.commitId) = true ↔
      commit.commitId ∈ commit.parentCommitIds := by
    simp only [List.any_eq_true, decide_eq_true_eq, exists_eq_right]
  rw [appendInPlace, append]
  by_cases unnamed : commit.commitId = ""
  · have refused : Fallible.ensure (commit.commitId ≠ "") "commit_id is required" dag =
        (.error "commit_id is required", dag) := Fallible.ensure_eq_iff.2 (by simp [unnamed])
    rw [Fallible.bind_of_error refused, if_pos unnamed]
    rfl
  · have named : Fallible.ensure (commit.commitId ≠ "") "commit_id is required" dag = (.ok (), dag) :=
      Fallible.ensure_eq_iff.2 (by simp [unnamed])
    rw [Fallible.bind_of_ok named, if_neg unnamed]
    by_cases parent : commit.commitId ∈ commit.parentCommitIds
    · have refused : Fallible.ensure (commit.commitId ∉ commit.parentCommitIds) "commit cannot parent itself"
          dag = (.error "commit cannot parent itself", dag) := Fallible.ensure_eq_iff.2 (by simp [parent])
      rw [Fallible.bind_of_error refused, if_pos (own.mpr parent)]
      rfl
    · have other : Fallible.ensure (commit.commitId ∉ commit.parentCommitIds) "commit cannot parent itself"
          dag = (.ok (), dag) := Fallible.ensure_eq_iff.2 (by simp [parent])
      rw [Fallible.bind_of_ok other, if_neg (own.not.mpr parent),
        Fallible.bind_of_ok (show Fallible.get dag = (.ok dag, dag) from rfl)]
      cases checkParents dag.parents commit.commitId commit.parentCommitIds <;> rfl

end DagIndex

end AttowNexus
