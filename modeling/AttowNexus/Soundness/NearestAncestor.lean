import AttowNexus.Library.Graph.FirstHit
import AttowNexus.Proofs.DagIndex

/-! # The nearest common ancestor

`nearest_common_ancestor` takes the first entry of the ancestry of `b` that is in the ancestry of `a`. An ancestry
lists parents first, so the answer has no parents: it is a root, however much more the two commits share.
-/

namespace AttowNexus

open SuccGraph

namespace DagIndex

/-- An ancestor-or-self of both commits -/
def Shares (dag : DagIndex) (a b x : String) : Prop := Reach dag.parents.next a x ∧ Reach dag.parents.next b x

/-- A shared commit that no other shared commit descends from -/
def IsNearest (dag : DagIndex) (a b x : String) : Prop :=
  dag.Shares a b x ∧ ∀ y, dag.Shares a b y → Reach dag.parents.next y x → y = x

/-- The first shared commit on the way up from `b` that takes at each commit the first parent that shares an ancestor
with `a` -/
def FirstShared (dag : DagIndex) (a b c : String) : Prop :=
  LeftmostHit dag.parents.next (Reach dag.parents.next a) b c

/-- No parent link joins the commit with a shared one. -/
def Isolated (dag : DagIndex) (a b c : String) : Prop :=
  ∀ y, dag.Shares a b y → y ∉ dag.parents.next c ∧ c ∉ dag.parents.next y

variable {dag : DagIndex} {a b x c : String} {commits : List Commit}

/-- The ancestors of a shared commit are shared. -/
theorem Shares.trans (shares : dag.Shares a b x) (path : Reach dag.parents.next x c) : dag.Shares a b c :=
  ⟨shares.1.trans path, shares.2.trans path⟩

/-- Nothing shared is above or below a commit without links to shared ones. -/
theorem Isolated.eq_of_reach (isolated : dag.Isolated a b x) {y : String} (shares : dag.Shares a b y)
    (path : Reach dag.parents.next y x) : y = x := by
  rcases Relation.ReflTransGen.cases_tail path with same | ⟨z, before, edge⟩
  · exact same.symm
  · exact absurd edge (isolated z (shares.trans before)).2

theorem FirstShared.shares (shared : dag.FirstShared a b c) : dag.Shares a b c := ⟨shared.sound.2, shared.sound.1⟩

theorem nearestCommonAncestor_eq_none_iff : dag.nearestCommonAncestor a b = none ↔ ¬ ∃ x, dag.Shares a b x := by
  rw [nearestCommonAncestor, List.find?_eq_none]
  constructor
  · rintro none_ ⟨x, inA, inB⟩
    exact none_ x (mem_ancestry_iff.2 inB) (decide_eq_true (mem_ancestry_iff.2 inA))
  · rintro none_ x inB inA
    exact none_ ⟨x, mem_ancestry_iff.1 (of_decide_eq_true inA), mem_ancestry_iff.1 inB⟩

theorem shares_of_found (found : dag.nearestCommonAncestor a b = some x) : dag.Shares a b x := by
  have inA := List.find?_some found
  rw [decide_eq_true_eq] at inA
  exact ⟨mem_ancestry_iff.1 inA, mem_ancestry_iff.1 (List.mem_of_find?_eq_some found)⟩

/-- The answer has no parents: they would be shared too, and listed before it. -/
theorem root_of_found (acyclic : Acyclic dag.parents.next) (found : dag.nearestCommonAncestor a b = some x) :
    dag.parents.next x = [] := by
  obtain ⟨_, before, after, listed, none_⟩ := List.find?_eq_some_iff_append.mp found
  apply List.eq_nil_iff_forall_not_mem.mpr
  intro parent edge
  have earlier : parent ∈ before.map id := ancestry_parentsFirst acyclic b before x after listed parent edge
  have shared : parent ∈ dag.ancestry a := mem_ancestry_iff.2 ((shares_of_found found).1.trans (.single edge))
  have silent := none_ parent (List.map_id before ▸ earlier)
  rw [decide_eq_true shared] at silent
  exact Bool.false_ne_true silent

/-- The answer lies above the first shared commit. -/
theorem FirstShared.reach_found (shared : dag.FirstShared a b c) (acyclic : Acyclic dag.parents.next)
    (found : dag.nearestCommonAncestor a b = some x) : Reach dag.parents.next c x := by
  classical
  have finds : (dag.ancestry b).find? (fun y => Reach dag.parents.next a y) = some x := by
    rw [← found, nearestCommonAncestor]
    exact congrArg (List.find? · _) (funext fun y => decide_eq_decide.mpr mem_ancestry_iff.symm)
  refine shared.reach_find (fun _ unknown => ParentMap.next_of_notMem unknown) acyclic ?_ ?_ .nil ?_ finds
  · rw [Finset.sdiff_empty]
    exact Nat.lt_succ_self _
  · exact fun g marked => absurd marked (Finset.notMem_empty g)
  · exact fun z listed => absurd listed List.not_mem_nil

/-- The answer is right exactly when the two commits share nothing or no parent link joins the first shared commit with
another one. -/
theorem nearestCommonAncestor_iff (a b : String) (built : fromCommits commits = .ok dag) :
    ((dag.nearestCommonAncestor a b = none ↔ ¬ ∃ x, dag.Shares a b x) ∧
      ∀ x, dag.nearestCommonAncestor a b = some x → dag.IsNearest a b x) ↔
    ∀ c, dag.FirstShared a b c → dag.Isolated a b c := by
  have acyclic : Acyclic dag.parents.next := (fromCommits_ok built).2.acyclic
  constructor
  · rintro ⟨noneIff, nearest⟩ c shared
    obtain ⟨x, found⟩ : ∃ x, dag.nearestCommonAncestor a b = some x := by
      apply Option.ne_none_iff_exists'.mp
      exact fun none_ => noneIff.mp none_ ⟨c, shared.shares⟩
    obtain rfl : c = x := (nearest x found).2 c shared.shares (shared.reach_found acyclic found)
    have root : dag.parents.next c = [] := root_of_found acyclic found
    intro y shares
    refine ⟨root ▸ List.not_mem_nil, fun edge => ?_⟩
    obtain rfl := (nearest c found).2 y shares (.single edge)
    exact acyclic.not_reach_of_edge edge (.refl y)
  · intro clean
    refine ⟨nearestCommonAncestor_eq_none_iff, fun x found => ?_⟩
    have shares := shares_of_found found
    obtain ⟨c, shared⟩ : ∃ c, dag.FirstShared a b c :=
      LeftmostHit.exists_of_reach (ancestry_parentsFirst acyclic b) (mem_ancestry_iff.2 (.refl b)) ⟨x, shares.2, shares.1⟩
    have isolated := clean c shared
    obtain rfl : c = x := by
      rcases (shared.reach_found acyclic found).eq_or_head with same | ⟨y, edge, _⟩
      · exact same
      · exact absurd edge (isolated y (shared.shares.trans (.single edge))).1
    exact ⟨shared.shares, fun y shares path => isolated.eq_of_reach shares path⟩

section Sample

private def grown (commitId : String) (parentCommitIds : List String) : Commit :=
  { (default : Commit) with commitId := commitId, parentCommitIds := parentCommitIds }

private def siblings : List Commit := [grown "r" [], grown "a" ["r"], grown "b" ["r"]]

private def cousins : List Commit := [grown "r" [], grown "m" ["r"], grown "a" ["m"], grown "b" ["m"]]

/-- Two commits right above one root -/
theorem nearestCommonAncestor_siblings :
    (ofCommits siblings).nearestCommonAncestor "a" "b" = some "r" ∧ (ofCommits siblings).IsNearest "a" "b" "r" := by
  refine ⟨by decide, ?_⟩
  have only : ∀ y, (ofCommits siblings).Shares "a" "b" y → y = "r" := by
    intro y shares
    have inA : y ∈ ["r", "a"] := mem_ancestry_iff.2 shares.1
    have inB : y ∈ ["r", "b"] := mem_ancestry_iff.2 shares.2
    simp only [List.mem_cons, List.not_mem_nil, or_false] at inA inB
    rcases inA with same | rfl
    · exact same
    · exact absurd inB (by decide)
  refine ((nearestCommonAncestor_iff "a" "b" (fromCommits_of_isSome (by decide))).mpr ?_).2 "r" (by decide)
  intro c shared
  obtain rfl := only c shared.shares
  intro y shares
  obtain rfl := only y shares
  exact ⟨by decide, by decide⟩

/-- With one more commit above the root, the root is still the answer. -/
theorem nearestCommonAncestor_cousins :
    fromCommits cousins = .ok (ofCommits cousins) ∧ "a" ∈ (ofCommits cousins).parents ∧ "b" ∈ (ofCommits cousins).parents ∧
      (ofCommits cousins).nearestCommonAncestor "a" "b" = some "r" ∧ ¬ (ofCommits cousins).IsNearest "a" "b" "r" := by
  refine ⟨fromCommits_of_isSome (by decide), by decide, by decide, by decide, ?_⟩
  rintro ⟨_, nearest⟩
  have shares : (ofCommits cousins).Shares "a" "b" "m" :=
    ⟨isAncestor_iff.1 (by decide), isAncestor_iff.1 (by decide)⟩
  exact absurd (nearest "m" shares (isAncestor_iff.1 (by decide))) (by decide)

end Sample

end DagIndex

end AttowNexus
