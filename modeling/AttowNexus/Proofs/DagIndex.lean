import AttowNexus.Model.DagIndex

/-! # Appends keep the index a closed acyclic graph

An accepted append replaces the successors of one vertex by known vertices that do not reach it, so both
parts of well-formedness survive. Rebuilding from a list of commits with distinct ids succeeds exactly
when the list puts parents first, and then each commit has the parents it states.
-/

namespace AttowNexus

open SuccGraph

namespace ParentMap

variable {parents : ParentMap}

theorem next_of_lookup {commitId : String} {above : List String}
    (found : parents.lookup commitId = some above) : parents.next commitId = above := by
  rw [next, found, Option.getD_some]

/-- Writing a commit is an update of the graph at its vertex. -/
theorem next_insert (commitId : String) (above : List String) :
    ParentMap.next (parents.insert commitId above) = Function.update parents.next commitId above := by
  funext other
  by_cases same : other = commitId
  · rw [same, Function.update_self, next_of_lookup (Finmap.lookup_insert _)]
  · rw [Function.update_of_ne same, next, Finmap.lookup_insert_of_ne _ same, next]

/-- Parents are known, and no commit is its own ancestor. -/
structure WellFormed (parents : ParentMap) : Prop where
  closed : ∀ commitId, ∀ parent ∈ parents.next commitId, parent ∈ parents
  acyclic : Acyclic parents.next

theorem next_empty (commitId : String) : ParentMap.next ∅ commitId = [] := by
  rw [next, Finmap.lookup_empty, Option.getD_none]

theorem wellFormed_empty : WellFormed ∅ where
  closed commitId parent edge := by
    rw [next_empty] at edge
    exact absurd edge List.not_mem_nil
  acyclic := by
    have bare : ParentMap.next ∅ = fun _ => [] := funext next_empty
    rw [bare]
    exact acyclic_nil

/-- Everything reached from a known commit is known. -/
theorem WellFormed.mem_of_reach (wellFormed : parents.WellFormed) {commitId ancestor : String}
    (known : commitId ∈ parents) (path : Reach parents.next commitId ancestor) : ancestor ∈ parents :=
  path.mem_of_closed {member | member ∈ parents} (fun _ _ parent edge => wellFormed.closed _ parent edge) known

end ParentMap

namespace DagIndex

variable {dag : DagIndex} {commit : Commit}

theorem mem_record_iff {commitId : String} :
    commitId ∈ (dag.record commit).parents ↔ commitId = commit.commitId ∨ commitId ∈ dag.parents :=
  Finmap.mem_insert

theorem next_record :
    (dag.record commit).parents.next = Function.update dag.parents.next commit.commitId commit.parentCommitIds :=
  ParentMap.next_insert _ _

/-- An accepted commit leaves the index well formed, whether its id is new or known. -/
theorem Accepts.wellFormed (accepts : dag.Accepts commit) (wellFormed : dag.parents.WellFormed) :
    (dag.record commit).parents.WellFormed where
  closed commitId parent edge := by
    rw [next_record] at edge
    rw [mem_record_iff]
    by_cases same : commitId = commit.commitId
    · rw [same, Function.update_self] at edge
      exact .inr (accepts.known parent edge)
    · rw [Function.update_of_ne same] at edge
      exact .inr (wellFormed.closed commitId parent edge)
  acyclic := by
    rw [next_record]
    exact wellFormed.acyclic.update accepts.noCycle

/-- With a new id only the known parents matter: nothing known reaches the commit. -/
theorem accepts_of_fresh (wellFormed : dag.parents.WellFormed) (named : commit.commitId ≠ "")
    (fresh : commit.commitId ∉ dag.parents) (known : ∀ parent ∈ commit.parentCommitIds, parent ∈ dag.parents) :
    dag.Accepts commit where
  named := named
  notOwnParent own := fresh (known _ own)
  known := known
  noCycle parent edge path := fresh (wellFormed.mem_of_reach (known parent edge) path)

/-- With known parents an append is refused for its own id or for a cycle only. -/
theorem append_error_of_known (known : ∀ parent ∈ commit.parentCommitIds, parent ∈ dag.parents) {refusal : String}
    (refused : dag.append commit = .error refusal) :
    refusal = "commit_id is required" ∨ refusal = "commit cannot parent itself" ∨
      refusal = "commit would introduce a DAG cycle" := by
  have checked : ∀ {parents : List String}, (∀ parent ∈ parents, parent ∈ dag.parents) →
      checkParents dag.parents commit.commitId parents = .error refusal →
        refusal = "commit would introduce a DAG cycle" := by
    intro parents known failed
    induction parents with
    | nil => exact absurd failed nofun
    | cons parent rest ih =>
      obtain ⟨here, later⟩ := List.forall_mem_cons.mp known
      rw [checkParents, if_neg (not_not.mpr here)] at failed
      split_ifs at failed
      · exact (Except.error.inj failed).symm
      · exact ih later failed
  rw [append] at refused
  split_ifs at refused
  · exact .inl (Except.error.inj refused).symm
  · exact .inr (.inl (Except.error.inj refused).symm)
  · cases outcome : checkParents dag.parents commit.commitId commit.parentCommitIds with
    | error other =>
      simp only [outcome, Except.error.injEq] at refused
      exact .inr (.inr (checked known (refused ▸ outcome)))
    | ok => simp [outcome] at refused

/-- The ancestry lists the reachable commits, each once and parents first. -/
theorem mem_ancestry_iff {commitId ancestor : String} :
    ancestor ∈ dag.ancestry commitId ↔ Reach dag.parents.next commitId ancestor :=
  ParentMap.mem_collectAncestry_iff

theorem ancestry_nodup (commitId : String) : (dag.ancestry commitId).Nodup := ParentMap.collectAncestry_nodup _

theorem ancestry_parentsFirst (acyclic : Acyclic dag.parents.next) (commitId : String) :
    ParentsFirst id dag.parents.next (dag.ancestry commitId) :=
  ParentMap.collectAncestry_parentsFirst acyclic _

section Children

variable {children : HashMap String (List String)} {commitId : String}

/-- How many entries a commit has in the map of children. -/
def childCount (children : HashMap String (List String)) (parent : String) : ℕ :=
  ((children.lookup parent).getD []).length

theorem childCount_addChild (other parent : String) :
    childCount (addChild commitId children other) parent =
      childCount children parent + if parent = other then 1 else 0 := by
  rw [childCount, childCount, addChild]
  by_cases same : parent = other
  · rw [same, Finmap.lookup_insert, Option.getD_some, List.length_append, if_pos rfl, List.length_singleton]
  · rw [Finmap.lookup_insert_of_ne _ same, if_neg same, Nat.add_zero]

/-- Every parent gets one more entry, as often as it is listed. -/
theorem childCount_foldl_addChild (parents : List String) (parent : String) :
    childCount (parents.foldl (addChild commitId) children) parent =
      childCount children parent + parents.count parent := by
  induction parents generalizing children with
  | nil => rfl
  | cons other rest ih =>
    rw [List.foldl_cons, ih, childCount_addChild, List.count_cons, beq_eq_decide]
    simp only [decide_eq_true_eq, @eq_comm _ parent other]
    omega

/-- Recording leaves the index as it is only for a known commit without parents. -/
theorem record_eq_self_iff :
    dag.record commit = dag ↔ commit.parentCommitIds = [] ∧ dag.parents.lookup commit.commitId = some [] := by
  constructor
  · intro same
    have bare : commit.parentCommitIds = [] := by
      apply List.eq_nil_iff_forall_not_mem.mpr
      intro parent edge
      have grown : childCount (dag.record commit).children parent =
        childCount dag.children parent + commit.parentCommitIds.count parent := childCount_foldl_addChild _ _
      have positive := List.count_pos_iff.mpr edge
      rw [same] at grown
      omega
    refine ⟨bare, ?_⟩
    rw [← same, record_parents, Finmap.lookup_insert, bare]
  · rintro ⟨bare, known⟩
    have parents : (dag.record commit).parents = dag.parents := by
      apply Finmap.ext_lookup
      intro other
      rw [record_parents, bare]
      by_cases here : other = commit.commitId
      · rw [here, Finmap.lookup_insert, known]
      · rw [Finmap.lookup_insert_of_ne _ here]
    have children : (dag.record commit).children = dag.children := by rw [record, bare, List.foldl_nil]
    exact congrArg₂ DagIndex.mk parents children

end Children

/-- The index after recording commits in order, whatever they are. -/
def ofCommits (commits : List Commit) : DagIndex := commits.foldl record empty

theorem ofCommits_snoc (commits : List Commit) (commit : Commit) :
    ofCommits (commits ++ [commit]) = (ofCommits commits).record commit := by
  rw [ofCommits, List.foldl_append]
  rfl

theorem mem_ofCommits_iff {commits : List Commit} {commitId : String} :
    commitId ∈ (ofCommits commits).parents ↔ commitId ∈ commits.map (·.commitId) := by
  induction commits using List.reverseRecOn with
  | nil => simp [ofCommits, empty, Finmap.notMem_empty]
  | append_singleton commits commit ih =>
    rw [ofCommits_snoc, mem_record_iff, ih, List.map_append, List.mem_append, or_comm]
    simp only [List.map_cons, List.map_nil, List.mem_singleton]

/-- When commits with one id are equal, the index states the parents of each. -/
theorem lookup_ofCommits {commits : List Commit}
    (unique : ∀ c ∈ commits, ∀ d ∈ commits, c.commitId = d.commitId → c = d) {commit : Commit}
    (member : commit ∈ commits) :
    (ofCommits commits).parents.lookup commit.commitId = some commit.parentCommitIds := by
  induction commits using List.reverseRecOn with
  | nil => exact absurd member List.not_mem_nil
  | append_singleton commits last ih =>
    rw [ofCommits_snoc, record_parents]
    by_cases same : commit.commitId = last.commitId
    · rw [same, Finmap.lookup_insert, unique commit member last (by simp) same]
    · rw [Finmap.lookup_insert_of_ne _ same]
      refine ih (fun c here d there => unique c (by simp [here]) d (by simp [there])) ?_
      rcases List.mem_append.mp member with here | here
      · exact here
      · exact absurd (congrArg Commit.commitId (List.mem_singleton.mp here)) same

/-- The order in which different commits are recorded does not matter. -/
theorem ofCommits_parents_eq {left right : List Commit}
    (unique : ∀ c ∈ left, ∀ d ∈ left, c.commitId = d.commitId → c = d) (same : ∀ c, c ∈ right ↔ c ∈ left) :
    (ofCommits right).parents = (ofCommits left).parents := by
  have unique' : ∀ c ∈ right, ∀ d ∈ right, c.commitId = d.commitId → c = d :=
    fun c here d there => unique c ((same c).mp here) d ((same d).mp there)
  apply Finmap.ext_lookup
  intro commitId
  by_cases known : commitId ∈ left.map (·.commitId)
  · obtain ⟨commit, member, rfl⟩ := List.mem_map.mp known
    rw [lookup_ofCommits unique member, lookup_ofCommits unique' ((same commit).mpr member)]
  · have unknown : commitId ∉ right.map (·.commitId) := by
      intro listed
      obtain ⟨commit, member, rfl⟩ := List.mem_map.mp listed
      exact known (List.mem_map_of_mem ((same commit).mp member))
    rw [Finmap.lookup_eq_none.mpr (mem_ofCommits_iff.not.mpr known),
      Finmap.lookup_eq_none.mpr (mem_ofCommits_iff.not.mpr unknown)]

theorem fromCommits_snoc (commits : List Commit) (commit : Commit) :
    fromCommits (commits ++ [commit]) = (fromCommits commits).bind (append · commit) := by
  rw [fromCommits, List.foldlM_append, fromCommits]
  cases commits.foldlM append empty with
  | error refusal => rfl
  | ok dag =>
    change (List.foldlM append dag [commit]) = append dag commit
    rw [List.foldlM_cons]
    cases append dag commit <;> rfl

/-- A rebuild is a sequence of accepted appends. -/
theorem fromCommits_eq_ok_snoc_iff {commits : List Commit} {commit : Commit} {dag' : DagIndex} :
    fromCommits (commits ++ [commit]) = .ok dag' ↔
      ∃ dag, fromCommits commits = .ok dag ∧ dag.Accepts commit ∧ dag' = dag.record commit := by
  rw [fromCommits_snoc]
  cases fromCommits commits with
  | error refusal => simp [Except.bind]
  | ok dag => simp [Except.bind, append_eq_ok_iff]

/-- A rebuild that succeeds yields the recorded commits in a well-formed index. -/
theorem fromCommits_ok {commits : List Commit} {dag : DagIndex} (built : fromCommits commits = .ok dag) :
    dag = ofCommits commits ∧ dag.parents.WellFormed := by
  induction commits using List.reverseRecOn generalizing dag with
  | nil =>
    obtain rfl : empty = dag := by simpa [fromCommits, pure, Except.pure] using built
    exact ⟨rfl, ParentMap.wellFormed_empty⟩
  | append_singleton commits commit ih =>
    obtain ⟨before, prior, accepts, rfl⟩ := fromCommits_eq_ok_snoc_iff.1 built
    obtain ⟨rfl, wellFormed⟩ := ih prior
    exact ⟨(ofCommits_snoc _ _).symm, accepts.wellFormed wellFormed⟩

/-- A rebuild that is not refused yields the recorded commits. -/
theorem fromCommits_of_isSome {commits : List Commit} (accepted : (fromCommits commits).toOption.isSome = true) :
    fromCommits commits = .ok (ofCommits commits) := by
  cases built : fromCommits commits with
  | error refusal =>
    rw [built] at accepted
    exact absurd accepted Bool.false_ne_true
  | ok dag => rw [(fromCommits_ok built).1]

/-- Commits with distinct ids can be loaded in an order exactly when it puts parents first. -/
theorem fromCommits_ok_iff {commits : List Commit} (distinct : (commits.map (·.commitId)).Nodup)
    (named : ∀ commit ∈ commits, commit.commitId ≠ "") :
    (∃ dag, fromCommits commits = .ok dag) ↔
      ParentsFirst (·.commitId) (·.parentCommitIds) commits := by
  induction commits using List.reverseRecOn with
  | nil => exact ⟨fun _ => .nil, fun _ => ⟨_, rfl⟩⟩
  | append_singleton commits commit ih =>
    rw [List.map_append, List.map_singleton] at distinct
    obtain ⟨before, _, apart⟩ := List.nodup_append.mp distinct
    have fresh : commit.commitId ∉ commits.map (·.commitId) := fun again =>
      apart _ again _ (List.mem_singleton_self _) rfl
    rw [ParentsFirst.snoc_iff, ← ih before fun c member => named c (List.mem_append_left _ member)]
    constructor
    · rintro ⟨dag', built⟩
      obtain ⟨dag, prior, accepts, rfl⟩ := fromCommits_eq_ok_snoc_iff.1 built
      refine ⟨⟨dag, prior⟩, fun parent edge => ?_⟩
      have known := accepts.known parent edge
      rwa [(fromCommits_ok prior).1, mem_ofCommits_iff] at known
    · rintro ⟨⟨dag, prior⟩, ready⟩
      obtain ⟨rfl, wellFormed⟩ := fromCommits_ok prior
      refine ⟨_, fromCommits_eq_ok_snoc_iff.2 ⟨_, prior, ?_, rfl⟩⟩
      apply accepts_of_fresh wellFormed (named commit (by simp))
      · rwa [mem_ofCommits_iff]
      · exact fun parent edge => mem_ofCommits_iff.2 (ready parent edge)

end DagIndex

end AttowNexus
