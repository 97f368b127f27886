import AttowNexus.Proofs.Intact
import AttowNexus.Proofs.Merge
import AttowNexus.Proofs.Payload

/-! # Branches with keys of their own replay alike

Two chains above one commit are collected one after the other, and the sort may interleave them. It keeps each chain in
order and between what lies below and the commit that joins them. When the chains write different keys, every key sees
the payloads of one chain only, so the interleaving and the order of the two parents make no difference.
-/

namespace AttowNexus

open SuccGraph

variable {deps : External} {tables : CommitTables} {base merge : Commit} {first second : List Commit}

section Chains

/-- The last commit of a chain above another commit -/
def tip (base : Commit) (chain : List Commit) : Commit := chain.getLastD base

theorem tip_concat (base commit : Commit) (chain : List Commit) : tip base (chain ++ [commit]) = commit := by
  rw [tip, List.getLastD_concat]

/-- Commits whose only parent is the one before them -/
inductive ChainAbove (base : Commit) : List Commit → Prop
  | nil : ChainAbove base []
  | snoc {chain : List Commit} {commit : Commit} : ChainAbove base chain →
      commit.parentCommitIds = [(tip base chain).commitId] → ChainAbove base (chain ++ [commit])

namespace CommitTables

/-- No commit is among its own ancestors. -/
theorem Causal.not_reach_of_mem (keyed : tables.Keyed) (causal : tables.Causal) {commit : Commit} {parent : String}
    (member : commit ∈ tables.stored) (edge : parent ∈ commit.parentCommitIds) :
    ¬ Reach tables.parentsOf parent commit.commitId := by
  intro path
  have later := causal.idxOf_le_of_reach keyed path
  have earlier := causal.idxOf_lt keyed.stored_nodup member edge
  omega

/-- The ancestry of the tip is that of the base and then the chain. -/
theorem ancestryCommits_tip (keyed : tables.Keyed) (causal : tables.Causal) {chain below : List Commit}
    (above : ChainAbove base chain) (stored : ∀ commit ∈ chain, commit ∈ tables.stored)
    (read : ancestryCommits tables base.commitId = .ok below) :
    ancestryCommits tables (tip base chain).commitId = .ok (below ++ chain) := by
  induction above with
  | nil => rwa [List.append_nil]
  | @snoc chain commit _ parent ih =>
    obtain ⟨old, new⟩ := List.forall_mem_append.mp stored
    have only : ∀ other ∈ commit.parentCommitIds, other = (tip base chain).commitId := by
      simp only [parent, List.mem_singleton, imp_self, implies_true]
    rw [tip_concat, ancestryCommits_of_onlyParent keyed causal (new commit (List.mem_singleton_self _))
      (by simp [parent]) only (ih old), List.append_assoc]

/-- Collecting the tip where the base is listed already adds the rest of the chain. -/
theorem collect_tip (keyed : tables.Keyed) {chain before : List Commit} (above : ChainAbove base chain)
    (stored : ∀ commit ∈ chain, commit ∈ tables.stored) (distinct : (chain.map (·.commitId)).Nodup)
    (listing : tables.Listing before) (listed : base.commitId ∈ before.map (·.commitId)) {fuel : ℕ}
    {after : List Commit} (run : collect tables fuel (tip base chain).commitId before = .ok after) :
    after = before ++ chain.filter fun commit => commit.commitId ∉ before.map (·.commitId) := by
  induction above generalizing fuel after with
  | nil =>
    rw [List.filter_nil, List.append_nil]
    exact listing.collect_again keyed listed run
  | @snoc chain commit _ parent ih =>
    obtain ⟨old, new⟩ := List.forall_mem_append.mp stored
    rw [List.map_append, List.nodup_append] at distinct
    obtain ⟨distinct, _, fresh⟩ := distinct
    rw [tip_concat] at run
    cases fuel with
    | zero => exact absurd run nofun
    | succ fuel =>
      obtain ⟨same, low, found, loop, rfl⟩ := collect_succ_eq_ok_iff.1 run
      obtain rfl : commit = same := by
        have own := keyed.getCommit_eq_some_iff.mpr ⟨new commit (List.mem_singleton_self _), rfl⟩
        exact Option.some.inj (own.symm.trans found)
      rw [parent, List.foldlM_cons] at loop
      cases step : collect tables fuel (tip base chain).commitId before with
      | error error => exact absurd (step ▸ loop) nofun
      | ok middle =>
        rw [step] at loop
        obtain rfl : middle = low := Except.ok.inj loop
        obtain rfl := ih old distinct step
        have unlisted : commit.commitId ∉ chain.map (·.commitId) :=
          fun inside => fresh _ inside _ (List.mem_singleton_self _) rfl
        rw [List.filter_append, List.filter_singleton]
        by_cases known : commit.commitId ∈ before.map (·.commitId)
        · obtain ⟨other, inside, equal⟩ := List.mem_map.mp known
          rw [if_pos]
          · simp [known]
          · exact List.any_eq_true.mpr ⟨other, List.mem_append_left _ inside, decide_eq_true equal⟩
        · rw [if_neg]
          · simp [known]
          · simp only [List.any_eq_true, decide_eq_true_eq, List.mem_append]
            rintro ⟨other, inside | inside, equal⟩
            · exact known (equal ▸ List.mem_map_of_mem inside)
            · exact unlisted (equal ▸ List.mem_map_of_mem (List.mem_of_mem_filter inside))

/-- The ancestry of a commit on top of two chains lists one chain and then the rest of the other one. -/
theorem ancestryCommits_merge (keyed : tables.Keyed) (causal : tables.Causal) (firstAbove : ChainAbove base first)
    (secondAbove : ChainAbove base second) (storedMerge : merge ∈ tables.stored)
    (storedFirst : ∀ commit ∈ first, commit ∈ tables.stored) (storedSecond : ∀ commit ∈ second, commit ∈ tables.stored)
    (parents : merge.parentCommitIds = [(tip base first).commitId, (tip base second).commitId]) {below : List Commit}
    (read : ancestryCommits tables base.commitId = .ok below) :
    ancestryCommits tables merge.commitId =
      .ok (below ++ (first ++ second.filter fun commit => commit.commitId ∉ first.map (·.commitId)) ++ [merge]) := by
  have readFirst := ancestryCommits_tip keyed causal firstAbove storedFirst read
  have readSecond := ancestryCommits_tip keyed causal secondAbove storedSecond read
  obtain ⟨listing, idsFirst⟩ : tables.Listing (below ++ first) ∧ _ := ancestryCommits_listing keyed readFirst
  obtain ⟨listingSecond, idsSecond⟩ : tables.Listing (below ++ second) ∧ _ := ancestryCommits_listing keyed readSecond
  obtain ⟨_, idsBelow⟩ : tables.Listing below ∧ _ := ancestryCommits_listing keyed read
  have distinct := listingSecond.distinct
  rw [List.map_append, List.nodup_append] at distinct
  obtain ⟨_, distinct, apart⟩ := distinct
  obtain ⟨listed, run, _⟩ := ancestryCommits_ok keyed causal storedMerge
  obtain ⟨same, low, found, loop, rfl⟩ := collect_succ_eq_ok_iff.1 run
  obtain rfl : merge = same :=
    Option.some.inj ((keyed.getCommit_eq_some_iff.mpr ⟨storedMerge, rfl⟩).symm.trans found)
  have collected : low = below ++ (first ++ second.filter fun commit => commit.commitId ∉ first.map (·.commitId)) := by
    rw [parents, List.foldlM_cons] at loop
    cases step : collect tables tables.commits.length (tip base first).commitId [] with
    | error error => exact absurd (step ▸ loop) nofun
    | ok middle =>
      obtain rfl : middle = below ++ first :=
        collect_agree (fun _ c d left right => Option.some.inj (left.symm.trans right)) step readFirst
      rw [step] at loop
      have rest : (collect tables tables.commits.length (tip base second).commitId (below ++ first) >>= pure) = .ok low := loop
      cases last : collect tables tables.commits.length (tip base second).commitId (below ++ first) with
      | error error => exact absurd (last ▸ rest) nofun
      | ok middle =>
        rw [last] at rest
        obtain rfl : middle = low := Except.ok.inj rest
        have known : base.commitId ∈ (below ++ first).map (·.commitId) := by
          rw [List.map_append]
          exact List.mem_append_left _ ((idsBelow _).mpr (.refl _))
        rw [collect_tip keyed secondAbove storedSecond distinct listing known last, List.append_assoc]
        congr 2
        refine List.filter_congr fun commit inside => ?_
        have unlisted : commit.commitId ∉ below.map (·.commitId) :=
          fun listed => apart _ listed _ (List.mem_map_of_mem inside) rfl
        simp only [List.map_append, List.mem_append, unlisted, false_or]
  subst collected
  rw [run, if_neg]
  simp only [List.any_eq_true, decide_eq_true_eq]
  rintro ⟨other, inside, again⟩
  -- all that is listed is an ancestor of one of the tips
  have cases : other.commitId ∈ (below ++ first).map (·.commitId) ∨ other.commitId ∈ (below ++ second).map (·.commitId) := by
    simp only [List.map_append, List.mem_append] at inside ⊢
    rcases inside with inside | inside | inside
    · exact .inl (.inl (List.mem_map_of_mem inside))
    · exact .inl (.inr (List.mem_map_of_mem inside))
    · exact .inr (.inr (List.mem_map_of_mem (List.mem_of_mem_filter inside)))
  rw [again] at cases
  rcases cases with inside | inside
  · exact causal.not_reach_of_mem keyed storedMerge (by simp [parents]) ((idsFirst _).mp inside)
  · exact causal.not_reach_of_mem keyed storedMerge (by simp [parents]) ((idsSecond _).mp inside)

end CommitTables

end Chains

section States

variable (deps)

/-- The members that the payload of a commit writes -/
def written (commit : Commit) : JsonMap := (payloadToJson deps commit.stateDelta).members

variable (tables)

/-- Two chains above a commit and a commit on top of both. The chains write objects without a common key, and their
clocks run from those at and below the base to that of the commit on top. -/
structure Branches (base : Commit) (first second : List Commit) (merge : Commit) : Prop where
  storedBase : base ∈ tables.stored
  storedMerge : merge ∈ tables.stored
  stored : ∀ commit ∈ first ++ second, commit ∈ tables.stored
  firstAbove : ChainAbove base first
  secondAbove : ChainAbove base second
  parents : merge.parentCommitIds = [(tip base first).commitId, (tip base second).commitId]
  objects : ∀ commit ∈ first ++ second, ∃ members, payloadToJson deps commit.stateDelta = .object members
  apart : ∀ x ∈ first, ∀ y ∈ second, ∀ key ∈ (written deps x).map (·.1), key ∉ (written deps y).map (·.1)
  firstRising : first.Pairwise fun x y => x.replayKey ≤ y.replayKey
  secondRising : second.Pairwise fun x y => x.replayKey ≤ y.replayKey
  afterBase : ∀ commit ∈ first ++ second, ∀ below ∈ tables.stored,
    Reach tables.parentsOf base.commitId below.commitId → below.replayKey ≤ commit.replayKey
  beforeMerge : ∀ commit ∈ first ++ second, commit.replayKey ≤ merge.replayKey

/-- The members after one chain and then the other -/
def branchMembers (state : Json) (first second : List Commit) : JsonMap :=
  ((first ++ second).map (written deps)).foldl mergeMembers state.members

variable {deps tables}

theorem written_sorted (commit : Commit) : (Json.object (written deps commit)).Sorted :=
  (payloadToJson_sorted commit.stateDelta).members

theorem filterMap_filter_of_none {α β : Type} {p : α → Bool} {g : α → Option β} {items : List α}
    (none : ∀ a ∈ items, p a = false → g a = none) : (items.filter p).filterMap g = items.filterMap g := by
  rw [List.filterMap_filter]
  refine List.filterMap_congr fun a member => ?_
  split_ifs with kept
  · rfl
  · exact (none a member (Bool.eq_false_iff.mpr kept)).symm

/-- Of each key, the payloads of the one chain or those of the other are silent. -/
theorem silent_of_apart
    (apart : ∀ x ∈ first, ∀ y ∈ second, ∀ key ∈ (written deps x).map (·.1), key ∉ (written deps y).map (·.1))
    (key : String) : (∀ x ∈ first, JsonMap.get key (written deps x) = none) ∨
      ∀ y ∈ second, JsonMap.get key (written deps y) = none := by
  by_cases silent : ∀ x ∈ first, JsonMap.get key (written deps x) = none
  · exact .inl silent
  · push Not at silent
    obtain ⟨x, inside, writes⟩ := silent
    refine .inr fun y member => JsonMap.get_eq_none_iff.2 (apart x inside y member key ?_)
    by_contra absent
    exact writes (JsonMap.get_eq_none_iff.2 absent)

theorem Branches.swap_members (branches : Branches deps tables base first second merge) {state : Json}
    (sorted : state.Sorted) : branchMembers deps state first second = branchMembers deps state second first := by
  refine foldl_mergeMembers_congr sorted.members (List.forall_mem_map.mpr fun commit _ => written_sorted commit)
    (List.forall_mem_map.mpr fun commit _ => written_sorted commit) fun key => ?_
  rw [List.filterMap_map, List.filterMap_map, List.filterMap_append, List.filterMap_append]
  rcases silent_of_apart branches.apart key with silent | silent
  · have bare : first.filterMap (JsonMap.get key ∘ written deps) = [] := List.filterMap_eq_nil_iff.mpr silent
    rw [bare, List.nil_append, List.append_nil]
  · have bare : second.filterMap (JsonMap.get key ∘ written deps) = [] := List.filterMap_eq_nil_iff.mpr silent
    rw [bare, List.nil_append, List.append_nil]

/-- The sort keeps each chain in order. -/
theorem Branches.filter_sorted (branches : Branches deps tables base first second merge) {inFirst : Commit → Bool}
    (marks : ∀ commit, inFirst commit = true ↔ commit.commitId ∈ first.map (·.commitId)) :
    (sortForReplay (first ++ second.filter fun commit => !inFirst commit)).filter inFirst = first ∧
      (sortForReplay (first ++ second.filter fun commit => !inFirst commit)).filter (fun commit => !inFirst commit) =
        second.filter fun commit => !inFirst commit := by
  have all : first.filter inFirst = first :=
    List.filter_eq_self.mpr fun commit inside => (marks commit).mpr (List.mem_map_of_mem inside)
  have none : first.filter (fun commit => !inFirst commit) = [] :=
    List.filter_eq_nil_iff.mpr fun commit inside => by simp [(marks commit).mpr (List.mem_map_of_mem inside)]
  have kept : (first ++ second.filter fun commit => !inFirst commit).filter inFirst = first := by
    rw [List.filter_append, all, List.filter_filter]
    simp
  have others : (first ++ second.filter fun commit => !inFirst commit).filter (fun commit => !inFirst commit) =
      second.filter fun commit => !inFirst commit := by
    rw [List.filter_append, none, List.nil_append, List.filter_filter]
    simp
  constructor
  · rw [sortForReplay, Listing.filter_insertionSort, kept]
    rw [kept]
    exact branches.firstRising
  · rw [sortForReplay, Listing.filter_insertionSort, others]
    rw [others]
    exact branches.secondRising.filter _

/-- However the sort interleaves two chains, each key sees one chain and then the other. -/
theorem Branches.filterMap_sorted (keyed : tables.Keyed) (branches : Branches deps tables base first second merge)
    (key : String) :
    (sortForReplay (first ++ second.filter fun commit => commit.commitId ∉ first.map (·.commitId))).filterMap
        (JsonMap.get key ∘ written deps) = (first ++ second).filterMap (JsonMap.get key ∘ written deps) := by
  obtain ⟨storedFirst, storedSecond⟩ := List.forall_mem_append.mp branches.stored
  let inFirst : Commit → Bool := fun commit => commit.commitId ∈ first.map (·.commitId)
  have marks : ∀ commit, inFirst commit = true ↔ commit.commitId ∈ first.map (·.commitId) :=
    fun commit => decide_eq_true_iff
  have rest : (second.filter fun commit => commit.commitId ∉ first.map (·.commitId)) =
      second.filter fun commit => !inFirst commit :=
    List.filter_congr fun commit _ => decide_not
  obtain ⟨ofFirst, ofSecond⟩ := branches.filter_sorted marks
  rw [rest, List.filterMap_append]
  have members : ∀ commit ∈ sortForReplay (first ++ second.filter fun commit => !inFirst commit),
      commit ∈ first ∨ commit ∈ second ∧ inFirst commit = false := by
    intro commit inside
    rw [sortForReplay, List.mem_insertionSort, List.mem_append, List.mem_filter, Bool.not_eq_true'] at inside
    exact inside
  generalize sortForReplay (first ++ second.filter fun commit => !inFirst commit) = sorted at ofFirst ofSecond members ⊢
  rcases silent_of_apart branches.apart key with silent | silent
  · -- the commits of the first chain are silent, also where they stand in the second one
    have bare : first.filterMap (JsonMap.get key ∘ written deps) = [] := List.filterMap_eq_nil_iff.mpr silent
    have shared : ∀ commit ∈ second, (!inFirst commit) = false → (JsonMap.get key ∘ written deps) commit = none := by
      intro commit inside marked
      obtain ⟨x, member, same⟩ := List.mem_map.mp ((marks commit).mp (by simpa using marked))
      rw [← List.inj_on_of_nodup_map keyed.stored_nodup (storedFirst x member) (storedSecond commit inside) same]
      exact silent x member
    have others : ∀ commit ∈ sorted, (!inFirst commit) = false → (JsonMap.get key ∘ written deps) commit = none := by
      intro commit inside marked
      rcases members commit inside with here | ⟨there, _⟩
      · exact silent commit here
      · exact shared commit there marked
    rw [bare, List.nil_append, ← filterMap_filter_of_none others, ofSecond, filterMap_filter_of_none shared]
  · have bare : second.filterMap (JsonMap.get key ∘ written deps) = [] := List.filterMap_eq_nil_iff.mpr silent
    have others : ∀ commit ∈ sorted, inFirst commit = false → (JsonMap.get key ∘ written deps) commit = none := by
      intro commit inside marked
      rcases members commit inside with here | ⟨there, _⟩
      · exact absurd ((marks commit).mpr (List.mem_map_of_mem here)) (Bool.eq_false_iff.mp marked)
      · exact silent commit there
    rw [bare, List.append_nil, ← filterMap_filter_of_none others, ofFirst]

/-- Commits that write objects, replayed one after the other -/
theorem foldl_written {commits : List Commit} (some : commits ≠ [])
    (objects : ∀ commit ∈ commits, ∃ members, payloadToJson deps commit.stateDelta = .object members) (state : Json) :
    commits.foldl (fun state commit => mergeValue state (payloadToJson deps commit.stateDelta)) state =
      .object ((commits.map (written deps)).foldl mergeMembers state.members) := by
  have payloads : commits.map (fun commit => payloadToJson deps commit.stateDelta) =
      (commits.map (written deps)).map Json.object := by
    rw [List.map_map]
    refine List.map_congr_left fun commit inside => ?_
    obtain ⟨members, object⟩ := objects commit inside
    simp only [Function.comp_apply, written, object, Json.members]
  have ascending : ∀ patch ∈ commits.map (written deps), JsonMap.Ascending patch :=
    List.forall_mem_map.mpr fun commit _ => (written_sorted commit).1
  rw [← foldl_mergeValue_objects ascending (fun none => some (List.map_eq_nil_iff.mp none)), ← payloads, List.foldl_map]

/-- The state of a replay is that of the base, then one chain and the other, and then the commit on top. -/
theorem Branches.mergeStates_eq (keyed : tables.Keyed) (causal : tables.Causal)
    (branches : Branches deps tables base first second merge) (some : first ++ second ≠ []) {below : List Commit}
    (read : ancestryCommits tables base.commitId = .ok below) :
    ∃ listed, ancestryCommits tables merge.commitId = .ok listed ∧
      mergeStates deps (sortForReplay listed) =
        mergeValue (.object (branchMembers deps (mergeStates deps (sortForReplay below)) first second))
          (payloadToJson deps merge.stateDelta) := by
  obtain ⟨storedFirst, storedSecond⟩ := List.forall_mem_append.mp branches.stored
  have whole := tables.ancestryCommits_merge keyed causal branches.firstAbove branches.secondAbove branches.storedMerge
    storedFirst storedSecond branches.parents read
  refine ⟨_, whole, ?_⟩
  have interleaved := branches.filterMap_sorted keyed
  obtain ⟨listing, ids⟩ : tables.Listing below ∧ _ := CommitTables.ancestryCommits_listing keyed read
  have members : ∀ commit ∈ first ++ second.filter (fun commit => commit.commitId ∉ first.map (·.commitId)),
      commit ∈ first ++ second := by
    intro commit inside
    rcases List.mem_append.mp inside with here | there
    · exact List.mem_append_left _ here
    · exact List.mem_append_right _ (List.mem_of_mem_filter there)
  have nonempty : first ++ second.filter (fun commit => commit.commitId ∉ first.map (·.commitId)) ≠ [] := by
    cases first with
    | nil => simpa using some
    | cons x rest => exact List.cons_ne_nil _ _
  generalize first ++ second.filter (fun commit => commit.commitId ∉ first.map (·.commitId)) = between
    at interleaved members nonempty ⊢
  -- the sort keeps what is below, the chains and the commit on top apart
  have lower : ∀ old ∈ below, ∀ commit ∈ first ++ second, old.replayKey ≤ commit.replayKey := fun old inside commit member =>
    branches.afterBase commit member old (listing.stored old inside) ((ids _).mp (List.mem_map_of_mem inside))
  have upper : ∀ commit ∈ below ++ between, commit.replayKey ≤ merge.replayKey := by
    obtain ⟨x, inside⟩ := List.exists_mem_of_ne_nil _ some
    refine List.forall_mem_append.mpr ⟨fun old member => ?_, fun commit member => ?_⟩
    · exact (lower old member x inside).trans (branches.beforeMerge x inside)
    · exact branches.beforeMerge commit (members commit member)
  have sorted : sortForReplay (below ++ between ++ [merge]) = sortForReplay below ++ sortForReplay between ++ [merge] := by
    rw [sortForReplay, Listing.insertionSort_snoc upper,
      Listing.insertionSort_append fun old inside commit member => lower old inside commit (members commit member)]
    rfl
  have perm : (sortForReplay between).Perm between := List.perm_insertionSort _ _
  have objects : ∀ commit ∈ sortForReplay between, ∃ members, payloadToJson deps commit.stateDelta = .object members :=
    fun commit inside => branches.objects commit (members commit (perm.mem_iff.mp inside))
  have filled : sortForReplay between ≠ [] := fun none => nonempty (List.perm_nil.mp (none ▸ perm.symm))
  have state : ((sortForReplay between).map (written deps)).foldl mergeMembers
      (mergeStates deps (sortForReplay below)).members =
        branchMembers deps (mergeStates deps (sortForReplay below)) first second := by
    refine foldl_mergeMembers_congr (mergeStates_sorted _).members
      (List.forall_mem_map.mpr fun commit _ => written_sorted commit)
      (List.forall_mem_map.mpr fun commit _ => written_sorted commit) fun key => ?_
    rw [List.filterMap_map, List.filterMap_map, interleaved key]
  rw [sorted, mergeStates, List.foldl_append, List.foldl_append, List.foldl_cons, List.foldl_nil,
    foldl_written filled objects, ← mergeStates, state]

end States

section Runs

variable {others : CommitTables} {joined : Commit} {first' second' : List Commit}

/-- The same commit with another clock and another time -/
def Retimed (commit other : Commit) : Prop :=
  other = { commit with logicalClock := other.logicalClock, wallTime := other.wallTime }

theorem map_written_of_retimed (deps : External) (retimed : List.Forall₂ Retimed first first') :
    first'.map (written deps) = first.map (written deps) := by
  induction retimed with
  | nil => rfl
  | cons head _ ih =>
    rw [List.map_cons, List.map_cons, ih, head]
    rfl

/-- Joined branches without any commits are a commit on top of the base. -/
theorem Branches.ancestryCommits_of_nil (keyed : tables.Keyed) (causal : tables.Causal)
    (branches : Branches deps tables base [] [] merge) {below : List Commit}
    (read : ancestryCommits tables base.commitId = .ok below) :
    ancestryCommits tables merge.commitId = .ok (below ++ [merge]) := by
  have whole := tables.ancestryCommits_merge keyed causal .nil .nil branches.storedMerge
    (fun _ absent => absurd absent List.not_mem_nil) (fun _ absent => absurd absent List.not_mem_nil) branches.parents read
  simpa using whole

/-- Both replays of joined branches have one state: the times within the branches and the order of the two parents do not
matter. -/
theorem replay_branches (keyed : tables.Keyed) (causal : tables.Causal) (keyed' : others.Keyed) (causal' : others.Causal)
    (branches : Branches deps tables base first second merge)
    (branches' : Branches deps others base first' second' joined ∨ Branches deps others base second' first' joined)
    (sameBase : ancestryCommits others base.commitId = ancestryCommits tables base.commitId)
    (retimed : List.Forall₂ Retimed first first') (retimed' : List.Forall₂ Retimed second second')
    (joins : joined = { merge with parentCommitIds := joined.parentCommitIds }) {request : ReplayRequest}
    (of : request.commitId = merge.commitId) (confirmed : request.Confirmed) :
    ∃ result result' state, replay deps tables request = .ok result ∧ replay deps others request = .ok result' ∧
      result.reconstructedState = some (jsonPayload deps (deps.toVec state)) ∧
      result'.reconstructedState = some (jsonPayload deps (deps.toVec state)) := by
  obtain ⟨below, read, _⟩ := CommitTables.ancestryCommits_ok keyed causal branches.storedBase
  have read' : ancestryCommits others base.commitId = .ok below := sameBase.trans read
  have of' : request.commitId = joined.commitId := by rw [of, joins]
  have payload : joined.stateDelta = merge.stateDelta := by rw [joins]
  suffices ∃ listed listed', ancestryCommits tables merge.commitId = .ok listed ∧
      ancestryCommits others joined.commitId = .ok listed' ∧
      mergeStates deps (sortForReplay listed) = mergeStates deps (sortForReplay listed') by
    obtain ⟨listed, listed', whole, whole', same⟩ := this
    obtain ⟨result, run, _, state, _⟩ : ∃ result, replay deps tables request = .ok result ∧ _ :=
      replay_of_ancestry confirmed (of ▸ whole)
    obtain ⟨result', run', _, state', _⟩ : ∃ result, replay deps others request = .ok result ∧ _ :=
      replay_of_ancestry confirmed (of' ▸ whole')
    exact ⟨result, result', _, run, run', state, same ▸ state'⟩
  by_cases none : first ++ second = []
  · obtain ⟨rfl, rfl⟩ := List.append_eq_nil_iff.mp none
    obtain rfl := List.forall₂_nil_left_iff.mp retimed
    obtain rfl := List.forall₂_nil_left_iff.mp retimed'
    have branches' : Branches deps others base [] [] joined := branches'.elim id id
    have whole := branches.ancestryCommits_of_nil keyed causal read
    have whole' := branches'.ancestryCommits_of_nil keyed' causal' read'
    have same : joined = merge := by rw [joins, branches'.parents, ← branches.parents]
    exact ⟨_, _, whole, whole', by rw [same]⟩
  · have maps := map_written_of_retimed deps retimed
    have maps' := map_written_of_retimed deps retimed'
    obtain ⟨listed, whole, state⟩ := branches.mergeStates_eq keyed causal none read
    have some : first' ++ second' ≠ [] := by
      intro bare
      obtain ⟨rfl, rfl⟩ := List.append_eq_nil_iff.mp bare
      exact none (by rw [List.forall₂_nil_right_iff.mp retimed, List.forall₂_nil_right_iff.mp retimed', List.append_nil])
    have members : branchMembers deps (mergeStates deps (sortForReplay below)) first' second' =
        branchMembers deps (mergeStates deps (sortForReplay below)) first second := by
      rw [branchMembers, branchMembers, List.map_append, List.map_append, maps, maps']
    rcases branches' with branches' | branches'
    · obtain ⟨listed', whole', state'⟩ := branches'.mergeStates_eq keyed' causal' some read'
      exact ⟨listed, listed', whole, whole', by rw [state, state', members, payload]⟩
    · have swapped : second' ++ first' ≠ [] := fun bare => some (List.append_eq_nil_iff.mpr
        (List.append_eq_nil_iff.mp bare).symm)
      obtain ⟨listed', whole', state'⟩ := branches'.mergeStates_eq keyed' causal' swapped read'
      refine ⟨listed, listed', whole, whole', ?_⟩
      rw [state, state', branches'.swap_members (mergeStates_sorted _), members, payload]

end Runs

section Sample

private def keyDoc (key : String) : JsonValue := ⟨.object [(key, .null)], ⟨List.pairwise_singleton _ _, trivial, trivial⟩⟩

private def twoKeys : External := Sample.knowing [keyDoc "a", keyDoc "b"]

private def planted (commitId : String) (clock : UInt64) (parents : List String) (key : String) : Commit :=
  { (default : Commit) with
    commitId := commitId
    parentCommitIds := parents
    logicalClock := clock
    stateDelta := some (jsonPayload twoKeys (twoKeys.toVec (keyDoc key).1)) }

private def stem : Commit := planted "r" 0 [] "a"

private def crown : Commit := planted "m" 9 ["x", "y"] "a"

/-- Two commits with different keys on one root, and a commit on both -/
private def tree (left right : UInt64) : CommitTables :=
  { CommitTables.empty with
    commits := [stem, planted "x" left ["r"] "a", planted "y" right ["r"] "b", crown].map .ofCommit }

private theorem payload_planted {commitId key : String} {clock : UInt64} {parents : List String}
    (known : key = "a" ∨ key = "b") :
    payloadToJson twoKeys (planted commitId clock parents key).stateDelta = .object [(key, .null)] := by
  have prints : twoKeys.Prints (keyDoc key) := by
    rcases known with rfl | rfl
    · exact Sample.knowing_prints [] [keyDoc "b"] (by decide)
    · exact Sample.knowing_prints [keyDoc "a"] [] (by decide)
  exact payloadToJson_jsonPayload prints

private theorem keyed_tree (left right : UInt64) : (tree left right).Keyed where
  faithful := by simp [tree, CommitRow.ofCommit]
  unique := by
    change ["r", "x", "y", "m"].Nodup
    decide

private theorem causal_tree (left right : UInt64) : (tree left right).Causal := by
  refine (((ParentsFirst.nil.snoc ?_).snoc ?_).snoc ?_).snoc ?_
  all_goals simp [planted, stem, crown, CommitRow.ofCommit]

private theorem replayKey_planted_le {commitId other key key' : String} {clock later : UInt64} {parents parents' : List String}
    (sooner : clock.toNat ≤ later.toNat) :
    (planted commitId clock parents key).replayKey ≤ (planted other later parents' key').replayKey := by
  rw [Commit.replayKey, Commit.replayKey, Prod.Lex.toLex_le_toLex]
  exact (Nat.lt_or_eq_of_le sooner).imp_right fun same => ⟨same, le_refl _⟩

/-- Only the root is at or below the root. -/
private theorem stem_of_reach {left right : UInt64} {below : Commit} (inside : below ∈ (tree left right).stored)
    (path : Reach (tree left right).parentsOf stem.commitId below.commitId) : below = stem := by
  have planted : stem ∈ (tree left right).stored := by simp [CommitTables.stored, tree, CommitRow.ofCommit]
  rcases path.eq_or_head with same | ⟨other, edge, _⟩
  · exact List.inj_on_of_nodup_map (keyed_tree left right).stored_nodup inside planted same.symm
  · rw [(keyed_tree left right).parentsOf_eq planted] at edge
    exact absurd edge List.not_mem_nil

private theorem tree_branches {left right : UInt64} (leftEarly : left.toNat ≤ 9) (rightEarly : right.toNat ≤ 9) :
    Branches twoKeys (tree left right) stem [planted "x" left ["r"] "a"] [planted "y" right ["r"] "b"] crown where
  storedBase := by simp [CommitTables.stored, tree, CommitRow.ofCommit]
  storedMerge := by simp [CommitTables.stored, tree, CommitRow.ofCommit]
  stored := by simp [CommitTables.stored, tree, CommitRow.ofCommit]
  firstAbove := ChainAbove.nil.snoc rfl
  secondAbove := ChainAbove.nil.snoc rfl
  parents := rfl
  objects := by
    refine List.forall_mem_cons.mpr ⟨⟨_, payload_planted (.inl rfl)⟩, ?_⟩
    exact List.forall_mem_singleton.mpr ⟨_, payload_planted (.inr rfl)⟩
  apart := by
    simp [written, payload_planted, Json.members]
  firstRising := List.pairwise_singleton _ _
  secondRising := List.pairwise_singleton _ _
  afterBase := by
    have early : ∀ commit ∈ [planted "x" left ["r"] "a"] ++ [planted "y" right ["r"] "b"], stem.replayKey ≤ commit.replayKey :=
      List.forall_mem_cons.mpr ⟨replayKey_planted_le (Nat.zero_le _),
        List.forall_mem_singleton.mpr (replayKey_planted_le (Nat.zero_le _))⟩
    exact fun commit member below inside path => stem_of_reach inside path ▸ early commit member
  beforeMerge := List.forall_mem_cons.mpr ⟨replayKey_planted_le leftEarly,
    List.forall_mem_singleton.mpr (replayKey_planted_le rightEarly)⟩

/-- The two commits in one order of their clocks and in the other -/
theorem replay_branches_twigs :
    ∃ result result' state, replay twoKeys (tree 1 2) ⟨"m", ReplayMode.stateOnly.toI32, false⟩ = .ok result ∧
      replay twoKeys (tree 4 3) ⟨"m", ReplayMode.stateOnly.toI32, false⟩ = .ok result' ∧
      result.reconstructedState = some (jsonPayload twoKeys (twoKeys.toVec state)) ∧
      result'.reconstructedState = some (jsonPayload twoKeys (twoKeys.toVec state)) :=
  replay_branches (keyed_tree 1 2) (causal_tree 1 2) (keyed_tree 4 3) (causal_tree 4 3)
    (tree_branches (by decide) (by decide)) (.inl (tree_branches (by decide) (by decide))) rfl
    (.cons rfl .nil) (.cons rfl .nil) rfl rfl (ReplayRequest.confirmed_stateOnly _ rfl)

end Sample

end AttowNexus
