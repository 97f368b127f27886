import AttowNexus.Model.Replay
import AttowNexus.Proofs.Store
import AttowNexus.Library.Graph.Reach
import AttowNexus.Library.Graph.ParentsFirst

/-! # Collecting the ancestry from the store

When the tables hold every parent before its child, the position of a commit bounds the depth of the
recursion below it. The collection then succeeds, and lists the commit with all of its stored ancestors,
each once and after its parents.
-/

namespace AttowNexus

open SuccGraph

namespace CommitTables

variable {tables : CommitTables} {commit : Commit} {commitId : String}

/-- The parents that the tables state for an id; none for an unknown one. -/
def parentsOf (tables : CommitTables) (commitId : String) : List String :=
  ((tables.getCommit commitId).map (·.parentCommitIds)).getD []

/-- The tables hold parents before their children. -/
def Causal (tables : CommitTables) : Prop :=
  ParentsFirst (·.commitId) (·.parentCommitIds) tables.stored

theorem Keyed.parentsOf_eq (keyed : tables.Keyed) (member : commit ∈ tables.stored) :
    tables.parentsOf commit.commitId = commit.parentCommitIds := by
  rw [parentsOf, keyed.getCommit_eq_some_iff.mpr ⟨member, rfl⟩, Option.map_some, Option.getD_some]

/-- Stored commits, each once and after its parents. -/
structure Listing (tables : CommitTables) (listed : List Commit) : Prop where
  stored : ∀ commit ∈ listed, commit ∈ tables.stored
  distinct : (listed.map (·.commitId)).Nodup
  causal : ParentsFirst (·.commitId) (·.parentCommitIds) listed

theorem listing_nil : tables.Listing [] :=
  ⟨fun _ member => absurd member List.not_mem_nil, List.nodup_nil, .nil⟩

theorem Listing.snoc {listed : List Commit} (listing : tables.Listing listed) (member : commit ∈ tables.stored)
    (fresh : commit.commitId ∉ listed.map (·.commitId))
    (ready : ∀ parent ∈ commit.parentCommitIds, parent ∈ listed.map (·.commitId)) :
    tables.Listing (listed ++ [commit]) where
  stored other inside := by
    rcases List.mem_append.mp inside with old | new
    · exact listing.stored other old
    · exact List.mem_singleton.mp new ▸ member
  distinct := by
    rw [List.map_append, List.map_singleton]
    refine List.nodup_append.mpr ⟨listing.distinct, List.nodup_singleton _, fun old inside new only same => ?_⟩
    exact fresh (List.mem_singleton.mp only ▸ same ▸ inside)
  causal := listing.causal.snoc ready

/-- The listing grew by ancestors of the given commits only, and contains these. -/
structure Collected (tables : CommitTables) (commitIds : List String) (before after : List Commit) : Prop where
  listing : tables.Listing after
  grows : ∀ commit ∈ before, commit ∈ after
  listed : ∀ commitId ∈ commitIds, commitId ∈ after.map (·.commitId)
  below : ∀ commit ∈ after, commit ∈ before ∨ ∃ commitId ∈ commitIds, Reach tables.parentsOf commitId commit.commitId

theorem Listing.collected_nil {listed : List Commit} (listing : tables.Listing listed) :
    tables.Collected [] listed listed :=
  ⟨listing, fun _ member => member, fun _ member => absurd member List.not_mem_nil, fun _ member => .inl member⟩

theorem Collected.cons {commitIds : List String} {before middle after : List Commit}
    (first : tables.Collected [commitId] before middle) (rest : tables.Collected commitIds middle after) :
    tables.Collected (commitId :: commitIds) before after where
  listing := rest.listing
  grows commit member := rest.grows commit (first.grows commit member)
  listed other member := by
    rcases List.mem_cons.mp member with rfl | later
    · obtain ⟨commit, inside, same⟩ := List.mem_map.mp (first.listed other List.mem_cons_self)
      exact same ▸ List.mem_map_of_mem (rest.grows commit inside)
    · exact rest.listed other later
  below commit member := by
    rcases rest.below commit member with inside | ⟨other, later, path⟩
    · rcases first.below commit inside with old | ⟨other, only, path⟩
      · exact .inl old
      · exact .inr ⟨other, List.mem_cons.mpr (.inl (List.mem_singleton.mp only)), path⟩
    · exact .inr ⟨other, List.mem_cons_of_mem _ later, path⟩

/-- After the parents the commit itself is listed, unless it is there already. -/
theorem Collected.self {before below : List Commit} (keyed : tables.Keyed) (member : commit ∈ tables.stored)
    (parents : tables.Collected commit.parentCommitIds before below) :
    tables.Collected [commit.commitId] before
      (if below.any (·.commitId = commit.commitId) then below else below ++ [commit]) := by
  have under : ∀ other ∈ below, other ∈ before ∨
      ∃ commitId ∈ [commit.commitId], Reach tables.parentsOf commitId other.commitId := by
    intro other inside
    rcases parents.below other inside with old | ⟨parent, edge, path⟩
    · exact .inl old
    · exact .inr ⟨_, List.mem_singleton_self _, .head (keyed.parentsOf_eq member ▸ edge) path⟩
  have present : below.any (·.commitId = commit.commitId) = true ↔ commit.commitId ∈ below.map (·.commitId) := by
    simp only [List.any_eq_true, decide_eq_true_eq, List.mem_map]
  by_cases again : below.any (·.commitId = commit.commitId) = true
  · rw [if_pos again]
    refine ⟨parents.listing, parents.grows, fun commitId only => ?_, under⟩
    exact List.mem_singleton.mp only ▸ present.mp again
  · rw [if_neg again]
    refine ⟨parents.listing.snoc member (fun known => again (present.mpr known)) parents.listed,
      fun other inside => List.mem_append_left _ (parents.grows other inside), fun commitId only => ?_, ?_⟩
    · rw [List.mem_singleton.mp only]
      exact List.mem_map_of_mem (List.mem_append_right _ (List.mem_singleton_self _))
    · intro other inside
      rcases List.mem_append.mp inside with old | new
      · exact under other old
      · exact .inr ⟨_, List.mem_singleton_self _, List.mem_singleton.mp new ▸ .refl _⟩

/-- One level of the recursion that returns has found its commit and collected the parents. -/
theorem collect_succ_eq_ok_iff {fuel : ℕ} {before after : List Commit} :
    collect tables (fuel + 1) commitId before = .ok after ↔
      ∃ commit below, tables.getCommit commitId = some commit ∧
        commit.parentCommitIds.foldlM (fun out parent => collect tables fuel parent out) before = .ok below ∧
        after = if below.any (·.commitId = commit.commitId) then below else below ++ [commit] := by
  rw [collect]
  cases tables.getCommit commitId with
  | none => simp
  | some commit =>
    have level : ∀ below, commit.parentCommitIds.foldlM (fun out parent => collect tables fuel parent out) before =
        .ok below → (do
          let below ← commit.parentCommitIds.foldlM (fun out parent => collect tables fuel parent out) before
          if below.any (·.commitId = commit.commitId) then pure below else pure (below ++ [commit])) =
        (.ok (if below.any (·.commitId = commit.commitId) then below else below ++ [commit]) :
          Except Error (List Commit)) := by
      intro below loop
      rw [loop]
      change (if _ then pure below else pure (below ++ [commit])) = _
      split <;> rfl
    constructor
    · intro run
      cases loop : commit.parentCommitIds.foldlM (fun out parent => collect tables fuel parent out) before with
      | error error =>
        simp only [loop] at run
        exact absurd run nofun
      | ok below => exact ⟨commit, below, rfl, loop, Except.ok.inj (run.symm.trans (level below loop))⟩
    · rintro ⟨_, below, found, loop, rfl⟩
      obtain rfl := Option.some.inj found
      exact level below loop

/-- A loop whose single steps collect their ids collects all of them. -/
theorem foldlM_collected {step : List Commit → String → Except Error (List Commit)} {commitIds : List String}
    (collects : ∀ commitId before after, tables.Listing before → step before commitId = .ok after →
      tables.Collected [commitId] before after)
    {before after : List Commit} (listing : tables.Listing before)
    (run : commitIds.foldlM step before = .ok after) : tables.Collected commitIds before after := by
  induction commitIds generalizing before with
  | nil =>
    obtain rfl : before = after := Except.ok.inj run
    exact listing.collected_nil
  | cons commitId rest ih =>
    rw [List.foldlM_cons] at run
    cases here : step before commitId with
    | error error => exact absurd (here ▸ run) nofun
    | ok middle =>
      rw [here] at run
      have first := collects commitId before middle listing here
      exact first.cons (ih first.listing run)

/-- Whenever the recursion returns, it has collected what it should. -/
theorem collected_of_ok (keyed : tables.Keyed) {fuel : ℕ} {before after : List Commit}
    (listing : tables.Listing before) (run : collect tables fuel commitId before = .ok after) :
    tables.Collected [commitId] before after := by
  induction fuel generalizing commitId before after with
  | zero => exact absurd run nofun
  | succ fuel ih =>
    obtain ⟨commit, below, found, above, rfl⟩ := collect_succ_eq_ok_iff.1 run
    obtain ⟨member, rfl⟩ := keyed.getCommit_eq_some_iff.mp found
    exact (foldlM_collected (fun _ _ _ ready => ih ready) listing above).self keyed member

theorem foldlM_ok {step : List Commit → String → Except Error (List Commit)} {commitIds : List String}
    (works : ∀ commitId ∈ commitIds, ∀ before, ∃ after, step before commitId = .ok after) (before : List Commit) :
    ∃ after, commitIds.foldlM step before = .ok after := by
  induction commitIds generalizing before with
  | nil => exact ⟨before, rfl⟩
  | cons commitId rest ih =>
    obtain ⟨middle, here⟩ := works commitId List.mem_cons_self before
    obtain ⟨after, run⟩ := ih (fun other later => works other (List.mem_cons_of_mem _ later)) middle
    refine ⟨after, ?_⟩
    rw [List.foldlM_cons, here]
    exact run

/-- Fuel above the position of the commit is enough. -/
theorem collect_ok (keyed : tables.Keyed) (causal : tables.Causal) {fuel : ℕ} (member : commit ∈ tables.stored)
    (enough : (tables.stored.map (·.commitId)).idxOf commit.commitId < fuel) (before : List Commit) :
    ∃ after, collect tables fuel commit.commitId before = .ok after := by
  induction fuel generalizing commit before with
  | zero => exact absurd enough (Nat.not_lt_zero _)
  | succ fuel ih =>
    have works : ∀ parent ∈ commit.parentCommitIds, ∀ prior, ∃ after, collect tables fuel parent prior = .ok after := by
      intro parent edge prior
      obtain ⟨above, stored, rfl⟩ := List.mem_map.mp (causal.mem_of_mem member edge)
      have earlier := causal.idxOf_lt keyed.stored_nodup member edge
      exact ih stored (by omega) prior
    obtain ⟨below, run⟩ := foldlM_ok works before
    exact ⟨_, collect_succ_eq_ok_iff.2 ⟨commit, below, keyed.getCommit_eq_some_iff.mpr ⟨member, rfl⟩, run, rfl⟩⟩

/-- An ancestry that was read lists the commit and all stored commits that it reaches, each once. -/
theorem ancestryCommits_listing (keyed : tables.Keyed) {listed : List Commit}
    (run : ancestryCommits tables commitId = .ok listed) :
    tables.Listing listed ∧ ∀ ancestor, ancestor ∈ listed.map (·.commitId) ↔ Reach tables.parentsOf commitId ancestor := by
  have collected := collected_of_ok keyed listing_nil run
  refine ⟨collected.listing, fun ancestor => ⟨fun inside => ?_, fun path => ?_⟩⟩
  · obtain ⟨commit, member, rfl⟩ := List.mem_map.mp inside
    rcases collected.below commit member with old | ⟨_, only, path⟩
    · exact absurd old List.not_mem_nil
    · exact List.mem_singleton.mp only ▸ path
  · -- the listed ids are closed under parents
    have closed : ∀ z ∈ {z | z ∈ listed.map (·.commitId)}, ∀ w ∈ tables.parentsOf z,
        w ∈ {z | z ∈ listed.map (·.commitId)} := by
      intro z inside w edge
      obtain ⟨child, here, rfl⟩ := List.mem_map.mp inside
      rw [keyed.parentsOf_eq (collected.listing.stored child here)] at edge
      exact collected.listing.causal.mem_of_mem here edge
    exact path.mem_of_closed _ closed (collected.listed _ (List.mem_singleton_self _))

/-- The ancestry of a stored commit is a listing of the stored commits that it reaches. -/
theorem ancestryCommits_ok (keyed : tables.Keyed) (causal : tables.Causal) (member : commit ∈ tables.stored) :
    ∃ listed, ancestryCommits tables commit.commitId = .ok listed ∧ tables.Listing listed ∧
      ∀ other, other ∈ listed ↔ other ∈ tables.stored ∧ Reach tables.parentsOf commit.commitId other.commitId := by
  have position : (tables.stored.map (·.commitId)).idxOf commit.commitId < tables.commits.length + 1 := by
    have inside := List.idxOf_lt_length_of_mem (List.mem_map_of_mem (f := (·.commitId)) member)
    have size : tables.stored.length = tables.commits.length := List.length_map _
    rw [List.length_map] at inside
    omega
  obtain ⟨listed, run⟩ := collect_ok keyed causal member position []
  obtain ⟨listing, ids⟩ : tables.Listing listed ∧ _ := ancestryCommits_listing keyed run
  refine ⟨listed, run, listing, fun other => ⟨fun inside => ?_, fun ⟨stored, path⟩ => ?_⟩⟩
  · exact ⟨listing.stored other inside, (ids other.commitId).mp (List.mem_map_of_mem inside)⟩
  · obtain ⟨same, here, equal⟩ := List.mem_map.mp ((ids other.commitId).mpr path)
    rwa [← List.inj_on_of_nodup_map keyed.stored_nodup (listing.stored same here) stored equal]

/-- Two tables that state the same commit wherever both find one collect the same. -/
theorem collect_agree {others : CommitTables}
    (agree : ∀ commitId c d, tables.getCommit commitId = some c → others.getCommit commitId = some d → c = d)
    {fuel fuel' : ℕ} {before here there : List Commit} (left : collect tables fuel commitId before = .ok here)
    (right : collect others fuel' commitId before = .ok there) : here = there := by
  induction fuel generalizing commitId fuel' before here there with
  | zero => exact absurd left nofun
  | succ fuel ih =>
    cases fuel' with
    | zero => exact absurd right nofun
    | succ fuel' =>
      obtain ⟨commit, below, found, above, rfl⟩ := collect_succ_eq_ok_iff.1 left
      obtain ⟨other, below', found', above', rfl⟩ := collect_succ_eq_ok_iff.1 right
      obtain rfl := agree commitId commit other found found'
      have loops : ∀ {parents : List String} {out low low' : List Commit},
          parents.foldlM (fun out parent => collect tables fuel parent out) out = .ok low →
          parents.foldlM (fun out parent => collect others fuel' parent out) out = .ok low' → low = low' := by
        intro parents
        induction parents with
        | nil =>
          intro out low low' first second
          exact (Except.ok.inj first).symm.trans (Except.ok.inj second)
        | cons parent rest loop =>
          intro out low low' first second
          rw [List.foldlM_cons] at first second
          cases step : collect tables fuel parent out with
          | error error => exact absurd (step ▸ first) nofun
          | ok middle =>
            cases step' : collect others fuel' parent out with
            | error error => exact absurd (step' ▸ second) nofun
            | ok middle' =>
              obtain rfl := ih step step'
              rw [step] at first
              rw [step'] at second
              exact loop first second
      rw [loops above above']

/-- Ids that are listed already add nothing. -/
theorem foldlM_fixed {step : List Commit → String → Except Error (List Commit)} {commitIds : List String}
    {before after : List Commit} (fixed : ∀ commitId ∈ commitIds, ∀ after, step before commitId = .ok after → after = before)
    (run : commitIds.foldlM step before = .ok after) : after = before := by
  induction commitIds with
  | nil => exact (Except.ok.inj run).symm
  | cons commitId rest ih =>
    rw [List.foldlM_cons] at run
    cases here : step before commitId with
    | error error => exact absurd (here ▸ run) nofun
    | ok middle =>
      obtain rfl := fixed commitId List.mem_cons_self middle here
      rw [here] at run
      exact ih (fun other later => fixed other (List.mem_cons_of_mem _ later)) run

/-- Collecting a listed commit again changes nothing. -/
theorem Listing.collect_again (keyed : tables.Keyed) {fuel : ℕ} {before after : List Commit}
    (listing : tables.Listing before) (listed : commitId ∈ before.map (·.commitId))
    (run : collect tables fuel commitId before = .ok after) : after = before := by
  induction fuel generalizing commitId after with
  | zero => exact absurd run nofun
  | succ fuel ih =>
    obtain ⟨commit, below, found, above, rfl⟩ := collect_succ_eq_ok_iff.1 run
    obtain ⟨stored, rfl⟩ := keyed.getCommit_eq_some_iff.mp found
    obtain ⟨same, inside, equal⟩ := List.mem_map.mp listed
    obtain rfl := List.inj_on_of_nodup_map keyed.stored_nodup (listing.stored same inside) stored equal
    have parents : ∀ parent ∈ same.parentCommitIds, parent ∈ before.map (·.commitId) :=
      fun parent edge => listing.causal.mem_of_mem inside edge
    obtain rfl := foldlM_fixed (fun parent edge after => ih (parents parent edge)) above
    rw [if_pos]
    simp only [List.any_eq_true, decide_eq_true_eq]
    exact ⟨same, inside, rfl⟩

/-- Positions do not increase from a commit to what it reaches. -/
theorem Causal.idxOf_le_of_reach (keyed : tables.Keyed) (causal : tables.Causal) {ancestor : String}
    (path : Reach tables.parentsOf commitId ancestor) :
    (tables.stored.map (·.commitId)).idxOf ancestor ≤ (tables.stored.map (·.commitId)).idxOf commitId := by
  induction path with
  | refl => exact le_refl _
  | @tail child parent _ edge ih =>
    cases found : tables.getCommit child with
    | none => simp [Edge, parentsOf, found] at edge
    | some commit =>
      obtain ⟨stored, rfl⟩ := keyed.getCommit_eq_some_iff.mp found
      rw [Edge, keyed.parentsOf_eq stored] at edge
      have earlier := causal.idxOf_lt keyed.stored_nodup stored edge
      omega

/-- The ancestry of a commit whose parents are all the same one is that of the parent and then the commit. -/
theorem ancestryCommits_of_onlyParent (keyed : tables.Keyed) (causal : tables.Causal)
    (member : commit ∈ tables.stored) (child : commit.parentCommitIds ≠ []) {parent : String}
    (only : ∀ other ∈ commit.parentCommitIds, other = parent) {below : List Commit}
    (read : ancestryCommits tables parent = .ok below) :
    ancestryCommits tables commit.commitId = .ok (below ++ [commit]) := by
  obtain ⟨listing, ids⟩ : tables.Listing below ∧ _ := ancestryCommits_listing keyed read
  obtain ⟨listed, run, _⟩ := ancestryCommits_ok keyed causal member
  obtain ⟨same, low, found, loop, rfl⟩ := collect_succ_eq_ok_iff.1 run
  obtain rfl : commit = same :=
    Option.some.inj ((keyed.getCommit_eq_some_iff.mpr ⟨member, rfl⟩).symm.trans found)
  have collected : low = below := by
    generalize commit.parentCommitIds = parents at child only loop
    cases parents with
    | nil => exact absurd rfl child
    | cons first rest =>
      obtain ⟨rfl, others⟩ := List.forall_mem_cons.mp only
      rw [List.foldlM_cons] at loop
      cases step : collect tables tables.commits.length first [] with
      | error error => exact absurd (step ▸ loop) nofun
      | ok middle =>
        obtain rfl : middle = below :=
          collect_agree (fun _ c d left right => Option.some.inj (left.symm.trans right)) step read
        rw [step] at loop
        have present : first ∈ middle.map (·.commitId) := (ids first).mpr (.refl _)
        exact foldlM_fixed (fun other edge after => listing.collect_again keyed (others other edge ▸ present)) loop
  subst collected
  have absent : ¬ low.any (·.commitId = commit.commitId) = true := by
    simp only [List.any_eq_true, decide_eq_true_eq]
    rintro ⟨other, inside, again⟩
    obtain ⟨first, edge⟩ := List.exists_mem_of_ne_nil _ child
    have later := causal.idxOf_le_of_reach keyed ((ids _).mp (List.mem_map_of_mem inside))
    have earlier := causal.idxOf_lt keyed.stored_nodup member edge
    rw [again] at later
    rw [only first edge] at earlier
    omega
  rw [run, if_neg absent]

/-- More fuel and more rows keep a collection that succeeded. -/
theorem Extends.collect {later : CommitTables} (grown : tables.Extends later) {fuel fuel' : ℕ}
    (more : fuel ≤ fuel') {before after : List Commit} (run : collect tables fuel commitId before = .ok after) :
    AttowNexus.collect later fuel' commitId before = .ok after := by
  induction fuel generalizing commitId fuel' before after with
  | zero => exact absurd run nofun
  | succ fuel ih =>
    obtain ⟨fuel', rfl⟩ : ∃ k, fuel' = k + 1 := ⟨fuel' - 1, by omega⟩
    have less : fuel ≤ fuel' := by omega
    obtain ⟨commit, below, found, above, rfl⟩ := collect_succ_eq_ok_iff.1 run
    refine collect_succ_eq_ok_iff.2 ⟨commit, below, grown.keeps found, ?_, rfl⟩
    have loops : ∀ {parents : List String} {out low : List Commit},
        parents.foldlM (fun out parent => AttowNexus.collect tables fuel parent out) out = .ok low →
        parents.foldlM (fun out parent => AttowNexus.collect later fuel' parent out) out = .ok low := by
      intro parents
      induction parents with
      | nil => exact fun first => first
      | cons parent rest loop =>
        intro out low first
        rw [List.foldlM_cons] at first ⊢
        cases step : AttowNexus.collect tables fuel parent out with
        | error error => exact absurd (step ▸ first) nofun
        | ok middle =>
          rw [step] at first
          rw [ih less step]
          exact loop first
    exact loops above

end CommitTables

section Replays

variable {deps : External} {tables : CommitTables} {commit : Commit} {request : ReplayRequest}

/-- The mode of the request needs no confirmation, or has it. -/
def ReplayRequest.Confirmed (request : ReplayRequest) : Prop :=
  (ReplayMode.tryFrom request.mode).getD .stateOnly = .reexecuteTools → request.confirmReexecuteTools = true

theorem ReplayRequest.confirmed_stateOnly (request : ReplayRequest)
    (stateOnly : request.mode = ReplayMode.stateOnly.toI32) : request.Confirmed := by
  intro mode
  rw [stateOnly] at mode
  exact absurd (show ReplayMode.stateOnly = .reexecuteTools from mode) nofun

/-- What a replay returns for an ancestry in the order of the replay. -/
def replayed (deps : External) (commitId : String) (commits : List Commit) : ReplayResult where
  commitId := commitId
  reconstructedState := some (jsonPayload deps (deps.toVec (mergeStates deps commits)))
  messages := []
  toolOutputs := commits.flatMap (·.toolResults)
  artifacts := commits.flatMap (·.artifactRefs)
  sideEffectWarnings := commits.flatMap fun commit => commit.externalSideEffects.map sideEffectWarning
  provenanceCommitIds := commits.map (·.commitId)
  missingArtifactWarnings := []

/-- A replay returns exactly when it is confirmed and its ancestry can be read, and then it is determined. -/
theorem replay_eq_ok_iff {result : ReplayResult} :
    replay deps tables request = .ok result ↔ request.Confirmed ∧
      ∃ listed, ancestryCommits tables request.commitId = .ok listed ∧
        result = replayed deps request.commitId (sortForReplay listed) := by
  rw [replay]
  by_cases refused : (ReplayMode.tryFrom request.mode).getD .stateOnly = .reexecuteTools ∧
      request.confirmReexecuteTools = false
  · refine iff_of_false (by simp [refused]) fun ⟨confirmed, _⟩ => ?_
    exact absurd ((confirmed refused.1).symm.trans refused.2) nofun
  · have confirmed : request.Confirmed := by
      intro mode
      simpa using fun unconfirmed => refused ⟨mode, unconfirmed⟩
    rw [if_neg refused]
    cases ancestryCommits tables request.commitId with
    | error error => exact iff_of_false nofun fun ⟨_, _, failed, _⟩ => absurd failed nofun
    | ok listed =>
      constructor
      · exact fun run => ⟨confirmed, listed, rfl, (Except.ok.inj run).symm⟩
      · rintro ⟨_, _, read, rfl⟩
        obtain rfl := Except.ok.inj read
        rfl

/-- A replay that returned found its commit. -/
theorem getCommit_of_replay {result : ReplayResult} (run : replay deps tables request = .ok result) :
    ∃ commit, tables.getCommit request.commitId = some commit := by
  obtain ⟨_, _, read, _⟩ := replay_eq_ok_iff.1 run
  obtain ⟨commit, _, found, _⟩ := CommitTables.collect_succ_eq_ok_iff.1 read
  exact ⟨commit, found⟩

/-- A confirmed replay whose ancestry can be read returns what the sorted ancestry gives. -/
theorem replay_of_ancestry (confirmed : request.Confirmed) {listed : List Commit}
    (read : ancestryCommits tables request.commitId = .ok listed) :
    ∃ result, replay deps tables request = .ok result ∧
      result.provenanceCommitIds = (sortForReplay listed).map (·.commitId) ∧
      result.reconstructedState = some (jsonPayload deps (deps.toVec (mergeStates deps (sortForReplay listed)))) ∧
      result.missingArtifactWarnings = [] :=
  ⟨_, replay_eq_ok_iff.2 ⟨confirmed, listed, read, rfl⟩, rfl, rfl, rfl⟩

/-- The provenance of a replay lists the commit and what it reaches, each once. -/
theorem replay_provenance (keyed : tables.Keyed) {result : ReplayResult}
    (run : replay deps tables request = .ok result) : result.provenanceCommitIds.Nodup ∧
      ∀ commitId, commitId ∈ result.provenanceCommitIds ↔ Reach tables.parentsOf request.commitId commitId := by
  obtain ⟨_, listed, read, rfl⟩ := replay_eq_ok_iff.1 run
  obtain ⟨listing, ids⟩ : tables.Listing listed ∧ _ := CommitTables.ancestryCommits_listing keyed read
  have sorted : ((sortForReplay listed).map (·.commitId)).Perm (listed.map (·.commitId)) :=
    (List.perm_insertionSort _ _).map _
  exact ⟨sorted.nodup_iff.mpr listing.distinct, fun commitId => sorted.mem_iff.trans (ids commitId)⟩

/-- A replay that returned returns the same from tables that hold more. -/
theorem replay_of_grown {later : CommitTables} (grown : tables.Extends later) {result : ReplayResult}
    (run : replay deps tables request = .ok result) : replay deps later request = .ok result := by
  obtain ⟨confirmed, listed, read, same⟩ := replay_eq_ok_iff.1 run
  have more : tables.commits.length + 1 ≤ later.commits.length + 1 := Nat.succ_le_succ grown.longer
  exact replay_eq_ok_iff.2 ⟨confirmed, listed, grown.collect more read, same⟩

end Replays

end AttowNexus
