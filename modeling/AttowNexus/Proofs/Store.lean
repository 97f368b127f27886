import AttowNexus.Model.SqliteStore
import AttowNexus.Library.Listing

/-! # What the store calls do to their tables

The commits table keeps one row per id, each the image of the commit it encodes. A transaction adds its
commit only when the id is new, but counts it in its run and its channel in any case. Moving a head is
seen under its own key only.
-/

namespace AttowNexus

namespace CommitTables

variable {tables : CommitTables} {commit : Commit}

/-- The stored commits, in the order in which they arrived. -/
def stored (tables : CommitTables) : List Commit := tables.commits.map (·.proto)

/-- One row per id, and every column is that of the encoded commit. -/
structure Keyed (tables : CommitTables) : Prop where
  faithful : ∀ row ∈ tables.commits, row = .ofCommit row.proto
  unique : (tables.commits.map (·.commitId)).Nodup

theorem keyed_empty : Keyed empty := ⟨by simp [empty], List.nodup_nil⟩

theorem Keyed.appendCommit (keyed : tables.Keyed) (commit : Commit) : (tables.appendCommit commit).Keyed where
  faithful row member := by
    rcases Table.mem_insertOrIgnore member with old | rfl
    · exact keyed.faithful row old
    · rfl
  unique := Table.nodup_insertOrIgnore keyed.unique

theorem Keyed.ids_eq (keyed : tables.Keyed) :
    tables.stored.map (·.commitId) = tables.commits.map (·.commitId) := by
  rw [stored, List.map_map]
  refine List.map_congr_left fun row member => ?_
  rw [Function.comp_apply, keyed.faithful row member]
  rfl

theorem Keyed.stored_nodup (keyed : tables.Keyed) : (tables.stored.map (·.commitId)).Nodup := by
  rw [keyed.ids_eq]
  exact keyed.unique

/-- Reading finds exactly the stored commits, under their own ids. -/
theorem Keyed.getCommit_eq_some_iff (keyed : tables.Keyed) {commitId : String} :
    tables.getCommit commitId = some commit ↔ commit ∈ tables.stored ∧ commit.commitId = commitId := by
  constructor
  · intro found
    obtain ⟨row, seen, rfl⟩ := Option.map_eq_some_iff.mp found
    obtain ⟨member, rfl⟩ := Table.mem_of_lookup seen
    refine ⟨List.mem_map_of_mem member, ?_⟩
    exact (congrArg CommitRow.commitId (keyed.faithful row member)).symm
  · rintro ⟨member, rfl⟩
    obtain ⟨row, inside, rfl⟩ := List.mem_map.mp member
    have named : row.proto.commitId = row.commitId :=
      (congrArg CommitRow.commitId (keyed.faithful row inside)).symm
    rw [named, getCommit, Table.lookup_of_mem keyed.unique inside, Option.map_some]

theorem getCommit_eq_none_iff {commitId : String} :
    tables.getCommit commitId = none ↔ commitId ∉ tables.commits.map (·.commitId) := by
  rw [getCommit, Option.map_eq_none_iff, Table.lookup_eq_none_iff]

/-- A stored id keeps its commit; a new one gets the appended commit. -/
theorem getCommit_appendCommit {commitId : String} :
    (tables.appendCommit commit).getCommit commitId =
      (tables.getCommit commitId).or (if commit.commitId = commitId then some commit else none) := by
  have looked : Table.lookup (·.commitId) commitId (tables.appendCommit commit).commits = _ :=
    Table.lookup_insertOrIgnore
  rw [getCommit, looked, Option.map_or, getCommit]
  by_cases same : commit.commitId = commitId <;> simp [CommitRow.ofCommit, same]

theorem getCommit_appendCommit_self (tables : CommitTables) (commit : Commit) :
    ∃ found, (tables.appendCommit commit).getCommit commit.commitId = some found := by
  rw [getCommit_appendCommit, if_pos rfl]
  cases tables.getCommit commit.commitId with
  | none => exact ⟨commit, rfl⟩
  | some old => exact ⟨old, rfl⟩

/-- Whatever the first tables find, the second find as well, and they are no shorter. -/
structure Extends (tables later : CommitTables) : Prop where
  keeps : ∀ {commitId commit}, tables.getCommit commitId = some commit → later.getCommit commitId = some commit
  longer : tables.commits.length ≤ later.commits.length

theorem Extends.refl (tables : CommitTables) : tables.Extends tables := ⟨id, le_refl _⟩

theorem Extends.trans {first second third : CommitTables} (left : first.Extends second)
    (right : second.Extends third) : first.Extends third :=
  ⟨fun found => right.keeps (left.keeps found), left.longer.trans right.longer⟩

theorem extends_appendCommit (tables : CommitTables) (commit : Commit) :
    tables.Extends (tables.appendCommit commit) where
  keeps found := by rw [getCommit_appendCommit, found, Option.some_or]
  longer := Table.length_le_insertOrIgnore

theorem stored_appendCommit_of_mem (known : commit.commitId ∈ tables.commits.map (·.commitId)) :
    (tables.appendCommit commit).commits = tables.commits :=
  Table.insertOrIgnore_of_mem known

theorem stored_appendCommit_of_notMem (fresh : commit.commitId ∉ tables.commits.map (·.commitId)) :
    (tables.appendCommit commit).stored = tables.stored ++ [commit] := by
  have rows : (tables.appendCommit commit).commits = _ := Table.insertOrIgnore_of_notMem fresh
  rw [stored, rows, List.map_append]
  rfl

/-- The stored commits stay as they are exactly when the id is stored already. -/
theorem commits_appendCommit_eq_iff :
    (tables.appendCommit commit).commits = tables.commits ↔
      commit.commitId ∈ tables.commits.map (·.commitId) := by
  constructor
  · intro same
    have present : commit.commitId ∈ (tables.appendCommit commit).commits.map (·.commitId) :=
      Table.mem_keys_insertOrIgnore.2 (.inr rfl)
    rwa [same] at present
  · exact stored_appendCommit_of_mem

section Counts

/-- The `commit_count` of a run; zero without a row. -/
def runCount (tables : CommitTables) (runId : String) : ℕ :=
  ((Table.lookup (·.runId) runId tables.runs).map (·.commitCount)).getD 0

/-- The `durable_count` of a channel; zero without a row. -/
def channelCount (tables : CommitTables) (channel : String) : ℕ :=
  ((Table.lookup (·.channel) channel tables.channels).map (·.durableCount)).getD 0

/-- Every transaction counts in its run, also when the commit is not new. -/
theorem runCount_appendCommit (tables : CommitTables) (commit : Commit) (runId : String) :
    (tables.appendCommit commit).runCount runId =
      tables.runCount runId + if runId = commit.runId then 1 else 0 := by
  rw [runCount, runCount, appendCommit, countRun, Table.lookup_upsert (by intro row; rfl)]
  by_cases same : runId = commit.runId
  · cases Table.lookup (·.runId) runId tables.runs <;> simp [same]
  · simp [same]

/-- Every transaction counts in its channel. -/
theorem channelCount_appendCommit (tables : CommitTables) (commit : Commit) (channel : String) :
    (tables.appendCommit commit).channelCount channel =
      tables.channelCount channel + if channel = commit.channel then 1 else 0 := by
  rw [channelCount, channelCount, appendCommit, countChannel, Table.lookup_update (by intro row; rfl),
    Table.lookup_insertOrIgnore]
  by_cases same : channel = commit.channel
  · subst same
    cases Table.lookup (·.channel) commit.channel tables.channels <;> simp
  · have other : ¬ commit.channel = channel := fun back => same back.symm
    simp [same, other]

/-- One row per run and per channel. -/
structure Counted (tables : CommitTables) : Prop where
  runs : (tables.runs.map (·.runId)).Nodup
  channels : (tables.channels.map (·.channel)).Nodup

theorem counted_empty : Counted empty := ⟨List.nodup_nil, List.nodup_nil⟩

theorem Counted.appendCommit (counted : tables.Counted) (commit : Commit) :
    (tables.appendCommit commit).Counted where
  runs := Table.nodup_upsert (by intro row; rfl) counted.runs
  channels := by
    rw [CommitTables.appendCommit, countChannel, Table.keys_update (by intro row; rfl)]
    exact Table.nodup_insertOrIgnore counted.channels

/-- `list_runs` reports the count of each run that has a row. -/
theorem Counted.mem_listRuns (counted : tables.Counted) {summary : RunSummary}
    (member : summary ∈ tables.listRuns) : summary.commitCount = tables.runCount summary.runId := by
  obtain ⟨row, inside, rfl⟩ := List.mem_map.mp member
  have row_mem : row ∈ tables.runs := (List.perm_insertionSort _ _).mem_iff.mp inside
  have found : Table.lookup (·.runId) row.runId tables.runs = some row := Table.lookup_of_mem counted.runs row_mem
  rw [runCount, found, Option.map_some, Option.getD_some]

/-- A run with a positive count is reported. -/
theorem exists_mem_listRuns {runId : String} (positive : 0 < tables.runCount runId) :
    ∃ summary ∈ tables.listRuns, summary.runId = runId ∧ summary.commitCount = tables.runCount runId := by
  rw [runCount] at positive ⊢
  cases found : Table.lookup (·.runId) runId tables.runs with
  | none => simp [found] at positive
  | some row =>
    obtain ⟨member, rfl⟩ := Table.mem_of_lookup found
    exact ⟨_, List.mem_map_of_mem ((List.perm_insertionSort _ _).mem_iff.mpr member), rfl, rfl⟩

theorem Counted.mem_channels (counted : tables.Counted) {row : ChannelRow} (member : row ∈ tables.channels) :
    row.durableCount = tables.channelCount row.channel := by
  have found : Table.lookup (·.channel) row.channel tables.channels = some row :=
    Table.lookup_of_mem counted.channels member
  rw [channelCount, found, Option.map_some, Option.getD_some]

end Counts

/-- Without a filter the whole table is listed, in its order. -/
theorem listAllCommits_eq (tables : CommitTables) :
    tables.listAllCommits =
      (tables.commits.insertionSort fun a b => a.orderKey ≤ b.orderKey).map (·.proto) := by
  have everything : ∀ commits : List Commit, commits.filter (fun _ => true) = commits := fun _ => by simp
  rw [listAllCommits, listCommits]
  simp only [selects, Option.map_none, Option.getD_none, everything]

theorem listAllCommits_perm (tables : CommitTables) : tables.listAllCommits.Perm tables.stored := by
  rw [listAllCommits_eq]
  exact (List.perm_insertionSort _ _).map _

/-- `list_commits` for a run returns as many commits as the run has. -/
theorem length_listCommits_run (tables : CommitTables) (runId : String) :
    (tables.listCommits (some runId) none none).length =
      (tables.stored.filter (·.runId = runId)).length := by
  have everything : ∀ commits : List Commit, commits.filter (fun _ => true) = commits := fun _ => by simp
  rw [listCommits]
  simp only [selects, Option.map_none, Option.getD_none, everything, Option.map_some, Option.getD_some]
  have perm : ((tables.commits.insertionSort fun a b => a.orderKey ≤ b.orderKey).map (·.proto)).Perm
      tables.stored := (List.perm_insertionSort _ _).map _
  rw [(perm.filter _).length_eq]
  congr 1
  refine List.filter_congr fun commit _ => ?_
  rw [Bool.eq_iff_iff, beq_iff_eq, decide_eq_true_iff, eq_comm]

end CommitTables

section Heads

variable {heads : List HeadRow} {lineage other : Lineage} {commitId : String}

/-- Moving a head is seen by the lineages with the same key, and by no other. -/
theorem headOf_moveHead :
    headOf (moveHead lineage commitId heads) other =
      if other.headKey = lineage.headKey then some commitId else headOf heads other := by
  rw [headOf, moveHead, Table.lookup_upsert (by intro row; rfl)]
  split
  · cases Table.lookup (·.headKey) other.headKey heads <;> rfl
  · rw [headOf]

/-- Every row of the heads is an old one or names the commit the head was moved to. -/
theorem mem_moveHead {row : HeadRow} (member : row ∈ moveHead lineage commitId heads) :
    row ∈ heads ∨ row.commitId = commitId := by
  rcases Table.mem_upsert member with old | rfl | ⟨old, _, rfl⟩
  · exact .inl old
  · exact .inr rfl
  · exact .inr rfl

theorem moveHead_nodup (unique : (heads.map (·.headKey)).Nodup) :
    ((moveHead lineage commitId heads).map (·.headKey)).Nodup :=
  Table.nodup_upsert (by intro row; rfl) unique

/-- Setting a head changes nothing exactly when the head is there already. -/
theorem moveHead_eq_self_iff (unique : (heads.map (·.headKey)).Nodup) :
    moveHead lineage commitId heads = heads ↔ headOf heads lineage = some commitId := by
  constructor
  · intro same
    rw [← same, headOf_moveHead, if_pos rfl]
  · intro present
    obtain ⟨row, found, rfl⟩ := Option.map_eq_some_iff.mp present
    obtain ⟨member, key⟩ := Table.mem_of_lookup found
    have listed : lineage.headKey ∈ heads.map (·.headKey) := key ▸ List.mem_map_of_mem member
    rw [moveHead, Table.upsert, if_pos listed]
    refine (List.map_congr_left fun old inside => ?_).trans (List.map_id heads)
    split
    · next same =>
      rw [List.inj_on_of_nodup_map unique inside member (same.trans key.symm)]
      rfl
    · rfl

/-- None of the four parts contains the unit separator. -/
structure Lineage.Plain (lineage : Lineage) : Prop where
  runId : '\u001f' ∉ lineage.runId.toList
  threadId : '\u001f' ∉ lineage.threadId.toList
  agentId : '\u001f' ∉ lineage.agentId.toList
  channel : '\u001f' ∉ lineage.channel.toList

/-- Plain lineages are told apart by their keys. -/
theorem Lineage.Plain.eq_of_headKey_eq (plain : lineage.Plain) (plain' : other.Plain)
    (same : lineage.headKey = other.headKey) : lineage = other := by
  have spelled : ∀ l : Lineage, l.headKey.toList = l.runId.toList ++ '\u001f' ::
      (l.threadId.toList ++ '\u001f' :: (l.agentId.toList ++ '\u001f' :: l.channel.toList)) := by
    intro l
    have separator : "\u001f".toList = ['\u001f'] := by decide
    simp only [headKey, String.toList_append, separator, List.append_assoc, List.cons_append, List.nil_append]
  have letters := congrArg String.toList same
  rw [spelled, spelled] at letters
  obtain ⟨runs, letters⟩ := Listing.eq_of_append_separator_eq plain.runId plain'.runId letters
  obtain ⟨threads, letters⟩ := Listing.eq_of_append_separator_eq plain.threadId plain'.threadId letters
  obtain ⟨agents, channels⟩ := Listing.eq_of_append_separator_eq plain.agentId plain'.agentId letters
  cases lineage
  cases other
  simp only [String.toList_inj] at runs threads agents channels
  rw [runs, threads, agents, channels]

end Heads

end AttowNexus
