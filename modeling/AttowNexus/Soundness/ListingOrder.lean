import AttowNexus.Soundness.Restart
import AttowNexus.Soundness.ReplayOrder

/-! # The order of a listing

A listing is ordered by the clock column, which holds the `u64` clock as an `i64`; a replay sorts by the
clock itself. Among commits whose clocks are all in the lower half, or all in the upper half, the two orders
are the same. A commit from the upper half is listed before any from the lower half.
-/

namespace AttowNexus

variable {tables : CommitTables} {commit other : Commit} {runId threadId channel : Option String}

namespace Commit

/-- The commit passes the filters of `list_commits`. -/
def Selected (runId threadId channel : Option String) (commit : Commit) : Prop :=
  CommitTables.selects runId commit.runId ∧ CommitTables.selects threadId commit.threadId ∧
    CommitTables.selects channel commit.channel

instance : DecidablePred (Selected runId threadId channel) := fun _ => inferInstanceAs (Decidable (_ ∧ _ ∧ _))

/-- The clock is nonnegative as an `i64`. -/
def LowClock (commit : Commit) : Prop := commit.logicalClock.toNat < 2 ^ 63

instance : DecidablePred LowClock := fun commit =>
  inferInstanceAs (Decidable (commit.logicalClock.toNat < 2 ^ 63))

theorem storedClock_eq (commit : Commit) : commit.storedClock =
    if commit.logicalClock.toNat < 2 ^ 63 then (commit.logicalClock.toNat : ℤ)
    else (commit.logicalClock.toNat : ℤ) - 2 ^ 64 := by
  rw [storedClock, BitVec.toInt_eq_toNat_cond]
  have value : commit.logicalClock.toBitVec.toNat = commit.logicalClock.toNat := rfl
  rw [value]
  split_ifs <;> omega

theorem loadKey_le_iff : commit.loadKey ≤ other.loadKey ↔ commit.storedClock < other.storedClock ∨
    commit.storedClock = other.storedClock ∧ (commit.wallSeconds < other.wallSeconds ∨
      commit.wallSeconds = other.wallSeconds ∧ commit.commitId ≤ other.commitId) := by
  rw [loadKey, loadKey, CommitRow.orderKey, CommitRow.orderKey, Prod.Lex.toLex_le_toLex, Prod.Lex.toLex_le_toLex]
  exact Iff.rfl

/-- On the same side the column orders as the clock does. -/
theorem replayKey_le_of_loadKey_le (sameSide : commit.LowClock ↔ other.LowClock)
    (listed : commit.loadKey ≤ other.loadKey) : commit.replayKey ≤ other.replayKey := by
  have clock := storedClock_eq commit
  have clock' := storedClock_eq other
  rw [LowClock, LowClock] at sameSide
  rw [replayKey, replayKey, Prod.Lex.toLex_le_toLex]
  rcases loadKey_le_iff.1 listed with earlier | ⟨same, seconds⟩
  · left
    split_ifs at clock clock' <;> omega
  · right
    constructor
    · split_ifs at clock clock' <;> omega
    · rcases seconds with earlier | ⟨same, _⟩
      · exact earlier.le
      · exact same.le

/-- On different sides it orders the other way round. -/
theorem not_loadKey_le_of_sides (low : commit.LowClock) (high : ¬ other.LowClock) :
    ¬ commit.loadKey ≤ other.loadKey := by
  have clock := storedClock_eq commit
  have clock' := storedClock_eq other
  have bound := other.logicalClock.toNat_lt
  rw [LowClock] at low high
  rw [if_pos low] at clock
  rw [if_neg high] at clock'
  intro listed
  rcases loadKey_le_iff.1 listed with earlier | ⟨same, _⟩ <;> omega

theorem not_replayKey_le_of_sides (low : commit.LowClock) (high : ¬ other.LowClock) :
    ¬ other.replayKey ≤ commit.replayKey := by
  rw [LowClock] at low high
  rw [replayKey, replayKey, Prod.Lex.toLex_le_toLex]
  rintro (earlier | ⟨same, _⟩) <;> omega

end Commit

namespace CommitTables

theorem listCommits_eq_filter (tables : CommitTables) (runId threadId channel : Option String) :
    tables.listCommits runId threadId channel =
      tables.listAllCommits.filter (Commit.Selected runId threadId channel) := by
  rw [listCommits, listAllCommits_eq, List.filter_filter, List.filter_filter]
  refine List.filter_congr fun commit _ => ?_
  rw [Bool.eq_iff_iff, decide_eq_true_iff, Commit.Selected]
  simp only [Bool.and_eq_true]
  tauto

/-- The filters select from the stored commits. -/
theorem mem_listCommits_iff : commit ∈ tables.listCommits runId threadId channel ↔
    commit ∈ tables.stored ∧ commit.Selected runId threadId channel := by
  rw [listCommits_eq_filter, List.mem_filter, (listAllCommits_perm tables).mem_iff, decide_eq_true_iff]

theorem mem_listAllCommits_iff : commit ∈ tables.listAllCommits ↔ commit ∈ tables.stored :=
  (listAllCommits_perm tables).mem_iff

theorem listCommits_pairwise (keyed : tables.Keyed) :
    (tables.listCommits runId threadId channel).Pairwise fun a b => a.loadKey ≤ b.loadKey := by
  rw [listCommits_eq_filter, listAllCommits_eq]
  apply List.Pairwise.filter
  rw [List.pairwise_map]
  have sorted := List.pairwise_insertionSort (fun a b : CommitRow => a.orderKey ≤ b.orderKey) tables.commits
  refine sorted.imp_of_mem fun {a b} member member' listed => ?_
  have own : ∀ row ∈ tables.commits.insertionSort fun a b => a.orderKey ≤ b.orderKey,
      row.proto.loadKey = row.orderKey := by
    intro row inside
    rw [Commit.loadKey, ← keyed.faithful row ((List.perm_insertionSort _ _).mem_iff.mp inside)]
  rw [own a member, own b member']
  exact listed

/-- Two commits of a listing stand in it in one order or the other. -/
theorem sameSide_of_ordered (keyed : tables.Keyed)
    (ordered : (tables.listCommits runId threadId channel).Pairwise fun a b => a.replayKey ≤ b.replayKey)
    (inside : commit ∈ tables.listCommits runId threadId channel)
    (inside' : other ∈ tables.listCommits runId threadId channel) (low : commit.LowClock) : other.LowClock := by
  by_contra high
  obtain ⟨i, bound, rfl⟩ := List.getElem_of_mem inside
  obtain ⟨j, bound', rfl⟩ := List.getElem_of_mem inside'
  have loaded : (tables.listCommits runId threadId channel).Pairwise fun a b => a.loadKey ≤ b.loadKey :=
    listCommits_pairwise keyed
  have listed := List.pairwise_iff_getElem.mp loaded
  have sorted := List.pairwise_iff_getElem.mp ordered
  rcases Nat.lt_trichotomy i j with before | rfl | after
  · exact Commit.not_loadKey_le_of_sides low high (listed i j bound bound' before)
  · exact high low
  · exact Commit.not_replayKey_le_of_sides low high (sorted j i bound' bound after)

/-- A listing is in the order of clocks and seconds in which a replay sorts exactly when the clocks of the selected
commits are all below 2^63, or all not. -/
theorem listCommits_replayOrder_iff (keyed : tables.Keyed) :
    ((tables.listCommits runId threadId channel).Pairwise fun a b => a.replayKey ≤ b.replayKey) ↔
      (∀ commit ∈ tables.stored, commit.Selected runId threadId channel → commit.LowClock) ∨
      ∀ commit ∈ tables.stored, commit.Selected runId threadId channel → ¬ commit.LowClock := by
  constructor
  · intro ordered
    by_contra mixed
    push Not at mixed
    obtain ⟨⟨high, storedHigh, selectedHigh, notLow⟩, low, storedLow, selectedLow, isLow⟩ := mixed
    exact notLow (sameSide_of_ordered keyed ordered (mem_listCommits_iff.2 ⟨storedLow, selectedLow⟩)
      (mem_listCommits_iff.2 ⟨storedHigh, selectedHigh⟩) isLow)
  · intro sides
    refine (listCommits_pairwise keyed).imp_of_mem fun {a b} member member' before =>
      Commit.replayKey_le_of_loadKey_le ?_ before
    obtain ⟨stored, selected⟩ := mem_listCommits_iff.1 member
    obtain ⟨stored', selected'⟩ := mem_listCommits_iff.1 member'
    rcases sides with low | high
    · exact iff_of_true (low a stored selected) (low b stored' selected')
    · exact iff_of_false (high a stored selected) (high b stored' selected')

end CommitTables

section Sample

/-- A publish with a clock and one with the given clock after it -/
private def clocked (clock : UInt64) : AppState :=
  runCalls .sample Sample.config [Sample.publish "r" 1 1 [], Sample.publish "r" clock 2 []]

private theorem clocked_reachable (clock : UInt64) : Reachable .sample Sample.config (clocked clock) :=
  reachable_runCalls .sample Sample.config _

theorem listCommits_replayOrder_low : ((clocked 2).store.tables.listCommits (some "r") none none).Pairwise fun a b =>
    a.replayKey ≤ b.replayKey :=
  (CommitTables.listCommits_replayOrder_iff (clocked_reachable 2).keyed).2 (.inl (by decide))

/-- The second clock is 2^63. -/
private def lateClock : AppState := clocked 9223372036854775808

/-- A clock of 2^63 is listed before a clock of 1. -/
theorem listCommits_notReplayOrder :
    ¬ ∀ (deps : External) (config : Config) (s : AppState) (runId threadId channel : Option String),
      Reachable deps config s → (s.store.tables.listCommits runId threadId channel).Pairwise fun a b =>
        a.replayKey ≤ b.replayKey := by
  intro claim
  have reachable : Reachable .sample Sample.config lateClock := clocked_reachable _
  have ordered := claim .sample Sample.config lateClock none none none reachable
  have sides : ∃ low ∈ lateClock.store.tables.stored, ∃ high ∈ lateClock.store.tables.stored,
      low.LowClock ∧ ¬ high.LowClock := by decide
  obtain ⟨low, storedLow, high, storedHigh, isLow, notLow⟩ := sides
  exact notLow (CommitTables.sameSide_of_ordered reachable.keyed ordered
    (CommitTables.mem_listAllCommits_iff.2 storedLow) (CommitTables.mem_listAllCommits_iff.2 storedHigh) isLow)

end Sample

end AttowNexus
