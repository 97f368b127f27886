import AttowNexus.Library.Checks
import AttowNexus.Model.Race
import AttowNexus.Proofs.History

/-! # Racing requests and the head

A request that persists on the head it read puts its commit on top of everything made before. One that
persists after the head has moved does not: two requests that both read the old head leave one of their
commits outside the history of the new one.
-/

namespace AttowNexus

open SuccGraph AppState

namespace Race

variable {deps : External} {config : Config} {lineage : Lineage} {race race' : Race} {turn : Turn}

/-- The invariant of a race without disturbance. -/
structure Orderly (lineage : Lineage) (race : Race) : Prop where
  keeps : race.KeepsUpdates lineage
  lineages : ∀ plan ∈ race.waiting, plan.commit.lineage = lineage

theorem orderly_start (s : AppState) : (start s).Orderly lineage where
  keeps := fun _ member => absurd member List.not_mem_nil
  lineages := fun _ member => absurd member List.not_mem_nil

/-- Planning leaves the ledger alone. -/
theorem Orderly.plan (orderly : race.Orderly lineage) {t : AppState} (same : t.ledger = race.state.ledger)
    {plan : Plan} (here : plan.commit.lineage = lineage) :
    Orderly lineage ⟨t, race.waiting ++ [plan], race.made⟩ where
  keeps commit member := by
    obtain ⟨head, stored, path⟩ := orderly.keeps commit member
    have heads : t.store.heads = race.state.store.heads := congrArg Ledger.heads same
    have dag : t.dag = race.state.dag := congrArg Ledger.dag same
    exact ⟨head, heads ▸ stored, dag ▸ path⟩
  lineages other member := by
    rcases List.mem_append.mp member with old | new
    · exact orderly.lineages other old
    · exact List.mem_singleton.mp new ▸ here

/-- A commit persisted on top of the head has everything below it that the head had. -/
theorem Orderly.persist (orderly : race.Orderly lineage) {t : AppState} {plan : Plan} {before after : List Plan}
    (waits : race.waiting = before ++ plan :: after) {ambient : Ambient}
    (run : persistCommit ambient plan.commit race.state = (.ok (), t))
    (onHead : plan.commit.parentCommitIds = (headOf race.state.store.heads lineage).toList) :
    Orderly lineage ⟨t, before ++ after, race.made ++ [plan.commit]⟩ where
  keeps commit member := by
    have here : plan.commit.lineage = lineage := orderly.lineages plan (by simp [waits])
    obtain ⟨accepts, finish⟩ := (persistCommit_recorded run).1.persisted_of_true
    have heads : t.store.heads = moveHead plan.commit.lineage plan.commit.commitId race.state.store.heads :=
      congrArg Ledger.heads finish
    have dag : t.dag = race.state.dag.record plan.commit := congrArg Ledger.dag finish
    refine ⟨plan.commit.commitId, ?_, ?_⟩
    · rw [heads, headOf_moveHead, if_pos (here ▸ rfl)]
    · rw [dag]
      rcases List.mem_append.mp member with old | new
      · obtain ⟨head, stored, path⟩ := orderly.keeps commit old
        have edge : head ∈ plan.commit.parentCommitIds := by simp [onHead, stored]
        rw [DagIndex.next_record]
        have first : head ∈ Function.update race.state.dag.parents.next plan.commit.commitId
            plan.commit.parentCommitIds plan.commit.commitId := by rwa [Function.update_self]
        exact .head first ((reach_update_iff (accepts.noCycle head edge)).mpr path)
      · exact List.mem_singleton.mp new ▸ .refl _
  lineages other member := by
    apply orderly.lineages
    rw [waits]
    rcases List.mem_append.mp member with early | late
    · exact List.mem_append_left _ early
    · exact List.mem_append_right _ (List.mem_cons_of_mem _ late)

theorem Orderly.step (orderly : race.Orderly lineage) (step : Step deps config lineage race turn race')
    (undisturbed : race.Undisturbed lineage turn) : race'.Orderly lineage := by
  cases step with
  | publish bare run here => exact orderly.plan (SameLedger.of_run (planPublish_keeps _) run) here
  | checkpoint bare run here => exact orderly.plan (SameLedger.of_run (planCheckpoint_keeps _) run) here
  | persist waits run => exact orderly.persist waits run undisturbed

/-- While every request persists on the head that it read, all commits made are below the head. -/
theorem keepsUpdates_of_undisturbed {s : AppState} {turns : List Turn}
    (run : Run (UndisturbedStep deps config lineage) (start s) turns race) : race.KeepsUpdates lineage := by
  have orderly := run.invariant (I := Orderly lineage) (orderly_start s)
    fun _ _ _ orderly step => orderly.step step.1 step.2
  exact orderly.keeps

section Sample

private def ambientAt (second : ℕ) : Ambient := .calm ⟨second, 0⟩ second

private def bareRequest : CheckpointRequest := Sample.checkpointRequest "r" [] []

/-- The plan of a checkpoint in the given second -/
private def planOn (heads : List HeadRow) (second : ℕ) : Plan :=
  checkpointPlan .sample Sample.config (ambientAt second) heads bareRequest

/-- The plan of a checkpoint on a lineage without a head -/
private def rootPlan (second : ℕ) : Plan := planOn [] second

private theorem plans_on (s : AppState) (second : ℕ) :
    ∃ t, planCheckpoint .sample Sample.config (ambientAt second) bareRequest s = (.ok (planOn s.store.heads second), t) ∧
      t.ledger = s.ledger := by
  have small : ¬ Sample.config.maxInlinePayloadBytes <
      (redactedPayload .sample Sample.config (some (emptyJsonPayload .sample))).1.data.length := by decide
  have admits : AdmitsCheckpoint .sample Sample.config (ambientAt second) s bareRequest :=
    ⟨.inl rfl, fun large => absurd large small, fun _ => rfl⟩
  obtain ⟨t, run⟩ := planCheckpoint_eq_ok_iff.2 ⟨admits, rfl⟩
  exact ⟨t, run, SameLedger.of_run (planCheckpoint_keeps _) run⟩

private theorem plans (s : AppState) (bare : s.store.heads = []) (second : ℕ) :
    ∃ t, planCheckpoint .sample Sample.config (ambientAt second) bareRequest s = (.ok (rootPlan second), t) ∧
      t.ledger = s.ledger := by
  rw [rootPlan, ← bare]
  exact plans_on s second

private theorem persists (s : AppState) (second : ℕ) :
    ∃ t, persistCommit (ambientAt second) (rootPlan second).commit s = (.ok (), t) ∧
      t.ledger = s.ledger.persist (rootPlan second).commit :=
  persistCommit_root length_checkpointCommit_commitId rfl rfl rfl

private theorem persist_next {deps : External} {config : Config} {lineage : Lineage} {s t : AppState}
    {ambient : Ambient} {plan : Plan} {rest : List Plan} {made : List Commit}
    (run : persistCommit ambient plan.commit s = (.ok (), t)) :
    Step deps config lineage ⟨s, plan :: rest, made⟩ (.persist ambient plan) ⟨t, rest, made ++ [plan.commit]⟩ :=
  @Step.persist deps config lineage ⟨s, plan :: rest, made⟩ ambient plan [] rest t rfl run

/-- The heads after the first commit -/
private def firstHeads : List HeadRow := moveHead (Sample.lineage "r") (rootPlan 1).commit.commitId []

/-- A commit on top of the first one is accepted. -/
private theorem accepts_second : (DagIndex.empty.record (rootPlan 1).commit).Accepts (planOn firstHeads 2).commit := by
  have accepted : ((DagIndex.empty.record (rootPlan 1).commit).append (planOn firstHeads 2).commit).isOk = true := by
    decide +kernel
  obtain ⟨dag, appended⟩ := Checks.exists_eq_ok accepted
  exact (DagIndex.append_eq_ok_iff.1 appended).1

/-- Two requests persist one after the other, each on the head that it read, while a third one is still on its way with
the head that the first one read. -/
theorem keepsUpdates_of_undisturbed_pair : ∃ turns race,
    Run (UndisturbedStep .sample Sample.config (Sample.lineage "r")) (start .initial) turns race ∧
      race.made = [(rootPlan 1).commit, (planOn firstHeads 2).commit] ∧ race.waiting = [rootPlan 3] ∧
        race.KeepsUpdates (Sample.lineage "r") := by
  obtain ⟨s₁, planned₁, same₁⟩ := plans .initial rfl 1
  obtain ⟨s₂, planned₃, same₂⟩ := plans s₁ (congrArg Ledger.heads same₁) 3
  obtain ⟨s₃, persisted₁, same₃⟩ := persists s₂ 1
  have before : s₂.ledger = AppState.initial.ledger := same₂.trans same₁
  have heads : s₃.store.heads = firstHeads := by
    have moved := congrArg Ledger.heads same₃
    rw [before] at moved
    exact moved
  obtain ⟨s₄, planned₂, same₄⟩ := plans_on s₃ 2
  rw [heads] at planned₂
  have dag : s₄.dag = DagIndex.empty.record (rootPlan 1).commit := by
    have recorded := congrArg Ledger.dag (same₄.trans same₃)
    rw [before] at recorded
    exact recorded
  obtain ⟨s₅, persisted₂⟩ := @persistCommit_of_accepts (ambientAt 2) _ _ (dag ▸ accepts_second) rfl rfl
  have first : UndisturbedStep .sample Sample.config (Sample.lineage "r") (start .initial) _ ⟨s₁, [rootPlan 1], []⟩ :=
    ⟨.checkpoint rfl planned₁ rfl, trivial⟩
  have third : UndisturbedStep .sample Sample.config (Sample.lineage "r") ⟨s₁, [rootPlan 1], []⟩ _
      ⟨s₂, [rootPlan 1, rootPlan 3], []⟩ := ⟨.checkpoint rfl planned₃ rfl, trivial⟩
  have made : UndisturbedStep .sample Sample.config (Sample.lineage "r") ⟨s₂, [rootPlan 1, rootPlan 3], []⟩
      (.persist (ambientAt 1) (rootPlan 1)) ⟨s₃, [rootPlan 3], [(rootPlan 1).commit]⟩ := by
    refine ⟨persist_next persisted₁, ?_⟩
    change [] = (headOf s₂.ledger.heads (Sample.lineage "r")).toList
    rw [before]
    rfl
  have second : UndisturbedStep .sample Sample.config (Sample.lineage "r")
      ⟨s₃, [rootPlan 3], [(rootPlan 1).commit]⟩ _ ⟨s₄, [rootPlan 3, planOn firstHeads 2], [(rootPlan 1).commit]⟩ :=
    ⟨.checkpoint rfl planned₂ rfl, trivial⟩
  have onTop : UndisturbedStep .sample Sample.config (Sample.lineage "r")
      ⟨s₄, [rootPlan 3, planOn firstHeads 2], [(rootPlan 1).commit]⟩ (.persist (ambientAt 2) (planOn firstHeads 2))
      ⟨s₅, [rootPlan 3], [(rootPlan 1).commit, (planOn firstHeads 2).commit]⟩ := by
    refine ⟨@Step.persist _ _ _ ⟨s₄, [rootPlan 3, planOn firstHeads 2], _⟩ _ _ [rootPlan 3] [] _ rfl persisted₂, ?_⟩
    have kept : s₄.store.heads = firstHeads := (congrArg Ledger.heads same₄).trans heads
    change (planOn firstHeads 2).commit.parentCommitIds = (headOf s₄.store.heads (Sample.lineage "r")).toList
    rw [kept]
    decide +kernel
  have run := Run.snoc (.snoc (.snoc (.snoc (.single first) third) made) second) onTop
  exact ⟨_, _, run, rfl, rfl, keepsUpdates_of_undisturbed run⟩

/-- Two requests that both read an empty head: the commit persisted first is not below the head. -/
theorem keepsUpdates_fails_interleaved :
    ¬ ∀ (deps : External) (config : Config) (lineage : Lineage) (s : AppState) (turns : List Turn) (race : Race),
      Reachable deps config s → Run (Step deps config lineage) (start s) turns race → race.waiting = [] →
      race.KeepsUpdates lineage := by
  intro claim
  obtain ⟨s₁, planned₁, same₁⟩ := plans .initial rfl 1
  obtain ⟨s₂, planned₂, same₂⟩ := plans s₁ (congrArg Ledger.heads same₁) 2
  obtain ⟨s₃, persisted₁, same₃⟩ := persists s₂ 1
  obtain ⟨s₄, persisted₂, same₄⟩ := persists s₃ 2
  have run : Run (Step .sample Sample.config (Sample.lineage "r")) (start .initial) _
      ⟨s₄, [], [(rootPlan 1).commit, (rootPlan 2).commit]⟩ :=
    .snoc (.snoc (.snoc (.single (.checkpoint rfl planned₁ rfl)) (.checkpoint rfl planned₂ rfl))
      (persist_next persisted₁)) (persist_next persisted₂)
  obtain ⟨head, stored, path⟩ := claim .sample Sample.config _ .initial _ _ ⟨[], .nil⟩ run rfl (rootPlan 1).commit
    List.mem_cons_self
  have heads : s₄.store.heads = moveHead (Sample.lineage "r") (rootPlan 2).commit.commitId s₃.store.heads :=
    congrArg Ledger.heads same₄
  have dag : s₄.dag = s₃.dag.record (rootPlan 2).commit := congrArg Ledger.dag same₄
  rw [heads, headOf_moveHead, if_pos rfl, Option.some.injEq] at stored
  have differ : (rootPlan 2).commit.commitId ≠ (rootPlan 1).commit.commitId := by decide
  rcases path.eq_or_head with same | ⟨parent, edge, _⟩
  · exact differ (stored.trans same)
  · rw [dag, DagIndex.next_record, ← stored, Function.update_self] at edge
    exact absurd edge List.not_mem_nil

end Sample

end Race

end AttowNexus
