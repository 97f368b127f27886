import AttowNexus.Proofs.LoopDetector
import AttowNexus.Proofs.Payload

/-! # Repeated checkpoints

A checkpoint without parents goes on top of the head and becomes the head itself, and the parents are part of
the fingerprint. Three equal submissions in a row therefore warn only when the head was put back in between, or
when older commits of the window already repeat the third one.
-/

namespace AttowNexus

open Fallible AppState LoopDetector

/-- Both ask for the same work on the head of the same lineage. -/
structure CheckpointRequest.Repeats (request original : CheckpointRequest) : Prop where
  lineage : request.lineage = original.lineage
  objective : request.objective = original.objective
  summary : request.summary = original.summary
  payload : request.payload = original.payload
  toolCalls : request.toolCalls = original.toolCalls
  toolResults : request.toolResults = original.toolResults
  bare : request.parentCommitIds = []
  bareOriginal : original.parentCommitIds = []

theorem CheckpointRequest.Repeats.of_common {request other original : CheckpointRequest}
    (repeats : request.Repeats original) (repeats' : other.Repeats original) : request.Repeats other where
  lineage := repeats.lineage.trans repeats'.lineage.symm
  objective := repeats.objective.trans repeats'.objective.symm
  summary := repeats.summary.trans repeats'.summary.symm
  payload := repeats.payload.trans repeats'.payload.symm
  toolCalls := repeats.toolCalls.trans repeats'.toolCalls.symm
  toolResults := repeats.toolResults.trans repeats'.toolResults.symm
  bare := repeats.bare
  bareOriginal := repeats'.bare

/-- A call, successful or not, that stores no commit for the window with the key. -/
structure Aside (deps : External) (config : Config) (key : String) (s : AppState) (event : Event) (t : AppState) :
    Prop where
  step : Step deps config s event t
  apart : event.call.CommitsTo config key → t.store.tables = s.store.tables

/-- A successful checkpoint. -/
structure Submission (deps : External) (config : Config) where
  start : AppState
  request : CheckpointRequest
  ambient : Ambient
  response : CheckpointResponse
  finish : AppState
  run : checkpointInner deps config ambient request start = (.ok response, finish)

namespace Submission

variable {deps : External} {config : Config} (submission : Submission deps config)

/-- The head that the commit is put on. -/
def head : Option String := headOf submission.start.store.heads submission.request.lineage

def commit : Commit := checkpointCommit deps config submission.ambient submission.start.store.heads submission.request

def key : String := windowKey submission.commit

end Submission

/-- Three submissions of the same work, with no other commit for their window in between. -/
structure Repetition (deps : External) (config : Config) where
  first : Submission deps config
  second : Submission deps config
  third : Submission deps config
  again : second.request.Repeats first.request
  onceMore : third.request.Repeats first.request
  between : ∃ events, Run (Aside deps config first.key) first.finish events second.start
  meanwhile : ∃ events, Run (Aside deps config first.key) second.finish events third.start

variable {deps : External} {config : Config}

namespace Submission

variable {submission original : Submission deps config}

theorem parentCommitIds_commit (bare : submission.request.parentCommitIds = []) :
    submission.commit.parentCommitIds = submission.head.toList := by
  change parentsFor submission.start.store.heads submission.request.lineage submission.request.parentCommitIds = _
  rw [bare, parentsFor, if_neg (not_not.mpr rfl), head]

theorem text_eq_iff_parents (repeats : submission.request.Repeats original.request) :
    fingerprintText deps submission.commit = fingerprintText deps original.commit ↔
      submission.commit.parentCommitIds = original.commit.parentCommitIds := by
  apply fingerprintText_eq_iff_parents
  · exact repeats.objective
  · exact repeats.summary
  · rw [commit, commit, stateDelta_checkpointCommit, stateDelta_checkpointCommit, repeats.payload]
  · exact repeats.toolCalls
  · exact repeats.toolResults

/-- Equal work on the heads of one lineage gives equal fingerprint texts exactly when the heads are equal. -/
theorem text_eq_iff (repeats : submission.request.Repeats original.request) :
    fingerprintText deps submission.commit = fingerprintText deps original.commit ↔ submission.head = original.head := by
  rw [text_eq_iff_parents repeats, parentCommitIds_commit repeats.bare, parentCommitIds_commit repeats.bareOriginal]
  constructor
  · intro same
    simpa only [Option.head?_toList] using congrArg List.head? same
  · exact congrArg Option.toList

theorem key_eq (repeats : submission.request.Repeats original.request) : submission.key = original.key := by
  have lineage := repeats.lineage
  rw [key, key, commit, commit, windowKey_checkpointCommit, windowKey_checkpointCommit]
  rw [show submission.request.runId = original.request.runId from congrArg Lineage.runId lineage,
    show submission.request.agentId = original.request.agentId from congrArg Lineage.agentId lineage,
    show submission.request.channel = original.request.channel from congrArg Lineage.channel lineage]

theorem reachable (submission : Submission deps config) (reachable : Reachable deps config submission.start) :
    Reachable deps config submission.finish := reachable.step (step_of_checkpoint submission.run)

/-- A submission pushes its commit onto the window. -/
theorem windowAt_finish (enabled : config.loopDetectionEnabled = true)
    (reachable : Reachable deps config submission.start) :
    submission.finish.detector.windowAt submission.key =
      Window.push 12 (submission.start.detector.windowAt submission.key) (entry deps submission.commit) := by
  rw [(checkpointInner_inspects enabled submission.run).1, ← reachable.remembers.1]
  exact windowAt_inspect_self

end Submission

theorem reachable_of_aside {key : String} {events : List Event} {s t : AppState} (reachable : Reachable deps config s)
    (run : Run (Aside deps config key) s events t) : Reachable deps config t := by
  obtain ⟨earlier, history⟩ := reachable
  exact ⟨_, history.append (run.mono fun _ _ _ aside => aside.step)⟩

theorem windowAt_of_aside {key : String} {events : List Event} {s t : AppState}
    (run : Run (Aside deps config key) s events t) : t.detector.windowAt key = s.detector.windowAt key := by
  induction run with
  | nil => rfl
  | snoc _ aside ih => exact (aside.step.windowAt_eq aside.apart).trans ih

namespace Repetition

variable (repetition : Repetition deps config)

/-- How many commits of the window repeat the third one when it comes: the first if it was put on the same head, the
second likewise, and those among the ten before them that have its text. -/
def repeated (log : List Commit) : ℕ :=
  ((logAt log repetition.first.key).rtake 10).countP
      (fingerprintText deps · = fingerprintText deps repetition.third.commit) +
    (if repetition.first.head = repetition.third.head then 1 else 0) +
    (if repetition.second.head = repetition.third.head then 1 else 0)

variable {repetition}

/-- The window that the third submission finds. -/
theorem windowAt_third (enabled : config.loopDetectionEnabled = true)
    (reachable : Reachable deps config repetition.first.start) {log : List Commit}
    (remembers : repetition.first.start.detector.Remembers deps log) :
    repetition.third.start.detector.windowAt repetition.first.key =
      ((logAt log repetition.first.key).rtake 10 ++ [repetition.first.commit, repetition.second.commit]).map
        (entry deps) := by
  obtain ⟨_, between⟩ := repetition.between
  obtain ⟨_, meanwhile⟩ := repetition.meanwhile
  have atSecond := reachable_of_aside (repetition.first.reachable reachable) between
  have pushed := repetition.second.windowAt_finish enabled atSecond
  rw [Submission.key_eq repetition.again] at pushed
  rw [windowAt_of_aside meanwhile, pushed, windowAt_of_aside between,
    repetition.first.windowAt_finish enabled reachable, remembers.windows, reachable.remembers.1,
    Window.push_rtake (by decide), Window.push_rtake (by decide), List.rtake_concat_succ, List.rtake_concat_succ]
  rw [List.map_append, List.append_assoc, List.rtake, List.rtake, List.map_drop, List.length_map]
  rfl

/-- The third submission warns when its fingerprint is in its window twice. -/
theorem warns_iff_countP (enabled : config.loopDetectionEnabled = true) :
    repetition.third.finish.Warns deps repetition.third.ambient ↔
      2 ≤ (repetition.third.start.detector.windowAt repetition.first.key).countP
        (·.fingerprint = fingerprint deps repetition.third.commit) := by
  have key : windowKey repetition.third.commit = repetition.first.key := Submission.key_eq repetition.onceMore
  rw [(checkpointInner_inspects enabled repetition.third.run).2, warning_isSome_iff, ← key]
  rfl

/-- The fingerprints of the window that equal the third one. -/
theorem countP_windowAt_third (enabled : config.loopDetectionEnabled = true)
    (reachable : Reachable deps config repetition.first.start) {log : List Commit}
    (remembers : repetition.first.start.detector.Remembers deps log)
    (apart : HashesApart deps
      (log ++ [repetition.first.commit, repetition.second.commit, repetition.third.commit])) :
    (repetition.third.start.detector.windowAt repetition.first.key).countP
      (·.fingerprint = fingerprint deps repetition.third.commit) = repetition.repeated log := by
  have latest : repetition.third.commit ∈
      log ++ [repetition.first.commit, repetition.second.commit, repetition.third.commit] := by simp
  have older : ∀ commit ∈ (logAt log repetition.first.key).rtake 10,
      (decide (fingerprint deps commit = fingerprint deps repetition.third.commit) = true ↔
        decide (fingerprintText deps commit = fingerprintText deps repetition.third.commit) = true) := by
    intro commit member
    have inside : commit ∈ log := List.mem_of_mem_filter (List.mem_of_mem_drop member)
    simpa using apart.eq_iff (List.mem_append_left _ inside) latest
  have onFirst : fingerprint deps repetition.first.commit = fingerprint deps repetition.third.commit ↔
      repetition.first.head = repetition.third.head := by
    rw [apart.eq_iff (by simp) latest, eq_comm, Submission.text_eq_iff repetition.onceMore, eq_comm]
  have onSecond : fingerprint deps repetition.second.commit = fingerprint deps repetition.third.commit ↔
      repetition.second.head = repetition.third.head := by
    rw [apart.eq_iff (by simp) latest, eq_comm,
      Submission.text_eq_iff (repetition.onceMore.of_common repetition.again), eq_comm]
  rw [windowAt_third enabled reachable remembers, List.countP_map, List.countP_append, List.countP_cons,
    List.countP_singleton, repeated, Nat.add_assoc]
  congr 1
  · exact List.countP_congr older
  · simp only [Function.comp_apply, entry, decide_eq_true_eq, onFirst, onSecond]
    omega

end Repetition

/-- From every reachable state with loop detection on, the third of three repeated checkpoints warns exactly when two
commits of its window repeat it; it does if all three were put on the same head. -/
theorem third_repetition_warns_iff (repetition : Repetition deps config) (enabled : config.loopDetectionEnabled = true)
    (reachable : Reachable deps config repetition.first.start) :
    (∃ log, repetition.first.start.detector.Remembers deps log) ∧
    (∀ log, repetition.first.start.detector.Remembers deps log →
      HashesApart deps (log ++ [repetition.first.commit, repetition.second.commit, repetition.third.commit]) →
        (repetition.third.finish.Warns deps repetition.third.ambient ↔ 2 ≤ repetition.repeated log)) ∧
    (repetition.first.head = repetition.third.head → repetition.second.head = repetition.third.head →
      repetition.third.finish.Warns deps repetition.third.ambient) := by
  obtain ⟨-, log, remembers⟩ := reachable.remembers
  refine ⟨⟨log, remembers⟩, fun log remembers apart => ?_, fun onFirst onSecond => ?_⟩
  · rw [Repetition.warns_iff_countP enabled, Repetition.countP_windowAt_third enabled reachable remembers apart]
  · have first := (Submission.text_eq_iff repetition.onceMore).mpr onFirst.symm
    have second := (Submission.text_eq_iff (repetition.onceMore.of_common repetition.again)).mpr onSecond.symm
    rw [Repetition.warns_iff_countP enabled, Repetition.windowAt_third enabled reachable remembers, List.map_append,
      List.countP_append]
    have both : ([repetition.first.commit, repetition.second.commit].map (entry deps)).countP
        (·.fingerprint = fingerprint deps repetition.third.commit) = 2 := by
      simp [entry, fingerprint_eq, ← first, ← second]
    exact both ▸ Nat.le_add_left _ _

section Sample

private def watching : Config := { Sample.config with loopDetectionEnabled := true }

private def repeating : CheckpointRequest := Sample.checkpointRequest "r" [] []

/-- The commit of the repeated request in the given second. -/
private def repeatedCommit (n : ℕ) (ledger : Ledger) : Commit :=
  checkpointCommit .sample watching (.calm ⟨n, 0⟩ n) ledger.heads repeating

private def resubmitted (n : ℕ) (ledger : Ledger) : Ledger := ledger.persist (repeatedCommit n ledger)

private theorem exists_submission (n : ℕ) {s : AppState} {ledger : Ledger} (known : s.ledger = ledger)
    (accepted : (ledger.dag.append (repeatedCommit n ledger)).isOk = true) :
    ∃ submission : Submission .sample watching, submission.start = s ∧ submission.request = repeating ∧
      submission.commit = repeatedCommit n ledger ∧ submission.finish.ledger = resubmitted n ledger := by
  subst known
  have accepts : s.ledger.dag.Accepts (repeatedCommit n s.ledger) := by
    cases outcome : s.ledger.dag.append (repeatedCommit n s.ledger) with
    | error refusal => simp [outcome, Except.isOk, Except.toBool] at accepted
    | ok dag => exact (DagIndex.append_eq_ok_iff.1 outcome).1
  have admits : AdmitsCheckpoint .sample watching (.calm ⟨n, 0⟩ n) s repeating :=
    ⟨.inl rfl, fun _ => ⟨rfl, fun _ => rfl, rfl, rfl, rfl⟩, fun _ => rfl⟩
  obtain ⟨response, t, run⟩ := checkpointInner_of_accepts admits accepts rfl rfl rfl
  refine ⟨⟨s, repeating, .calm ⟨n, 0⟩ n, response, t, run⟩, rfl, rfl, rfl, ?_⟩
  rcases checkpointInner_cases run with ⟨_, ⟨_, failed⟩, _⟩ | ⟨_, recorded, _⟩
  · cases failed
  · exact recorded.persisted_of_true.2

private theorem exists_repetition {first second third : Submission .sample watching} (asked : first.request = repeating)
    (asked' : second.request = repeating) (asked'' : third.request = repeating)
    (between : ∃ events, Run (Aside .sample watching first.key) first.finish events second.start)
    (meanwhile : ∃ events, Run (Aside .sample watching first.key) second.finish events third.start) :
    ∃ repetition : Repetition .sample watching, repetition.first = first ∧ repetition.second = second ∧
      repetition.third = third := by
  have itself : repeating.Repeats repeating := ⟨rfl, rfl, rfl, rfl, rfl, rfl, rfl, rfl⟩
  have again : second.request.Repeats first.request := by
    rw [asked, asked']
    exact itself
  have onceMore : third.request.Repeats first.request := by
    rw [asked, asked'']
    exact itself
  exact ⟨⟨first, second, third, again, onceMore, between, meanwhile⟩, rfl, rfl, rfl⟩

private theorem headOf_put {ledger : Ledger} {commitId : String} :
    headOf (ledger.setHead (Sample.lineage "r") commitId).heads (Sample.lineage "r") = some commitId :=
  headOf_moveHead.trans (if_pos rfl)

private theorem head_eq {submission : Submission .sample watching} {ledger : Ledger}
    (known : submission.start.ledger = ledger) (asked : submission.request = repeating) :
    submission.head = headOf ledger.heads (Sample.lineage "r") := by
  rw [Submission.head, asked, ← known]
  rfl

/-- A forced rollback of the run to the given commit. -/
private theorem exists_putBack (key head target : String) {s : AppState} {ledger : Ledger} (known : s.ledger = ledger)
    (onRun : (ledger.tables.getCommit head).map (·.lineage) = some (Sample.lineage "r"))
    (stored : (ledger.tables.getCommit target).map (·.commitId) = some target) :
    ∃ t, t.ledger = ledger.setHead (Sample.lineage "r") target ∧
      ∃ events, Run (Aside .sample watching key) s events t := by
  subst known
  obtain ⟨headCommit, found, lineage⟩ := Option.map_eq_some_iff.mp onRun
  obtain ⟨targetCommit, found', named⟩ := Option.map_eq_some_iff.mp stored
  obtain ⟨r, t, run⟩ : ∃ r t, rollbackInner .sample (.calm ⟨0, 0⟩ 0) ⟨head, target, true⟩ s = (r, t) := ⟨_, _, rfl⟩
  have admits : s.ledger.AdmitsRollback (.calm ⟨0, 0⟩ 0) ⟨head, target, true⟩ headCommit targetCommit :=
    ⟨.inl rfl, rfl, found, rfl, found', fun _ _ => rfl⟩
  refine ⟨t, ?_, _, .single ⟨step_of_rollback run, fun impossible => absurd impossible not_false⟩⟩
  have outcome := rollbackInner_rolledBack run
  generalize t.ledger = finish at outcome ⊢
  cases outcome with
  | rejected rejects => exact absurd admits (rejects _ _)
  | headless _ fails => exact absurd fails nofun
  | unlogged admits' =>
    rw [← lineage, ← named, Option.some.inj (admits'.head.symm.trans found),
      Option.some.inj (admits'.target.symm.trans found')]
  | moved admits' =>
    rw [← lineage, ← named, Option.some.inj (admits'.head.symm.trans found),
      Option.some.inj (admits'.target.symm.trans found')]

/-- The ledger of a daemon with one commit. -/
private def begun : Ledger := resubmitted 1 .empty

private def base : String := (repeatedCommit 1 .empty).commitId

private def headCommit (ledger : Ledger) : String := (headOf ledger.heads (Sample.lineage "r")).getD ""

/-- Three equal checkpoints warn when the head is put back before the second and the third. -/
theorem third_repetition_warns_put_back :
    ∃ repetition : Repetition .sample watching, repetition.first.head = some base ∧
      repetition.third.finish.Warns .sample repetition.third.ambient := by
  obtain ⟨start, began, _, _, known⟩ := exists_submission 1 (show AppState.initial.ledger = .empty from rfl)
    (by decide)
  obtain ⟨first, on, asked, _, known₁⟩ := exists_submission 2 known (by decide)
  obtain ⟨_, back, between⟩ := exists_putBack first.key (headCommit (resubmitted 2 begun)) base known₁
    (by decide) (by decide)
  obtain ⟨second, on', asked', _, known₂⟩ := exists_submission 3 back (by decide)
  obtain ⟨_, back', meanwhile⟩ := exists_putBack first.key
    (headCommit (resubmitted 3 ((resubmitted 2 begun).setHead (Sample.lineage "r") base))) base known₂
    (by decide) (by decide)
  obtain ⟨third, on'', asked'', _⟩ := exists_submission 4 back' (by decide)
  obtain ⟨repetition, rfl, rfl, rfl⟩ := exists_repetition asked asked' asked'' (on' ▸ between) (on'' ▸ meanwhile)
  have reached : Reachable .sample watching repetition.first.start := by
    rw [on]
    exact start.reachable (began ▸ ⟨[], .nil⟩)
  have onFirst : repetition.first.head = some base := by
    rw [head_eq (on ▸ known) asked]
    exact headOf_put
  have onSecond : repetition.second.head = some base := by
    rw [head_eq (on' ▸ back) asked']
    exact headOf_put
  have onThird : repetition.third.head = some base := by
    rw [head_eq (on'' ▸ back') asked'']
    exact headOf_put
  obtain ⟨_, _, warns⟩ := third_repetition_warns_iff repetition rfl reached
  exact ⟨repetition, onFirst, warns (onFirst.trans onThird.symm) (onSecond.trans onThird.symm)⟩

/-- Three equal checkpoints in a row do not warn. -/
theorem third_repetition_stays_silent :
    ¬ ∀ (deps : External) (config : Config) (repetition : Repetition deps config), config.loopDetectionEnabled = true →
      Reachable deps config repetition.first.start →
        repetition.third.finish.Warns deps repetition.third.ambient := by
  intro claim
  obtain ⟨first, on, asked, made, known⟩ := exists_submission 1 (show AppState.initial.ledger = .empty from rfl)
    (by decide)
  obtain ⟨second, on', asked', made', known'⟩ := exists_submission 2 known (by decide)
  obtain ⟨third, on'', asked'', made'', _⟩ := exists_submission 3 known' (by decide)
  obtain ⟨repetition, rfl, rfl, rfl⟩ := exists_repetition asked asked' asked'' ⟨[], on' ▸ .nil⟩ ⟨[], on'' ▸ .nil⟩
  have reached : Reachable .sample watching repetition.first.start := on ▸ ⟨[], .nil⟩
  have remembers : repetition.first.start.detector.Remembers .sample [] := on ▸ remembers_new .sample
  have apart : HashesApart .sample
      ([] ++ [repetition.first.commit, repetition.second.commit, repetition.third.commit]) := by
    rw [made, made', made'']
    exact hashesApart_of_nodup (by decide +kernel)
  have bare : repetition.first.start.ledger = .empty := on ▸ rfl
  have onFirst : repetition.first.head ≠ repetition.third.head := by
    rw [head_eq bare asked, head_eq (on'' ▸ known') asked'']
    decide
  have onSecond : repetition.second.head ≠ repetition.third.head := by
    rw [head_eq (on' ▸ known) asked', head_eq (on'' ▸ known') asked'']
    decide
  have warned := claim .sample watching repetition rfl reached
  rw [Repetition.warns_iff_countP rfl, Repetition.countP_windowAt_third rfl reached remembers apart,
    Repetition.repeated, if_neg onFirst, if_neg onSecond] at warned
  exact absurd warned (by simp [logAt])

end Sample

end AttowNexus
