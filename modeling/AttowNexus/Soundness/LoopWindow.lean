import AttowNexus.Library.Joined
import AttowNexus.Proofs.LoopDetector

/-! # What the loop detector sees of the past

A window of any size is the end of the history of its key, so a count looks at exactly that many earlier commits. Keys
and fingerprints are texts joined without escapes, so commits are told apart except where a field has a separator of its
own, or where a list without an element looks like a list with an empty one.
-/

namespace AttowNexus

open LoopDetector

variable {deps : External}

section Windows

/-- The detector after it inspected some commits, each at its time -/
def inspectAll (deps : External) (windowSize : ℕ) (earlier : List (Ambient × Commit)) : LoopDetector :=
  earlier.foldl (fun detector step => (detector.inspect deps step.1 step.2).2) (.ofSize windowSize)

theorem inspectAll_remembers (deps : External) {windowSize : ℕ} (positive : 0 < windowSize) (earlier : List (Ambient × Commit)) :
    (inspectAll deps windowSize earlier).windowSize = windowSize ∧
      (inspectAll deps windowSize earlier).Remembers deps (earlier.map (·.2)) := by
  induction earlier using List.reverseRecOn with
  | nil => exact ⟨rfl, positive, fun _ => List.drop_nil.symm⟩
  | append_singleton earlier step ih =>
    obtain ⟨size, remembers⟩ := ih
    rw [inspectAll, List.foldl_append, List.map_append]
    exact ⟨size, remembers.inspect⟩

/-- The last commits with the key -/
def recentAt (windowSize : ℕ) (log : List Commit) (key : String) : List Commit := (logAt log key).rtake windowSize

/-- The latest commit with another fingerprint -/
def lastOther (deps : External) (recent : List Commit) (mark : String) : String :=
  ((recent.reverse.find? (fingerprint deps · ≠ mark)).map (·.commitId)).getD ""

theorem suggestedStableCommitId_map (recent : List Commit) (mark : String) :
    suggestedStableCommitId (recent.map (entry deps)) mark = lastOther deps recent mark := by
  rw [suggestedStableCommitId, lastOther, ← List.map_reverse, List.find?_map, Option.map_map]
  rfl

/-- What the detector says of a commit is said by the last commits with its key, as many as the window has room for. -/
theorem inspect_recent (deps : External) {windowSize : ℕ} (positive : 0 < windowSize) (ambient : Ambient) (earlier : List (Ambient × Commit))
    (commit : Commit) :
    ∃ recent, recent = recentAt windowSize (earlier.map (·.2)) (windowKey commit) ∧
      repetitionCount ((inspectAll deps windowSize earlier).window commit) (fingerprint deps commit) =
        1 + recent.countP (fingerprint deps · = fingerprint deps commit) ∧
      suggestedStableCommitId ((inspectAll deps windowSize earlier).window commit) (fingerprint deps commit) =
        lastOther deps recent (fingerprint deps commit) ∧
      (((inspectAll deps windowSize earlier).inspect deps ambient commit).1.isSome = true ↔
        3 ≤ 1 + recent.countP (fingerprint deps · = fingerprint deps commit)) ∧
      ∀ warning, ((inspectAll deps windowSize earlier).inspect deps ambient commit).1 = some warning →
        warning.repetitionCount = 1 + recent.countP (fingerprint deps · = fingerprint deps commit) ∧
        warning.suggestedStableCommitId = lastOther deps recent (fingerprint deps commit) := by
  obtain ⟨size, remembers⟩ := inspectAll_remembers deps positive earlier
  have window : (inspectAll deps windowSize earlier).window commit =
      (recentAt windowSize (earlier.map (·.2)) (windowKey commit)).map (entry deps) := by
    have held := remembers.windows (windowKey commit)
    rw [size, List.rtake, ← List.map_drop, List.length_map] at held
    exact held
  refine ⟨_, rfl, ?_⟩
  generalize recentAt windowSize (earlier.map (·.2)) (windowKey commit) = recent at window
  have count : repetitionCount ((inspectAll deps windowSize earlier).window commit) (fingerprint deps commit) =
      1 + recent.countP (fingerprint deps · = fingerprint deps commit) := by
    rw [repetitionCount, window, ← List.countP_eq_length_filter, List.countP_map, Nat.add_comm]
    rfl
  have stable : suggestedStableCommitId ((inspectAll deps windowSize earlier).window commit) (fingerprint deps commit) =
      lastOther deps recent (fingerprint deps commit) := by
    rw [window, suggestedStableCommitId_map]
  refine ⟨count, stable, ?_, fun warning found => ?_⟩
  · rw [inspect, LoopDetector.warning, count]
    split_ifs with few
    · exact iff_of_false Bool.false_ne_true (by omega)
    · exact iff_of_true rfl (by omega)
  · rw [inspect, LoopDetector.warning] at found
    split_ifs at found with few
    obtain rfl := Option.some.inj found
    exact ⟨count, stable⟩

section Sample

private def looping (agentId summary commitId : String) : Ambient × Commit :=
  (.calm ⟨1, 0⟩ 1, { (default : Commit) with runId := "r", agentId := agentId, summary := summary, commitId := commitId })

/-- Three commits of one agent with another agent in between -/
private def loopLog : List (Ambient × Commit) :=
  [looping "a" "plan" "c1", looping "a" "act" "c2", looping "b" "act" "c3", looping "a" "act" "c4"]

/-- The third equal commit of the agent, with a window of two -/
theorem inspect_recent_third : ∃ recent : List Commit,
    recent.map (·.commitId) = ["c2", "c4"] ∧
      repetitionCount ((inspectAll .sample 2 loopLog).window (looping "a" "act" "c5").2)
        (fingerprint .sample (looping "a" "act" "c5").2) =
          1 + recent.countP (fingerprint .sample · = fingerprint .sample (looping "a" "act" "c5").2) := by
  obtain ⟨recent, same, count, _⟩ :=
    inspect_recent .sample Nat.two_pos (.calm ⟨1, 0⟩ 1) loopLog (looping "a" "act" "c5").2
  exact ⟨recent, same ▸ (by decide), count⟩

end Sample

end Windows

section Texts

variable {x y : Commit}

/-- The pieces of some texts, each cut at the separator -/
def textPieces (separator : Char) (texts : List String) : List (List Char) :=
  Joined.pieces separator (texts.map String.toList)

/-- How many separators there are in each text -/
def separatorsIn (separator : Char) (texts : List String) : List ℕ :=
  Joined.separators separator (texts.map String.toList)

theorem intercalate_eq_iff_textPieces {separator : Char} {texts others : List String} (some : texts ≠ []) (some' : others ≠ []) :
    String.intercalate (String.singleton separator) texts = String.intercalate (String.singleton separator) others ↔
      textPieces separator texts = textPieces separator others := by
  rw [← String.toList_inj, String.toList_intercalate, String.toList_intercalate, String.toList_singleton]
  exact Joined.intercalate_eq_iff (fun none => some (List.map_eq_nil_iff.mp none))
    fun none => some' (List.map_eq_nil_iff.mp none)

theorem eq_iff_separatorsIn {separator : Char} {texts others : List String}
    (same : textPieces separator texts = textPieces separator others) :
    texts = others ↔ separatorsIn separator texts = separatorsIn separator others := by
  rw [separatorsIn, separatorsIn, ← Joined.eq_iff_separators same]
  exact (List.map_injective_iff.mpr fun _ _ => String.toList_inj.mp).eq_iff.symm

/-- Lists that are joined to one text are equal when their elements have equally many separators. -/
theorem eq_iff_separatorsIn_of_intercalate {separator : Char} {texts others : List String}
    (same : String.intercalate (String.singleton separator) texts = String.intercalate (String.singleton separator) others) :
    texts = others ↔ separatorsIn separator texts = separatorsIn separator others := by
  refine ⟨congrArg _, fun counts => ?_⟩
  cases texts with
  | nil =>
    cases others with
    | nil => rfl
    | cons other rest => exact absurd counts nofun
  | cons text rest =>
    cases others with
    | nil => exact absurd counts nofun
    | cons other rest' =>
      exact (eq_iff_separatorsIn ((intercalate_eq_iff_textPieces (List.cons_ne_nil _ _) (List.cons_ne_nil _ _)).1 same)).2 counts

/-- The fields in the key of a window -/
def sourceTexts (commit : Commit) : List String := [commit.runId, commit.agentId, commit.channel]

def toolNames (commit : Commit) : List String := commit.toolCalls.map (·.name)

def errorCodes (commit : Commit) : List String := commit.toolResults.filterMap fun result => result.error.map (·.code)

/-- The fields in a fingerprint, all but the parents -/
def behaviourTexts (commit : Commit) : List String :=
  [commit.objective, commit.summary, (commit.stateDelta.map (·.contentHash)).getD "",
    String.intercalate "," (toolNames commit), String.intercalate "," (errorCodes commit)]

/-- The same run, agent and channel -/
def SameSource (x y : Commit) : Prop := x.runId = y.runId ∧ x.agentId = y.agentId ∧ x.channel = y.channel

/-- The same objective, summary, payload hash, tool names, error codes and parents -/
def SameBehaviour (x y : Commit) : Prop :=
  x.objective = y.objective ∧ x.summary = y.summary ∧
    (x.stateDelta.map (·.contentHash)).getD "" = (y.stateDelta.map (·.contentHash)).getD "" ∧
    toolNames x = toolNames y ∧ errorCodes x = errorCodes y ∧ x.parentCommitIds = y.parentCommitIds

theorem windowKey_eq_iff : windowKey x = windowKey y ↔
    textPieces '|' (sourceTexts x) = textPieces '|' (sourceTexts y) := by
  have joined : ∀ commit : Commit, windowKey commit = String.intercalate (String.singleton '|') (sourceTexts commit) := by
    intro commit
    have bar : String.singleton '|' = "|" := by decide
    simp only [windowKey, sourceTexts, bar, String.intercalate_cons_cons, String.intercalate_singleton,
      String.append_assoc]
  rw [joined, joined]
  exact intercalate_eq_iff_textPieces (List.cons_ne_nil _ _) (List.cons_ne_nil _ _)

theorem sameSource_iff : SameSource x y ↔ sourceTexts x = sourceTexts y := by
  simp [SameSource, sourceTexts]

/-- The text under the hash tells all pieces and the parents. -/
theorem fingerprintText_eq_iff : fingerprintText deps x = fingerprintText deps y ↔
    textPieces '|' (behaviourTexts x) = textPieces '|' (behaviourTexts y) ∧ x.parentCommitIds = y.parentCommitIds := by
  have joined : ∀ commit : Commit, (fingerprintText deps commit).toList =
      (String.intercalate (String.singleton '|') (behaviourTexts commit)).toList ++
        '|' :: (debugStrings deps commit.parentCommitIds).toList := by
    intro commit
    have bar : String.singleton '|' = "|" := by decide
    have letter : "|".toList = ['|'] := by decide
    simp [fingerprintText, behaviourTexts, toolNames, errorCodes, bar, letter, String.intercalate_cons_cons]
  have pieces : String.intercalate (String.singleton '|') (behaviourTexts x) =
      String.intercalate (String.singleton '|') (behaviourTexts y) ↔
        textPieces '|' (behaviourTexts x) = textPieces '|' (behaviourTexts y) :=
    intercalate_eq_iff_textPieces (List.cons_ne_nil _ _) (List.cons_ne_nil _ _)
  rw [← pieces, ← String.toList_inj, joined, joined]
  constructor
  · intro same
    obtain ⟨body, parents⟩ := eq_of_append_debugStrings_eq same
    exact ⟨String.toList_inj.mp body, parents⟩
  · rintro ⟨body, parents⟩
    rw [body, parents]

/-- Commits with the same pieces and parents behave alike when their separators are in the same fields. -/
theorem sameBehaviour_iff (pieces : textPieces '|' (behaviourTexts x) = textPieces '|' (behaviourTexts y))
    (parents : x.parentCommitIds = y.parentCommitIds) :
    SameBehaviour x y ↔ separatorsIn '|' (behaviourTexts x) = separatorsIn '|' (behaviourTexts y) ∧
      separatorsIn ',' (toolNames x) = separatorsIn ',' (toolNames y) ∧
      separatorsIn ',' (errorCodes x) = separatorsIn ',' (errorCodes y) := by
  rw [← eq_iff_separatorsIn pieces]
  constructor
  · rintro ⟨objective, summary, payload, tools, errors, _⟩
    exact ⟨by rw [behaviourTexts, behaviourTexts, objective, summary, payload, tools, errors], by rw [tools], by rw [errors]⟩
  · rintro ⟨texts, tools, errors⟩
    have comma : String.singleton ',' = "," := by decide
    simp only [behaviourTexts, List.cons.injEq, and_true] at texts
    obtain ⟨objective, summary, payload, toolText, errorText⟩ := texts
    refine ⟨objective, summary, payload, ?_, ?_, parents⟩
    · exact (eq_iff_separatorsIn_of_intercalate (comma ▸ toolText)).2 tools
    · exact (eq_iff_separatorsIn_of_intercalate (comma ▸ errorText)).2 errors

/-- Two commits share a window and a fingerprint only for being alike, exactly when equal pieces of their texts come with
equal numbers of separators in each field. -/
theorem behaviour_told_apart_iff (apart : HashesApart deps [x, y]) :
    ((windowKey x = windowKey y ↔ SameSource x y) ∧ (fingerprint deps x = fingerprint deps y ↔ SameBehaviour x y)) ↔
      (textPieces '|' (sourceTexts x) = textPieces '|' (sourceTexts y) →
        separatorsIn '|' (sourceTexts x) = separatorsIn '|' (sourceTexts y)) ∧
      (textPieces '|' (behaviourTexts x) = textPieces '|' (behaviourTexts y) → x.parentCommitIds = y.parentCommitIds →
        separatorsIn '|' (behaviourTexts x) = separatorsIn '|' (behaviourTexts y) ∧
        separatorsIn ',' (toolNames x) = separatorsIn ',' (toolNames y) ∧
        separatorsIn ',' (errorCodes x) = separatorsIn ',' (errorCodes y)) := by
  rw [apart.eq_iff List.mem_cons_self (List.mem_cons_of_mem _ List.mem_cons_self), windowKey_eq_iff, sameSource_iff,
    fingerprintText_eq_iff]
  refine and_congr ?_ ?_
  · constructor
    · exact fun same pieces => (eq_iff_separatorsIn pieces).1 (same.mp pieces)
    · exact fun counts => ⟨fun pieces => (eq_iff_separatorsIn pieces).2 (counts pieces), fun same => by rw [same]⟩
  · constructor
    · exact fun same pieces parents => (sameBehaviour_iff pieces parents).1 (same.mp ⟨pieces, parents⟩)
    · intro counts
      refine ⟨fun ⟨pieces, parents⟩ => (sameBehaviour_iff pieces parents).2 (counts pieces parents), ?_⟩
      rintro ⟨objective, summary, payload, tools, errors, parents⟩
      exact ⟨by rw [behaviourTexts, behaviourTexts, objective, summary, payload, tools, errors], parents⟩

section Sample

/-- The two agents of a window -/
private def agentOf (runId agentId : String) : Commit := { (default : Commit) with runId := runId, agentId := agentId }

private def callingTool (names : List String) : Commit :=
  { (default : Commit) with toolCalls := names.map fun name => { (default : ToolCall) with name := name } }

/-- A bar in a run id moves the border to the agent, and a comma in the name of a tool makes two tools of it. -/
theorem behaviour_mistaken :
    windowKey (agentOf "a|b" "c") = windowKey (agentOf "a" "b|c") ∧ ¬ SameSource (agentOf "a|b" "c") (agentOf "a" "b|c") ∧
    ∀ deps, fingerprint deps (callingTool ["f,g"]) = fingerprint deps (callingTool ["f", "g"]) ∧
      fingerprint deps (callingTool []) = fingerprint deps (callingTool [""]) ∧
      ¬ SameBehaviour (callingTool ["f,g"]) (callingTool ["f", "g"]) ∧
      ¬ SameBehaviour (callingTool []) (callingTool [""]) := by
  refine ⟨by decide, fun same => absurd same.1 (by decide), fun deps => ⟨rfl, rfl, ?_, ?_⟩⟩
  · exact fun same => absurd same.2.2.2.1 (by decide)
  · exact fun same => absurd same.2.2.2.1 (by decide)

/-- Plain names are told apart. -/
theorem behaviour_told_apart_iff_plain :
    (windowKey (callingTool ["f"]) = windowKey (callingTool ["g"]) ↔ SameSource (callingTool ["f"]) (callingTool ["g"])) ∧
      (fingerprint .sample (callingTool ["f"]) = fingerprint .sample (callingTool ["g"]) ↔
        SameBehaviour (callingTool ["f"]) (callingTool ["g"])) := by
  refine (behaviour_told_apart_iff (hashesApart_of_nodup (by decide))).2 ⟨fun _ => by decide, fun pieces => ?_⟩
  exact absurd pieces (by decide)

end Sample

end Texts

end AttowNexus
