import AttowNexus.Model.Ambient
import AttowNexus.Model.DagIndex

/-! # The loop detector

`loop_detection`: a commit is reduced to a fingerprint, and each run, agent and channel has a sliding
window of the last ones. The third equal fingerprint in a window gives a warning.
-/

namespace AttowNexus

/-- The escape of one character in the debug form of a string. -/
def debugChar (deps : External) (c : Char) : String :=
  if c.toNat = 0 then "\\0"
  else if c.toNat = 9 then "\\t"
  else if c.toNat = 10 then "\\n"
  else if c.toNat = 13 then "\\r"
  else if c.toNat = 34 then "\\\""
  else if c.toNat = 92 then "\\\\"
  else if c.toNat < 32 ∨ c.toNat = 127 ∨ (127 < c.toNat ∧ deps.escapesUnicode c = true) then
    "\\u\x7b" ++ String.ofList (Nat.toDigits 16 c.toNat) ++ "\x7d"
  else String.singleton c

/-- The `:?` form of a list of strings. -/
def debugStrings (deps : External) (texts : List String) : String :=
  "[" ++ String.intercalate ", " (texts.map fun text =>
    "\"" ++ String.join (text.toList.map (debugChar deps)) ++ "\"") ++ "]"

/-- `fingerprints::fingerprint` -/
def fingerprint (deps : External) (commit : Commit) : String :=
  let toolNames := String.intercalate "," (commit.toolCalls.map (·.name))
  let errorTypes := String.intercalate "," (commit.toolResults.filterMap fun result => result.error.map (·.code))
  let payloadHash := (commit.stateDelta.map (·.contentHash)).getD ""
  deps.blake3Hex (utf8Bytes (String.intercalate "|"
    [commit.objective, commit.summary, payloadHash, toolNames, errorTypes,
      debugStrings deps commit.parentCommitIds]))

def severityForRepetitions (repetitions : ℕ) : LoopSeverity :=
  if repetitions ≤ 2 then .low else if repetitions ≤ 4 then .medium else .high

structure FingerprintEntry where
  fingerprint : String
  commitId : String
deriving DecidableEq, Repr, Inhabited

structure LoopDetector where
  windowSize : ℕ
  windows : HashMap String (List FingerprintEntry)

namespace LoopDetector

/-- `LoopDetector::new` -/
def ofSize (windowSize : ℕ) : LoopDetector := ⟨windowSize, ∅⟩

/-- `LoopDetector::default` -/
def new : LoopDetector := ⟨12, ∅⟩

/-- The key of a commit's window. -/
def windowKey (commit : Commit) : String := commit.runId ++ "|" ++ commit.agentId ++ "|" ++ commit.channel

def window (detector : LoopDetector) (commit : Commit) : List FingerprintEntry :=
  (detector.windows.lookup (windowKey commit)).getD []

/-- Drop the oldest entry of a full window and add the new one. -/
def slide (detector : LoopDetector) (window : List FingerprintEntry) (entry : FingerprintEntry) :
    List FingerprintEntry :=
  (if window.length = detector.windowSize then window.tail else window) ++ [entry]

/-- `repetition_count` -/
def repetitionCount (window : List FingerprintEntry) (fingerprint : String) : ℕ :=
  (window.filter (·.fingerprint = fingerprint)).length + 1

/-- The latest commit of the window with another fingerprint. -/
def suggestedStableCommitId (window : List FingerprintEntry) (fingerprint : String) : String :=
  ((window.reverse.find? (·.fingerprint ≠ fingerprint)).map (·.commitId)).getD ""

/-- The warning of `inspect`, if any. -/
def warning (deps : External) (ambient : Ambient) (detector : LoopDetector) (commit : Commit) :
    Option LoopWarning :=
  let mark := fingerprint deps commit
  let window := detector.window commit
  let count := repetitionCount window mark
  if count < 3 then none
  else some {
    warningId := newId "loop" ambient.loopUuid
    runId := commit.runId
    agentId := commit.agentId
    channel := commit.channel
    severity := severityForRepetitions count
    fingerprint := mark
    repetitionCount := count
    firstSeen := some ambient.detectedAt
    lastSeen := some ambient.detectedAt
    suggestedStableCommitId := suggestedStableCommitId window mark
    message := "Repeated captured context and tool pattern detected in the sliding window." }

/-- `LoopDetector::inspect` -/
def inspect (deps : External) (ambient : Ambient) (detector : LoopDetector) (commit : Commit) :
    Option LoopWarning × LoopDetector :=
  let entry : FingerprintEntry := ⟨fingerprint deps commit, commit.commitId⟩
  (detector.warning deps ambient commit,
    { detector with windows :=
        detector.windows.insert (windowKey commit) (detector.slide (detector.window commit) entry) })

end LoopDetector

end AttowNexus
