import AttowNexus.Model.Replay

/-! # Diff

`ledger/diff.rs`. Two states are compared as JSON: objects member by member under dotted paths, anything else as a
whole. The lists of a commit are compared by their lengths, its tags and its summary as they are.
-/

namespace AttowNexus

structure DiffEntry where
  path : String
  changeType : String
  beforeJson : String
  afterJson : String
deriving DecidableEq, Repr, Inhabited

structure CommitDiff where
  fromCommitId : String
  toCommitId : String
  entries : List DiffEntry
  humanSummary : String
deriving DecidableEq, Repr, Inhabited

section Equality

/-- The bits of the two zeros of a double -/
def isZeroDouble (bits : UInt64) : Bool := bits.toNat % 2 ^ 63 = 0

/-- `Number::eq`; the two zeros are equal, and a number is never NaN. -/
def JsonNumber.eq : JsonNumber → JsonNumber → Bool
  | .posInt left, .posInt right => left = right
  | .negInt left, .negInt right => left = right
  | .float left, .float right => left = right || isZeroDouble left && isZeroDouble right
  | _, _ => false

mutual

/-- `Value::eq` -/
def Json.eq : Json → Json → Bool
  | .null, .null => true
  | .bool left, .bool right => left = right
  | .number left, .number right => left.eq right
  | .string left, .string right => left = right
  | .array left, .array right => Json.eqItems left right
  | .object left, .object right => Json.eqMembers left right
  | _, _ => false

def Json.eqItems : List Json → List Json → Bool
  | [], [] => true
  | left :: lefts, right :: rights => left.eq right && Json.eqItems lefts rights
  | _, _ => false

/-- Two maps are equal when they list equal members in their order. -/
def Json.eqMembers : List (String × Json) → List (String × Json) → Bool
  | [], [] => true
  | (key, left) :: lefts, (other, right) :: rights => key = other && left.eq right && Json.eqMembers lefts rights
  | _, _ => false

end

attribute [grind =] Json.eq Json.eqItems Json.eqMembers

end Equality

variable (deps : External)

/-- `serde_json::to_string`: the bytes of `to_vec` as a text -/
def External.jsonText (value : Json) : String := fromUtf8Lossy (deps.toVec value)

/-- `entry` -/
def diffEntry (path changeType : String) (before after : Json) : DiffEntry :=
  ⟨path, changeType, deps.jsonText before, deps.jsonText after⟩

/-- `format!("{path}.{key}")` -/
def childPath (path key : String) : String := path ++ "." ++ key

/-- The first loop of `diff_object`, over the keys of the earlier object -/
def removedEntries (path : String) (before after : JsonMap) : List DiffEntry :=
  before.flatMap fun (key, value) =>
    if (after.get key).isNone then [diffEntry deps (childPath path key) "removed" value .null] else []

mutual

/-- `diff_value`: the entries it pushes -/
def diffValue (path : String) : Json → Json → List DiffEntry
  | .object before, .object after => removedEntries deps path before after ++ keptEntries path before after
  | before, after => if before.eq after then [] else [diffEntry deps path "changed" before after]

/-- The second loop of `diff_object`, over the members of the later object -/
def keptEntries (path : String) (before : JsonMap) : List (String × Json) → List DiffEntry
  | [] => []
  | (key, value) :: rest =>
      (match before.get key with
        | some old => diffValue (childPath path key) old value
        | none => [diffEntry deps (childPath path key) "added" .null value]) ++ keptEntries path before rest

end

/-- The comparison of two lists by their lengths -/
def lengthEntry {α : Type} (path : String) (before after : List α) : List DiffEntry :=
  if before.length = after.length then []
  else [diffEntry deps path "changed" (.number (.posInt before.length)) (.number (.posInt after.length))]

/-- What `diff_commits` pushes for everything but the state -/
def fieldEntries (before after : Commit) : List DiffEntry :=
  (if before.summary = after.summary then []
    else [diffEntry deps "summary" "changed" (.string before.summary) (.string after.summary)]) ++
  (if before.tags = after.tags then []
    else [diffEntry deps "tags" "changed" (.array (before.tags.map .string)) (.array (after.tags.map .string))]) ++
  lengthEntry deps "tool_calls" before.toolCalls after.toolCalls ++
  lengthEntry deps "tool_results" before.toolResults after.toolResults ++
  lengthEntry deps "artifacts" before.artifactRefs after.artifactRefs ++
  lengthEntry deps "external_side_effects" before.externalSideEffects after.externalSideEffects

/-- `diff_commits` -/
def diffCommits (before after : Commit) : CommitDiff :=
  let entries := diffValue deps "$" (payloadToJson deps before.stateDelta) (payloadToJson deps after.stateDelta) ++
    fieldEntries deps before after
  { fromCommitId := before.commitId
    toCommitId := after.commitId
    entries := entries
    humanSummary :=
      if entries.isEmpty then "No captured logical state changes."
      else toString entries.length ++ " captured logical state change(s)." }

end AttowNexus
