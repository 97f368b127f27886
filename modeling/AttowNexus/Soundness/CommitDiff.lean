import AttowNexus.Soundness.PayloadHashes
import AttowNexus.Soundness.StateDiff

/-! # Commit diffs

`diff_commits` compares the states and the tags but only the lengths of the other lists, and it does not look at the
metadata. Of a state it sees what the payload keeps in the commit: a value, a text, or a hash and a size.
-/

namespace AttowNexus

open AppState SqliteStore

variable {deps : External} {config : Config} {before after : Commit} {given given' : Payload}

section Complete

/-- The two commits have the same content under everything that a diff is said to compare. -/
structure Agree (deps : External) (before after : Commit) : Prop where
  state : (payloadToJson deps before.stateDelta).Same (payloadToJson deps after.stateDelta)
  summary : before.summary = after.summary
  tags : before.tags = after.tags
  toolCalls : before.toolCalls = after.toolCalls
  toolResults : before.toolResults = after.toolResults
  artifactRefs : before.artifactRefs = after.artifactRefs
  externalSideEffects : before.externalSideEffects = after.externalSideEffects
  metadata : before.metadata = after.metadata

/-- Same state, summary and tags, and lists of the same lengths -/
structure AgreeByLength (deps : External) (before after : Commit) : Prop where
  state : (payloadToJson deps before.stateDelta).Same (payloadToJson deps after.stateDelta)
  summary : before.summary = after.summary
  tags : before.tags = after.tags
  toolCalls : before.toolCalls.length = after.toolCalls.length
  toolResults : before.toolResults.length = after.toolResults.length
  artifactRefs : before.artifactRefs.length = after.artifactRefs.length
  externalSideEffects : before.externalSideEffects.length = after.externalSideEffects.length

theorem lengthEntry_eq_nil_iff {α : Type} {path : String} {left right : List α} :
    lengthEntry deps path left right = [] ↔ left.length = right.length := by
  rw [lengthEntry]
  exact ite_eq_left_iff.trans (by simp)

theorem fieldEntries_eq_nil_iff : fieldEntries deps before after = [] ↔
    before.summary = after.summary ∧ before.tags = after.tags ∧
      before.toolCalls.length = after.toolCalls.length ∧ before.toolResults.length = after.toolResults.length ∧
      before.artifactRefs.length = after.artifactRefs.length ∧
      before.externalSideEffects.length = after.externalSideEffects.length := by
  have summary : ∀ {entry : DiffEntry}, (if before.summary = after.summary then [] else [entry]) = [] ↔
      before.summary = after.summary := fun {_} => ite_eq_left_iff.trans (by simp)
  have tags : ∀ {entry : DiffEntry}, (if before.tags = after.tags then [] else [entry]) = [] ↔
      before.tags = after.tags := fun {_} => ite_eq_left_iff.trans (by simp)
  simp only [fieldEntries, List.append_eq_nil_iff, lengthEntry_eq_nil_iff, summary, tags, and_assoc]

/-- What leaves no entries -/
theorem diffCommits_eq_nil_iff : (diffCommits deps before after).entries = [] ↔ AgreeByLength deps before after := by
  have state : diffValue deps "$" (payloadToJson deps before.stateDelta) (payloadToJson deps after.stateDelta) = [] ↔
      (payloadToJson deps before.stateDelta).Same (payloadToJson deps after.stateDelta) :=
    diffValue_eq_nil_iff (payloadToJson_sorted _) (payloadToJson_sorted _)
  rw [diffCommits, List.append_eq_nil_iff, state, fieldEntries_eq_nil_iff]
  constructor
  · rintro ⟨state, summary, tags, toolCalls, toolResults, artifactRefs, externalSideEffects⟩
    exact ⟨state, summary, tags, toolCalls, toolResults, artifactRefs, externalSideEffects⟩
  · rintro ⟨state, summary, tags, toolCalls, toolResults, artifactRefs, externalSideEffects⟩
    exact ⟨state, summary, tags, toolCalls, toolResults, artifactRefs, externalSideEffects⟩

/-- A diff is complete exactly when commits that agree by length do not differ in the content of a list or in the
metadata. -/
theorem diffCommits_complete_iff (deps : External) (before after : Commit) :
    ((diffCommits deps before after).entries = [] ↔ Agree deps before after) ↔
      (AgreeByLength deps before after →
        before.toolCalls = after.toolCalls ∧ before.toolResults = after.toolResults ∧
        before.artifactRefs = after.artifactRefs ∧ before.externalSideEffects = after.externalSideEffects ∧
        before.metadata = after.metadata) := by
  rw [diffCommits_eq_nil_iff]
  constructor
  · intro complete lengths
    have agree := complete.mp lengths
    exact ⟨agree.toolCalls, agree.toolResults, agree.artifactRefs, agree.externalSideEffects, agree.metadata⟩
  · intro contents
    constructor
    · intro lengths
      obtain ⟨toolCalls, toolResults, artifactRefs, externalSideEffects, metadata⟩ := contents lengths
      exact ⟨lengths.state, lengths.summary, lengths.tags, toolCalls, toolResults, artifactRefs, externalSideEffects,
        metadata⟩
    · intro agree
      exact ⟨agree.state, agree.summary, agree.tags, congrArg List.length agree.toolCalls,
        congrArg List.length agree.toolResults, congrArg List.length agree.artifactRefs,
        congrArg List.length agree.externalSideEffects⟩

/-- One tool call -/
private def calling (name : String) : Commit :=
  { (default : Commit) with toolCalls := [⟨"t", name, none, none, none⟩] }

/-- Calls of two different tools -/
theorem diffCommits_tool_calls : (diffCommits .sample (calling "read") (calling "write")).entries = [] ∧
    ¬ Agree .sample (calling "read") (calling "write") := by
  refine ⟨by decide, fun agree => ?_⟩
  have name := congrArg (List.map ToolCall.name) agree.toolCalls
  exact absurd name (by decide)

end Complete

section Visible

/-- The kind of a payload; an unknown number counts as unspecified. -/
def Payload.kind (payload : Payload) : PayloadEncoding := (PayloadEncoding.tryFrom payload.encoding).getD .unspecified

/-- Payloads of one kind whose struct, value, text or bytes differ -/
def ContentDiffers (deps : External) (left right : Payload) : Prop :=
  left.structData ≠ right.structData ∨
    match left.kind, deps.fromSlice left.data, deps.fromSlice right.data with
    | .json, some value, some value' => ¬ value.1.Same value'.1
    | _, _, _ => left.data ≠ right.data

/-- What a commit keeps of a payload: the bytes that stay in it, and the hash, the size and the reference -/
structure Kept where
  inline : Bytes
  contentHash : String
  sizeBytes : ℕ
  artifactRef : String

/-- What is kept of a given payload, from the redacted bytes -/
def keptOf (deps : External) (config : Config) (given : Payload) : Kept :=
  let bytes := redactedBytes deps config given
  let moves := config.maxInlinePayloadBytes < bytes.length
  { inline := if moves then [] else bytes
    contentHash := hashFor deps config given bytes
    sizeBytes := bytes.length
    artifactRef := if moves then artifactId deps bytes else given.artifactRef }

/-- The object that stands for data which is not there or does not parse -/
def Kept.summary (kept : Kept) : Json :=
  .ofMembers [("content_hash", .string kept.contentHash), ("size_bytes", .number (.posInt kept.sizeBytes))]

/-- What is kept of two payloads of a kind differs where the diff looks. -/
def ToldApart (deps : External) (kind : PayloadEncoding) (left right : Kept) : Prop :=
  match kind with
  | .json =>
      match deps.fromSlice left.inline, deps.fromSlice right.inline with
      | some value, some value' => ¬ value.1.Same value'.1
      | some value, none => ¬ value.1.Same right.summary
      | none, some value' => ¬ left.summary.Same value'.1
      | none, none => left.contentHash ≠ right.contentHash ∨ left.sizeBytes ≠ right.sizeBytes
  | .text => fromUtf8Lossy left.inline ≠ fromUtf8Lossy right.inline
  | _ =>
      left.contentHash ≠ right.contentHash ∨ left.sizeBytes ≠ right.sizeBytes ∨
        left.artifactRef ≠ right.artifactRef

theorem redactData_shape (payload : Payload) : (redactData deps payload).1.encoding = payload.encoding ∧
    (payload.sizeBytes = payload.data.length →
      (redactData deps payload).1.sizeBytes = (redactData deps payload).1.data.length) := by
  rcases redactData_cases deps payload with ⟨_, data, rewritten⟩ | ⟨_, kept⟩
  · rw [rewritten]
    exact ⟨rfl, fun _ => rfl⟩
  · rw [kept]
    exact ⟨rfl, id⟩

theorem redactedPayload_shape (deps : External) (config : Config) (given : Payload) :
    (redactedPayload deps config (some given)).1.encoding = given.encoding ∧
      (redactedPayload deps config (some given)).1.sizeBytes =
        (redactedPayload deps config (some given)).1.data.length := by
  rw [redactedPayload]
  cases config.redactionEnabled with
  | false => exact ⟨rfl, rfl⟩
  | true => exact ⟨(redactData_shape _).1, (redactData_shape _).2 rfl⟩

/-- A prepared payload is what is kept of the given one. -/
theorem preparedPayload_kept (deps : External) (config : Config) (given : Payload) :
    (preparedPayload deps config (some given)).1.kind = given.kind ∧
      (⟨(preparedPayload deps config (some given)).1.data, (preparedPayload deps config (some given)).1.contentHash,
        (preparedPayload deps config (some given)).1.sizeBytes,
        (preparedPayload deps config (some given)).1.artifactRef⟩ : Kept) = keptOf deps config given := by
  obtain ⟨hash, reference⟩ := redactedPayload_hash deps config given
  obtain ⟨encoding, size⟩ := redactedPayload_shape deps config given
  rw [redactedBytes] at hash
  rw [preparedPayload, keptOf, redactedBytes, Payload.kind, Payload.kind]
  generalize redactedPayload deps config (some given) = redacted at *
  obtain ⟨payload, report⟩ := redacted
  by_cases large : config.maxInlinePayloadBytes < payload.data.length
  · simp only [if_pos large, movedPayload, SqliteStore.artifactRef]
    exact ⟨by rw [encoding], by rw [hash]; rfl⟩
  · simp only [if_neg large]
    exact ⟨by rw [encoding], by rw [hash, size, reference]⟩

/-- What `payload_to_json` makes of a payload of a kind -/
def Kept.json (deps : External) (kind : PayloadEncoding) (kept : Kept) : Json :=
  match kind with
  | .json => ((deps.fromSlice kept.inline).map (·.1)).getD kept.summary
  | .text => .string (fromUtf8Lossy kept.inline)
  | _ => .ofMembers [("content_hash", .string kept.contentHash),
      ("size_bytes", .number (.posInt kept.sizeBytes)), ("artifact_ref", .string kept.artifactRef)]

theorem payloadToJson_prepared (deps : External) (config : Config) (given : Payload) :
    payloadToJson deps (some (preparedPayload deps config (some given)).1) =
      (keptOf deps config given).json deps given.kind := by
  obtain ⟨kind, kept⟩ := preparedPayload_kept deps config given
  rw [← kept, ← kind]
  rfl

theorem summary_same_iff {left right : Kept} :
    left.summary.Same right.summary ↔ left.contentHash = right.contentHash ∧ left.sizeBytes = right.sizeBytes := by
  have listed : ∀ kept : Kept, kept.summary = .object
      [("content_hash", .string kept.contentHash), ("size_bytes", .number (.posInt kept.sizeBytes))] :=
    fun kept => hashSummary_eq ⟨0, [], none, kept.sizeBytes, kept.contentHash, false, ""⟩
  rw [listed, listed]
  simp [Json.Same, Json.eq, Json.eqMembers, JsonNumber.eq]

theorem reference_same_iff {left right : Kept} : (left.json deps .bytes).Same (right.json deps .bytes) ↔
    left.contentHash = right.contentHash ∧ left.sizeBytes = right.sizeBytes ∧
      left.artifactRef = right.artifactRef := by
  have listed : ∀ kept : Kept, kept.json deps .bytes = .object [("artifact_ref", .string kept.artifactRef),
      ("content_hash", .string kept.contentHash), ("size_bytes", .number (.posInt kept.sizeBytes))] := by
    intro kept
    have first : "artifact_ref" < "content_hash" := by decide
    have later : ¬ "size_bytes" < "content_hash" := by decide
    have other : ¬ "size_bytes" = "content_hash" := by decide
    simp only [Kept.json, Json.ofMembers, JsonMap.ofMembers, List.foldl_cons, List.foldl_nil, JsonMap.insert,
      if_neg later, if_neg other, if_pos first]
  rw [listed, listed]
  simp only [Json.Same, Json.eq, Json.eqMembers, JsonNumber.eq, Bool.and_eq_true, decide_eq_true_eq]
  tauto

/-- The kept payloads are told apart exactly when their JSON differs. -/
theorem toldApart_iff {kind : PayloadEncoding} {left right : Kept} :
    ToldApart deps kind left right ↔ ¬ (left.json deps kind).Same (right.json deps kind) := by
  have others : ¬ (left.json deps .bytes).Same (right.json deps .bytes) ↔ left.contentHash ≠ right.contentHash ∨
      left.sizeBytes ≠ right.sizeBytes ∨ left.artifactRef ≠ right.artifactRef := by
    rw [reference_same_iff, not_and_or, not_and_or]
  cases kind with
  | json =>
    rw [ToldApart, Kept.json, Kept.json]
    cases deps.fromSlice left.inline with
    | none =>
      cases deps.fromSlice right.inline with
      | none => exact (not_and_or.symm.trans (not_congr summary_same_iff.symm))
      | some value' => exact Iff.rfl
    | some value => cases deps.fromSlice right.inline <;> exact Iff.rfl
  | text =>
    rw [ToldApart, Kept.json, Kept.json, Json.Same.string_iff]
    simp [eq_comm]
  | unspecified => exact others.symm
  | protobufStruct => exact others.symm
  | msgpack => exact others.symm
  | cbor => exact others.symm
  | bytes => exact others.symm

/-- An entry about the state -/
def OnState (entry : DiffEntry) : Prop := entry.path.toList.head? = some '$'

theorem onState_of_diffValue {before after : Json} (sortedL : before.Sorted) (sortedR : after.Sorted)
    {entry : DiffEntry} (member : entry ∈ diffValue deps "$" before after) : OnState entry := by
  have at_ : ∃ keys, entry.path = dotted "$" keys := by
    rcases diffValue_path sortedL sortedR member with ⟨_, rfl⟩ | ⟨key, rest, _, at_⟩
    · exact ⟨[], rfl⟩
    · exact ⟨_, at_⟩
  obtain ⟨keys, at_⟩ := at_
  rw [OnState, at_, toList_dotted]
  rfl

theorem not_onState_of_fieldEntries {entry : DiffEntry} (member : entry ∈ fieldEntries deps before after) :
    ¬ OnState entry := by
  have path : entry.path ∈
      ["summary", "tags", "tool_calls", "tool_results", "artifacts", "external_side_effects"] := by
    simp only [fieldEntries, lengthEntry, List.mem_append, List.mem_ite_nil_left, List.mem_singleton] at member
    rcases member with ((((⟨_, rfl⟩ | ⟨_, rfl⟩) | ⟨_, rfl⟩) | ⟨_, rfl⟩) | ⟨_, rfl⟩) | ⟨_, rfl⟩
    all_goals simp [diffEntry]
  have elsewhere : ∀ path ∈ ["summary", "tags", "tool_calls", "tool_results", "artifacts", "external_side_effects"],
      path.toList.head? ≠ some '$' := by decide
  exact elsewhere _ path

/-- There is an entry about the state exactly when the two states differ as JSON. -/
theorem onState_iff : (∃ entry ∈ (diffCommits deps before after).entries, OnState entry) ↔
    ¬ (payloadToJson deps before.stateDelta).Same (payloadToJson deps after.stateDelta) := by
  have sortedL : (payloadToJson deps before.stateDelta).Sorted := payloadToJson_sorted _
  have sortedR : (payloadToJson deps after.stateDelta).Sorted := payloadToJson_sorted _
  rw [← diffValue_eq_nil_iff sortedL sortedR]
  constructor
  · rintro ⟨entry, member, onState⟩ bare
    rw [diffCommits, bare, List.nil_append] at member
    exact not_onState_of_fieldEntries member onState
  · intro full
    obtain ⟨entry, member⟩ := List.exists_mem_of_ne_nil _ full
    exact ⟨entry, List.mem_append_left _ member, onState_of_diffValue sortedL sortedR member⟩

/-- A difference between the contents of two prepared payloads of one encoding shows exactly when what is kept of them
is told apart. -/
theorem state_change_visible_iff (deps : External) (config config' : Config) {before after : Commit}
    {given given' : Payload} (encoding : given.encoding = given'.encoding)
    (prepared : before.stateDelta = some (preparedPayload deps config (some given)).1)
    (prepared' : after.stateDelta = some (preparedPayload deps config' (some given')).1) :
    (ContentDiffers deps (redactedPayload deps config (some given)).1
          (redactedPayload deps config' (some given')).1 →
        ∃ entry ∈ (diffCommits deps before after).entries, OnState entry) ↔
      (ContentDiffers deps (redactedPayload deps config (some given)).1
          (redactedPayload deps config' (some given')).1 →
        ToldApart deps given.kind (keptOf deps config given) (keptOf deps config' given')) := by
  have kind : given'.kind = given.kind := by rw [Payload.kind, Payload.kind, encoding]
  rw [onState_iff, prepared, prepared', payloadToJson_prepared, payloadToJson_prepared, kind, toldApart_iff]

section Sample

private def textPayload (text : String) : Payload :=
  ⟨PayloadEncoding.text.toI32, utf8Bytes text, none, 0, "", false, ""⟩

/-- Every payload is too large to stay inline. -/
private def noneInline : Config := { Sample.config with maxInlinePayloadBytes := 0 }

/-- A commit with the text as its prepared payload -/
private def holding (config : Config) (text : String) : Commit :=
  { (default : Commit) with stateDelta := some (preparedPayload .sample config (some (textPayload text))).1 }

private theorem contentDiffers_of_data {left right : Payload} (kind : left.kind = .text)
    (other : left.data ≠ right.data) : ContentDiffers deps left right := by
  refine .inr ?_
  rw [kind]
  exact other

/-- Two texts that were moved to artifacts leave no entry. -/
theorem state_change_hidden :
    ContentDiffers .sample (redactedPayload .sample noneInline (some (textPayload "a"))).1
        (redactedPayload .sample noneInline (some (textPayload "b"))).1 ∧
      (diffCommits .sample (holding noneInline "a") (holding noneInline "b")).entries = [] :=
  ⟨contentDiffers_of_data (by decide) (by decide), by decide⟩

/-- Inline they leave one. -/
theorem state_change_visible_inline :
    ∃ entry ∈ (diffCommits .sample (holding Sample.config "a") (holding Sample.config "b")).entries,
      OnState entry := by
  have stored : ∀ text, (holding Sample.config text).stateDelta =
      some (preparedPayload .sample Sample.config (some (textPayload text))).1 := fun _ => rfl
  have other : fromUtf8Lossy (keptOf .sample Sample.config (textPayload "a")).inline ≠
      fromUtf8Lossy (keptOf .sample Sample.config (textPayload "b")).inline := by decide
  have encoding : (textPayload "a").encoding = (textPayload "b").encoding := rfl
  refine (state_change_visible_iff .sample Sample.config Sample.config encoding (stored "a") (stored "b")).mpr
    (fun _ => other) ?_
  exact contentDiffers_of_data (by decide) (by decide)

end Sample

end Visible

end AttowNexus
