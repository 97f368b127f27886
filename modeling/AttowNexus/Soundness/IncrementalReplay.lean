import AttowNexus.Proofs.Intact
import AttowNexus.Proofs.Naming
import AttowNexus.Proofs.Payload

/-! # A replay adds one commit to the replay of its parent

Checkpoints have clock 0, so with a wall clock that never goes back the stored commits arrive in the order in
which a replay sorts them. The ancestry of a commit with one parent is that of the parent and then the commit;
the stable sort leaves the commit at the end and the rest as it was, and the last merge is that of its payload.
-/

namespace AttowNexus

open SuccGraph AppState

section Timing

variable (deps : External) (config : Config)

/-- A JSON payload that stays inline once it is redacted, and whose redacted form reads back. -/
structure InlineJson (payload : Payload) (value : JsonValue) : Prop where
  encoded : payload.encoding = PayloadEncoding.json.toI32
  parsed : deps.fromSlice payload.data = some value
  prints : deps.Prints (redactedValue deps config value)
  small : (afterRedaction deps config payload).data.length ≤ config.maxInlinePayloadBytes

/-- The call makes no commit, unless it is a checkpoint with an inline JSON payload. -/
def Call.InlineCheckpoint (call : Call) : Prop :=
  match call.request with
  | .publishDelta request => ∀ delta, request.delta = some delta → ¬ Persists config delta
  | .checkpoint request => ∃ value, InlineJson deps config (request.payload.getD (emptyJsonPayload deps)) value
  | _ => True

/-- The commit of a checkpoint with an inline JSON payload. -/
structure InlineCommit (commit : Commit) (payload : Payload) (value : JsonValue) : Prop where
  clock : commit.logicalClock = 0
  delta : commit.stateDelta = some (storedPayload deps config payload)
  inline : InlineJson deps config payload value

/-- The stored commits are inline checkpoints of the events, in the order of their seconds. -/
structure Timed (events : List Event) (s : AppState) : Prop where
  inline : ∀ commit ∈ s.store.tables.stored, ∃ payload value, InlineCommit deps config commit payload value
  past : ∀ commit ∈ s.store.tables.stored, ∃ event ∈ events, commit.wallSeconds = event.call.ambient.now.seconds
  ordered : s.store.tables.stored.Pairwise fun a b => a.wallSeconds ≤ b.wallSeconds

end Timing

variable {deps : External} {config : Config} {s t : AppState} {tables : CommitTables} {commit : Commit}

theorem recordedBy_inline {call : Call} (inline : call.InlineCheckpoint deps config)
    (only : recordedBy deps config call s = [commit]) :
    (∃ payload value, InlineCommit deps config commit payload value) ∧
      commit.wallSeconds = call.ambient.now.seconds := by
  obtain ⟨request, ambient⟩ := call
  cases request with
  | publishDelta request =>
    simp only [recordedBy] at only
    split at only
    · next delta given =>
      rw [if_pos (not_persists_iff.2 (inline delta given))] at only
      cases only
    · cases only
  | checkpoint request =>
    obtain ⟨value, json⟩ := inline
    obtain rfl := List.singleton_inj.mp only
    exact ⟨⟨_, value, rfl, stateDelta_checkpointCommit, json⟩, rfl⟩
  | registerAgent request => cases only
  | rollback request => cases only
  | fork request => cases only

/-- A call in a second that no earlier call is after keeps the order. -/
theorem Step.timed {events : List Event} {event : Event} (step : Step deps config s event t)
    (inline : event.call.InlineCheckpoint deps config) (timed : Timed deps config events s)
    (clock : ∀ earlier ∈ events, earlier.call.ambient.now.seconds ≤ event.call.ambient.now.seconds) :
    Timed deps config (events ++ [event]) t := by
  have past : ∀ commit ∈ s.store.tables.stored, ∃ earlier ∈ events ++ [event],
      commit.wallSeconds = earlier.call.ambient.now.seconds := by
    intro commit member
    obtain ⟨earlier, listed, same⟩ := timed.past commit member
    exact ⟨earlier, List.mem_append_left _ listed, same⟩
  rcases step.stored_cases with same | ⟨commit, only, more⟩
  · exact ⟨same ▸ timed.inline, same ▸ past, same ▸ timed.ordered⟩
  · obtain ⟨new, second⟩ := recordedBy_inline inline only
    refine ⟨?_, ?_, ?_⟩
    · rw [more]
      exact List.forall_mem_append.mpr ⟨timed.inline, List.forall_mem_singleton.mpr new⟩
    · rw [more]
      exact List.forall_mem_append.mpr ⟨past, List.forall_mem_singleton.mpr ⟨event, by simp, second⟩⟩
    · rw [more]
      refine List.pairwise_append.mpr ⟨timed.ordered, List.pairwise_singleton _ _, fun old inside last member => ?_⟩
      obtain ⟨earlier, listed, same⟩ := timed.past old inside
      rw [List.mem_singleton.mp member, second, same]
      exact clock earlier listed

theorem History.timed {events : List Event} (history : History deps config events s)
    (inline : ∀ event ∈ events, event.call.InlineCheckpoint deps config)
    (clock : events.Pairwise fun a b => a.call.ambient.now.seconds ≤ b.call.ambient.now.seconds) :
    Timed deps config events s := by
  induction history with
  | nil =>
    exact ⟨fun _ member => absurd member List.not_mem_nil, fun _ member => absurd member List.not_mem_nil,
      List.Pairwise.nil⟩
  | snoc _ step ih =>
    obtain ⟨inlineBefore, inlineLast⟩ := List.forall_mem_append.mp inline
    obtain ⟨clockBefore, _, clockLast⟩ := List.pairwise_append.mp clock
    refine step.timed (inlineLast _ (List.mem_singleton_self _)) (ih inlineBefore clockBefore) ?_
    exact fun earlier listed => clockLast earlier listed _ (List.mem_singleton_self _)

/-- A stored commit stands at the position of its id. -/
theorem CommitTables.Keyed.getElem_idxOf (keyed : tables.Keyed) (member : commit ∈ tables.stored) :
    ∃ inside : (tables.stored.map (·.commitId)).idxOf commit.commitId < tables.stored.length,
      tables.stored[(tables.stored.map (·.commitId)).idxOf commit.commitId] = commit := by
  have inside := List.idxOf_lt_length_of_mem (List.mem_map_of_mem (f := (·.commitId)) member)
  have named := List.getElem_idxOf inside
  rw [List.getElem_map] at named
  rw [List.length_map] at inside
  exact ⟨inside, List.inj_on_of_nodup_map keyed.stored_nodup (List.getElem_mem inside) member named⟩

/-- What a commit reaches was stored before it, and so not in a later second. -/
theorem Timed.seconds_le {events : List Event} (timed : Timed deps config events s) (keyed : s.store.tables.Keyed)
    (causal : s.store.tables.Causal) (member : commit ∈ s.store.tables.stored) {parent : String}
    (edge : parent ∈ commit.parentCommitIds) {ancestor : Commit} (above : ancestor ∈ s.store.tables.stored)
    (path : Reach s.store.tables.parentsOf parent ancestor.commitId) :
    ancestor.wallSeconds ≤ commit.wallSeconds := by
  have earlier := causal.idxOf_lt keyed.stored_nodup member edge
  have further := causal.idxOf_le_of_reach keyed path
  obtain ⟨insideAncestor, atAncestor⟩ := keyed.getElem_idxOf above
  obtain ⟨insideCommit, atCommit⟩ := keyed.getElem_idxOf member
  have ordered := List.pairwise_iff_getElem.mp timed.ordered _ _ insideAncestor insideCommit (by omega)
  rwa [atAncestor, atCommit] at ordered

section Sample

private def noValue : JsonValue := ⟨.object [], Json.sorted_empty⟩

private theorem count_sorted : (Json.object [("a", .number (.posInt 1))]).Sorted :=
  ⟨List.pairwise_singleton _ _, trivial, trivial⟩

/-- The object whose only member is a number. -/
private def countValue : JsonValue := ⟨.object [("a", .number (.posInt 1))], count_sorted⟩

private def countPayload : Payload :=
  ⟨PayloadEncoding.json.toI32, utf8Bytes (Sample.render countValue.1), none, 0, "", false, ""⟩

private theorem prints_empty : External.sample.Prints noValue :=
  Sample.knowing_prints [] [countValue] rfl

private theorem prints_count : External.sample.Prints countValue :=
  Sample.knowing_prints [noValue] [] (by decide)

private theorem redacted_empty : redactedValue .sample Sample.config noValue = noValue :=
  Subtype.ext (by simp [redactedValue, Sample.config, noValue, redactJson, redactJsonObject])

private theorem redacted_count : redactedValue .sample Sample.config countValue = countValue := by
  have harmless : secretKeyName "a" = false := by decide
  exact Subtype.ext (by simp [redactedValue, Sample.config, countValue, redactJson, redactJsonObject, harmless])

/-- An empty checkpoint and one with a number on top of it. -/
private def countingCalls : List Call :=
  [Sample.checkpoint "r" 1,
   ⟨.checkpoint { Sample.checkpointRequest "r" [] [] with payload := some countPayload }, .calm ⟨2, 0⟩ 2⟩]

private def counted : AppState := runCalls .sample Sample.config countingCalls

private theorem inline_counting : ∀ call ∈ countingCalls, call.InlineCheckpoint .sample Sample.config := by
  intro call member
  rcases List.mem_cons.mp member with rfl | member
  · refine ⟨noValue, rfl, prints_empty, redacted_empty ▸ prints_empty, ?_⟩
    decide
  · rw [List.mem_singleton.mp member]
    refine ⟨countValue, rfl, prints_count, redacted_count ▸ prints_count, ?_⟩
    decide

end Sample

end AttowNexus
