import AttowNexus.Proofs.Accepted

/-! # Names of commits

The id of a commit is cut from the hash of its encoding without the id. Every commit that a daemon records is
named that way, so as long as neither the encoding nor the cut hash takes two of them to the same value, equal
ids mean equal commits.
-/

namespace AttowNexus

open AppState

/-- The commit as it is encoded for its name. -/
def Commit.unnamed (commit : Commit) : Commit := { commit with commitId := "" }

/-- The commit bears the name that its contents give it. -/
def Commit.Sealed (deps : External) (commit : Commit) : Prop :=
  commit.commitId = "c_" ++ deps.shortHash (deps.encodeToVec commit.unnamed)

/-- Among the given commits the encoding is injective, and so is the cut hash on the encodings. -/
structure CollisionFree (deps : External) (commits : List Commit) : Prop where
  encoding : ∀ c ∈ commits, ∀ d ∈ commits,
    deps.encodeToVec c.unnamed = deps.encodeToVec d.unnamed → c.unnamed = d.unnamed
  hash : ∀ c ∈ commits, ∀ d ∈ commits,
    deps.shortHash (deps.encodeToVec c.unnamed) = deps.shortHash (deps.encodeToVec d.unnamed) →
      deps.encodeToVec c.unnamed = deps.encodeToVec d.unnamed

section Names

variable {deps : External} {config : Config} {ambient : Ambient} {heads : List HeadRow} {commits : List Commit}
  {commit : Commit}

theorem fromDelta_sealed {delta : StateDelta} {parents : List String} {payload : Payload}
    {report : RedactionReport} {extras : CommitExtras} :
    (fromDelta deps delta parents payload report extras).Sealed deps := rfl

theorem recordedBy_sealed {call : Call} {s : AppState} (member : commit ∈ recordedBy deps config call s) :
    commit.Sealed deps := by
  obtain ⟨request, ambient⟩ := call
  cases request with
  | publishDelta request =>
    rw [recordedBy] at member
    cases given : request.delta with
    | none => simp [given] at member
    | some delta =>
      simp only [given] at member
      split at member
      · exact absurd member List.not_mem_nil
      · rw [List.mem_singleton.mp member]
        exact fromDelta_sealed
  | checkpoint request =>
    rw [List.mem_singleton.mp member]
    exact fromDelta_sealed
  | registerAgent request => exact absurd member List.not_mem_nil
  | rollback request => exact absurd member List.not_mem_nil
  | fork request => exact absurd member List.not_mem_nil

/-- Without collisions the name determines the commit. -/
theorem CollisionFree.eq_of_commitId_eq (free : CollisionFree deps commits) {c d : Commit} (left : c ∈ commits)
    (right : d ∈ commits) (sealedLeft : c.Sealed deps) (sealedRight : d.Sealed deps)
    (same : c.commitId = d.commitId) : c = d := by
  have digits : deps.shortHash (deps.encodeToVec c.unnamed) = deps.shortHash (deps.encodeToVec d.unnamed) := by
    apply (String.append_right_inj "c_").mp
    rw [← sealedLeft, ← sealedRight, same]
  have contents := free.encoding c left d right (free.hash c left d right digits)
  calc c = { c.unnamed with commitId := c.commitId } := rfl
    _ = { d.unnamed with commitId := d.commitId } := by rw [contents, same]
    _ = d := rfl

/-- Commits whose cut hashes are all different do not collide. -/
theorem collisionFree_of_nodup
    (distinct : (commits.map fun commit => deps.shortHash (deps.encodeToVec commit.unnamed)).Nodup) :
    CollisionFree deps commits where
  encoding c left d right same := by
    rw [List.inj_on_of_nodup_map distinct left right (congrArg deps.shortHash same)]
  hash c left d right same := by
    rw [List.inj_on_of_nodup_map distinct left right same]

theorem CollisionFree.mono {fewer : List Commit} (free : CollisionFree deps commits) (sub : fewer ⊆ commits) :
    CollisionFree deps fewer where
  encoding c left d right := free.encoding c (sub left) d (sub right)
  hash c left d right := free.hash c (sub left) d (sub right)

end Names

section Stored

variable {deps : External} {config : Config} {s t : AppState} {commit : Commit}

theorem Ledger.Recorded.stored_cases {ambient : Ambient} {recorded : Commit} {start finish : Ledger}
    {succeeds : Bool} (outcome : Recorded ambient recorded start succeeds finish) :
    finish.tables.stored = start.tables.stored ∨ finish.tables.stored = start.tables.stored ++ [recorded] := by
  have appended : (start.tables.appendCommit recorded).stored = start.tables.stored ∨
      (start.tables.appendCommit recorded).stored = start.tables.stored ++ [recorded] := by
    by_cases known : recorded.commitId ∈ start.tables.commits.map (·.commitId)
    · rw [CommitTables.stored, CommitTables.stored_appendCommit_of_mem known]
      exact .inl rfl
    · exact .inr (CommitTables.stored_appendCommit_of_notMem known)
  cases outcome with
  | refused => exact .inl rfl
  | unstored => exact .inl rfl
  | headless => exact appended
  | persisted => exact appended

/-- A call keeps the stored commits or adds the commit it recorded. -/
theorem Step.stored_cases {event : Event} (step : Step deps config s event t) :
    t.store.tables.stored = s.store.tables.stored ∨
      ∃ commit, recordedBy deps config event.call s = [commit] ∧
        t.store.tables.stored = s.store.tables.stored ++ [commit] := by
  have same : t.ledger = s.ledger → t.store.tables.stored = s.store.tables.stored :=
    fun same => congrArg (fun ledger => ledger.tables.stored) same
  obtain ⟨⟨request, ambient⟩, outcome⟩ := event
  cases request with
  | registerAgent request => exact .inl (same (step_registerAgent step))
  | publishDelta request =>
    obtain ⟨r, run, _⟩ := step_publishDelta step
    rcases publishDeltaInner_cases run with ⟨_, _, kept⟩ | ⟨_, _, _, _, kept⟩ | ⟨delta, admits, persists, recorded, _⟩
    · exact .inl (same kept)
    · exact .inl (same kept)
    · refine recorded.stored_cases.imp_right fun more => ⟨_, ?_, more⟩
      simp only [recordedBy, admits.given, if_neg fun away => not_persists_iff.1 away persists]
  | checkpoint request =>
    obtain ⟨r, run, _⟩ := step_checkpoint step
    rcases checkpointInner_cases run with ⟨_, _, kept⟩ | ⟨_, recorded, _⟩
    · exact .inl (same kept)
    · exact recorded.stored_cases.imp_right fun more => ⟨_, rfl, more⟩
  | rollback request =>
    obtain ⟨r, run, _⟩ := step_rollback step
    have outcome := rollbackInner_rolledBack run
    change t.ledger.tables.stored = _ ∨ _
    generalize t.ledger = finish at outcome
    cases outcome <;> exact .inl rfl
  | fork request =>
    obtain ⟨r, run, _⟩ := step_fork step
    have outcome := forkInner_forked run
    change t.ledger.tables.stored = _ ∨ _
    generalize t.ledger = finish at outcome
    cases outcome <;> exact .inl rfl

/-- What a call leaves in the tables was there or is the commit it recorded. -/
theorem Step.mem_stored {event : Event} (step : Step deps config s event t)
    (member : commit ∈ t.store.tables.stored) :
    commit ∈ s.store.tables.stored ∨ commit ∈ recordedBy deps config event.call s := by
  rcases step.stored_cases with same | ⟨recorded, only, more⟩
  · exact .inl (same ▸ member)
  · rw [more] at member
    rw [only]
    exact List.mem_append.mp member

theorem Reachable.sealed (reachable : Reachable deps config s) (member : commit ∈ s.store.tables.stored) :
    commit.Sealed deps := by
  obtain ⟨events, history⟩ := reachable
  refine history.invariant (I := fun state => ∀ commit ∈ state.store.tables.stored, commit.Sealed deps)
    (fun _ absent => absurd absent List.not_mem_nil) ?_ commit member
  intro s event t before step commit member
  rcases step.mem_stored member with old | new
  · exact before commit old
  · exact recordedBy_sealed new

theorem Accepted.sealed {allowed : Request → Prop} {commits : List Commit}
    (accepted : Accepted deps config allowed commits s) (member : commit ∈ commits) : commit.Sealed deps := by
  induction accepted with
  | start => exact absurd member List.not_mem_nil
  | call _ _ _ _ ih =>
    rcases List.mem_append.mp member with old | new
    · exact ih old
    · exact recordedBy_sealed new

end Stored

end AttowNexus
