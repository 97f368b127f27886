import AttowNexus.Model.Race
import AttowNexus.Proofs.LoopDetector
import AttowNexus.Proofs.Naming

/-! # The snapshot and the head

Once all publishes have finished, the head names the commit that was persisted last, and the snapshot of the
channel shows the delta that was announced last. Nothing makes these two the same request: the second of two
publishes can persist and announce its delta before the first one gets to announce its own.
-/

namespace AttowNexus

open Fallible AppState

section Channels

variable {delta : StateDelta} {channels : HashMap String ChannelState}

theorem channelSnapshot_updateChannel_self :
    (channelSnapshot (updateChannel delta channels) delta.channel).latestPayload = delta.payload := by
  rw [channelSnapshot, updateChannel, Finmap.lookup_insert]
  rfl

theorem snapshot_of_bus_eq {s t : AppState} (same : t.bus = s.bus) (channel : String) :
    t.snapshot channel = s.snapshot channel := by
  rw [snapshot, same, snapshot]

theorem liveChannels_append_broadcast {calls : List BusCall} {commitId : String} :
    liveChannels (calls ++ [.broadcast delta commitId]) = updateChannel delta (liveChannels calls) := by
  rw [liveChannels, List.foldl_append]
  rfl

end Channels

namespace LiveRace

variable {deps : External} {config : Config} {lineage : Lineage} {race race' : LiveRace} {turn : LiveTurn}

/-- What a plan of the lineage says in its delta and in its commit. -/
structure Planned (deps : External) (lineage : Lineage) (plan : Plan) : Prop where
  channel : plan.delta.channel = lineage.channel
  lineage : plan.commit.lineage = lineage
  payload : plan.commit.stateDelta = plan.delta.payload
  named : plan.commit.Sealed deps
  length : plan.commit.commitId.length = 34

theorem planned_of_planPublish {ambient : Ambient} {request : PublishDeltaRequest} {s t : AppState} {plan : Plan}
    (run : planPublish deps config ambient request s = (.ok (.durable plan), t))
    (here : plan.commit.lineage = lineage) : Planned deps lineage plan := by
  obtain ⟨delta, _, same⟩ := planPublish_eq_ok_iff.1 ⟨t, run⟩
  rw [publishPlan] at same
  split at same
  · cases same
  · obtain rfl := PublishPlan.durable.inj same
    exact ⟨congrArg Lineage.channel here, here, rfl, fromDelta_sealed, length_publishCommit_commitId⟩

/-- What holds of the ledger and the channels while requests are on their way. -/
structure Consistent (deps : External) (lineage : Lineage) (race : LiveRace) : Prop where
  sound : race.state.ledger.Sound
  named : ∀ commit ∈ race.state.store.tables.stored, commit.Sealed deps
  waiting : ∀ plan ∈ race.planned, Planned deps lineage plan
  persisted : ∀ plan ∈ race.made, Planned deps lineage plan
  pending : (race.announced ++ race.persisted).Perm race.made
  head : ∀ plan ∈ race.made.getLast?, headOf race.state.store.heads lineage = some plan.commit.commitId
  stored : ∀ plan ∈ race.made, ∃ commit, race.state.store.tables.getCommit plan.commit.commitId = some commit
  live : ∀ plan ∈ race.announced.getLast?,
    (race.state.snapshot lineage.channel).latestPayload = plan.delta.payload

theorem consistent_start {s : AppState} (reachable : Reachable deps config s) :
    Consistent deps lineage (start s) where
  sound := reachable.sound
  named _ member := reachable.sealed member
  waiting _ absent := absurd absent List.not_mem_nil
  persisted _ absent := absurd absent List.not_mem_nil
  pending := .nil
  head _ absent := absurd absent (Option.not_mem_none _)
  stored _ absent := absurd absent List.not_mem_nil
  live _ absent := absurd absent (Option.not_mem_none _)

/-- Planning touches neither the ledger nor the bus. -/
theorem Consistent.resolve (consistent : race.Consistent deps lineage) {t : AppState}
    (same : t.ledger = race.state.ledger) (watch : SameWatch race.state t) {planned : List Plan}
    (waiting : ∀ plan ∈ planned, Planned deps lineage plan) :
    Consistent deps lineage ⟨t, planned, race.persisted, race.made, race.announced⟩ where
  sound := same ▸ consistent.sound
  named commit member := consistent.named commit (congrArg (·.tables.stored) same ▸ member)
  waiting := waiting
  persisted := consistent.persisted
  pending := consistent.pending
  head plan last := (congrArg (fun ledger => headOf ledger.heads lineage) same).trans (consistent.head plan last)
  stored plan member := by
    obtain ⟨commit, found⟩ := consistent.stored plan member
    exact ⟨commit, (congrArg (fun ledger => ledger.tables.getCommit plan.commit.commitId) same).trans found⟩
  live plan last := by
    rw [snapshot_of_bus_eq watch.2]
    exact consistent.live plan last

theorem Consistent.broadcast (consistent : race.Consistent deps lineage) {plan : Plan} {before after : List Plan}
    {t : AppState} (waits : race.persisted = before ++ plan :: after)
    (run : AppState.broadcast plan.delta plan.commit.commitId race.state = (.ok (), t)) :
    Consistent deps lineage ⟨t, race.planned, before ++ after, race.made, race.announced ++ [plan]⟩ := by
  obtain ⟨_, rfl⟩ := modify_eq_iff.1 run
  have made : (race.announced ++ [plan] ++ (before ++ after)).Perm race.made := by
    refine List.Perm.trans ?_ consistent.pending
    rw [waits, List.append_assoc, List.singleton_append]
    exact List.perm_middle.symm.append_left _
  have fits : Planned deps lineage plan := consistent.persisted plan (made.subset (by simp))
  refine ⟨consistent.sound, consistent.named, consistent.waiting, consistent.persisted, made, consistent.head,
    consistent.stored, ?_⟩
  intro last is
  rw [List.getLast?_concat] at is
  obtain rfl := Option.some.inj is
  rw [← fits.channel, AppState.snapshot, liveChannels_append_broadcast]
  exact channelSnapshot_updateChannel_self

section Persist

variable {ambient : Ambient} {plan : Plan} {before after : List Plan} {t : AppState}

theorem waiting_of_waits (consistent : race.Consistent deps lineage) (waits : race.planned = before ++ plan :: after) :
    ∀ other ∈ before ++ after, Planned deps lineage other := by
  intro other member
  apply consistent.waiting
  rw [waits]
  rcases List.mem_append.mp member with early | late
  · exact List.mem_append_left _ early
  · exact List.mem_append_right _ (List.mem_cons_of_mem _ late)

/-- Recording the commit of a plan, up to whichever write, keeps what was stored. -/
private theorem stored_of_recorded (consistent : race.Consistent deps lineage) (fits : Planned deps lineage plan)
    {succeeds : Bool} (recorded : Ledger.Recorded ambient plan.commit race.state.ledger succeeds t.ledger) :
    t.ledger.Sound ∧ (∀ commit ∈ t.store.tables.stored, commit.Sealed deps) ∧
      ∀ commitId commit, race.state.store.tables.getCommit commitId = some commit →
        t.store.tables.getCommit commitId = some commit := by
  have writes := recorded.writes fits.length
  refine ⟨writes.sound consistent.sound, fun commit member => ?_, fun _ _ found => writes.keeps_commit found⟩
  rcases recorded.stored_cases with same | more
  · exact consistent.named commit (same ▸ member)
  · rcases List.mem_append.mp (more ▸ member : commit ∈ race.state.store.tables.stored ++ [plan.commit]) with old | new
    · exact consistent.named commit old
    · exact List.mem_singleton.mp new ▸ fits.named

theorem Consistent.persist (consistent : race.Consistent deps lineage)
    (waits : race.planned = before ++ plan :: after)
    (run : persistCommit ambient plan.commit race.state = (.ok (), t)) :
    Consistent deps lineage ⟨t, before ++ after, race.persisted ++ [plan], race.made ++ [plan], race.announced⟩ := by
  have fits : Planned deps lineage plan := consistent.waiting plan (by simp [waits])
  obtain ⟨recorded, finish⟩ := persistCommit_recorded run
  obtain ⟨sound, named, keeps⟩ := stored_of_recorded consistent fits recorded
  have finish := finish rfl
  have heads : t.store.heads = moveHead plan.commit.lineage plan.commit.commitId race.state.store.heads :=
    congrArg Ledger.heads finish
  have tables : t.store.tables = race.state.store.tables.appendCommit plan.commit := congrArg Ledger.tables finish
  refine ⟨sound, named, waiting_of_waits consistent waits, ?_, ?_, ?_, ?_, ?_⟩
  · intro other member
    rcases List.mem_append.mp member with old | new
    · exact consistent.persisted other old
    · exact List.mem_singleton.mp new ▸ fits
  · rw [← List.append_assoc]
    exact consistent.pending.append_right _
  · intro last is
    rw [List.getLast?_concat] at is
    obtain rfl := Option.some.inj is
    rw [heads, headOf_moveHead, if_pos (by rw [fits.lineage])]
  · intro other member
    rcases List.mem_append.mp member with old | new
    · obtain ⟨commit, found⟩ := consistent.stored other old
      exact ⟨commit, keeps _ _ found⟩
    · obtain rfl := List.mem_singleton.mp new
      rw [tables]
      exact CommitTables.getCommit_appendCommit_self _ _
  · intro last is
    rw [snapshot_of_bus_eq (SameWatch.of_run (persistCommit_keepsWatch _) run).2]
    exact consistent.live last is

/-- A persist that fails has not moved the head. -/
theorem heads_of_persistCommit_error {commit : Commit} {s : AppState} {error : Error}
    (run : persistCommit ambient commit s = (.error error, t)) : t.store.heads = s.store.heads := by
  simp only [persistCommit, bind_eq_error_iff, onStore_eq_iff] at run
  rcases run with refused | ⟨_, indexed, accepted, rest⟩
  · rcases appendToDag_cases refused with ⟨_, _, rfl⟩ | ⟨_, _, rfl⟩
    · rfl
    · rfl
  · have early : indexed.store.heads = s.store.heads := by
      rcases appendToDag_cases accepted with ⟨_, _, rfl⟩ | ⟨_, _, rfl⟩
      · rfl
      · rfl
    rcases rest with ⟨m, unstored, rfl⟩ | ⟨_, _, ⟨m, stored, rfl⟩, n, unmoved, rfl⟩
    · rcases SqliteStore.appendCommit_cases unstored with ⟨_, _, rfl⟩ | ⟨_, wrong, _⟩
      · exact early
      · cases wrong
    · rcases SqliteStore.appendCommit_cases stored with ⟨_, wrong, _⟩ | ⟨_, _, rfl⟩
      · cases wrong
      · rcases SqliteStore.setHead_cases unmoved with ⟨_, _, rfl⟩ | ⟨_, wrong, _⟩
        · exact early
        · cases wrong

/-- A request that cannot persist moves no head and is gone. -/
theorem Consistent.lose (consistent : race.Consistent deps lineage) (waits : race.planned = before ++ plan :: after)
    {error : Error} (run : persistCommit ambient plan.commit race.state = (.error error, t)) :
    Consistent deps lineage ⟨t, before ++ after, race.persisted, race.made, race.announced⟩ := by
  have fits : Planned deps lineage plan := consistent.waiting plan (by simp [waits])
  obtain ⟨recorded, _⟩ := persistCommit_recorded run
  obtain ⟨sound, named, keeps⟩ := stored_of_recorded consistent fits recorded
  refine ⟨sound, named, waiting_of_waits consistent waits, consistent.persisted, consistent.pending, ?_, ?_, ?_⟩
  · intro last is
    rw [heads_of_persistCommit_error run]
    exact consistent.head last is
  · intro other member
    obtain ⟨commit, found⟩ := consistent.stored other member
    exact ⟨commit, keeps _ _ found⟩
  · intro last is
    rw [snapshot_of_bus_eq (SameWatch.of_run (persistCommit_keepsWatch _) run).2]
    exact consistent.live last is

end Persist

theorem Step.consistent (step : Step deps config lineage race turn race') (consistent : race.Consistent deps lineage) :
    race'.Consistent deps lineage := by
  cases step with
  | resolve run durable here =>
    have planned := planned_of_planPublish run here
    refine consistent.resolve (SameLedger.of_run (planPublish_keeps _) run)
      (SameWatch.of_run (planPublish_keepsWatch _) run) fun plan member => ?_
    rcases List.mem_append.mp member with old | new
    · exact consistent.waiting plan old
    · exact List.mem_singleton.mp new ▸ planned
  | reject run =>
    exact consistent.resolve (SameLedger.of_run (planPublish_keeps _) run)
      (SameWatch.of_run (planPublish_keepsWatch _) run) consistent.waiting
  | persist waits run => exact consistent.persist waits run
  | lose waits run => exact consistent.lose waits run
  | broadcast waits run => exact consistent.broadcast waits run

/-- The commit that the head names, once something was persisted -/
theorem Consistent.headCommit (consistent : race.Consistent deps lineage)
    (free : CollisionFree deps (race.state.store.tables.stored ++ race.made.map (·.commit))) {plan : Plan}
    (last : plan ∈ race.made.getLast?) :
    headOf race.state.store.heads lineage = some plan.commit.commitId ∧
      race.state.store.tables.getCommit plan.commit.commitId = some plan.commit := by
  have made : plan ∈ race.made := List.mem_of_getLast? last
  obtain ⟨commit, found⟩ := consistent.stored plan made
  obtain ⟨member, same⟩ := consistent.sound.keyed.getCommit_eq_some_iff.mp found
  have equal : commit = plan.commit := free.eq_of_commitId_eq (List.mem_append_left _ member)
    (List.mem_append_right _ (List.mem_map_of_mem made)) (consistent.named commit member)
    (consistent.persisted plan made).named same
  exact ⟨consistent.head plan last, equal ▸ found⟩

/-- Once every request has finished, the head names the commit persisted last and the snapshot shows the payload of the
delta announced last. -/
theorem ends_of_done {s : AppState} {turns : List LiveTurn} (reachable : Reachable deps config s)
    (run : Run (Step deps config lineage) (start s) turns race) (done : race.Done) (persists : race.made ≠ [])
    (free : CollisionFree deps (race.state.store.tables.stored ++ race.made.map (·.commit))) :
    ∃ persisted announced, race.made.getLast? = some persisted ∧ race.announced.getLast? = some announced ∧
      headOf race.state.store.heads lineage = some persisted.commit.commitId ∧
      race.state.store.tables.getCommit persisted.commit.commitId = some persisted.commit ∧
      (race.state.snapshot lineage.channel).latestPayload = announced.commit.stateDelta := by
  have consistent : race.Consistent deps lineage := run.invariant (I := Consistent deps lineage)
    (consistent_start reachable) fun _ _ _ consistent step => step.consistent consistent
  have all : race.announced.Perm race.made := by
    simpa [done.2] using consistent.pending
  have announces : race.announced ≠ [] := by
    intro none
    rw [none] at all
    exact persists (List.nil_perm.mp all)
  have last := List.getLast?_eq_some_getLast persists
  have final := List.getLast?_eq_some_getLast announces
  have fits := consistent.persisted (race.announced.getLast announces) (all.subset (List.getLast_mem announces))
  obtain ⟨head, found⟩ := consistent.headCommit free last
  exact ⟨_, _, last, final, head, found, (consistent.live _ final).trans fits.payload.symm⟩

/-- Once every request has finished, the snapshot agrees with the head exactly when the delta announced last has
the payload of the commit persisted last. -/
theorem agrees_iff_of_done {s : AppState} {turns : List LiveTurn} (reachable : Reachable deps config s)
    (run : Run (Step deps config lineage) (start s) turns race) (done : race.Done) (persists : race.made ≠ [])
    (free : CollisionFree deps (race.state.store.tables.stored ++ race.made.map (·.commit))) :
    race.Agrees lineage ↔ ∃ persisted announced, race.made.getLast? = some persisted ∧
      race.announced.getLast? = some announced ∧ announced.commit.stateDelta = persisted.commit.stateDelta := by
  obtain ⟨persisted, announced, last, final, head, found, live⟩ := ends_of_done reachable run done persists free
  constructor
  · rintro ⟨commitId, commit, named, read, same⟩
    obtain rfl := Option.some.inj (head.symm.trans named)
    obtain rfl := Option.some.inj (found.symm.trans read)
    exact ⟨persisted, announced, last, final, live.symm.trans same⟩
  · rintro ⟨_, _, last', final', same⟩
    obtain rfl := Option.some.inj (last.symm.trans last')
    obtain rfl := Option.some.inj (final.symm.trans final')
    exact ⟨_, _, head, found, live.trans same⟩

section Sample

private def unredacted : Config := { Sample.config with redactionEnabled := false }

/-- A durable publish of one byte, in the second that the byte says. -/
private def byteRequest (byte : UInt8) : PublishDeltaRequest :=
  { Sample.publishRequest "r" 1 byte.toNat [] with
    delta := some
      { ((Sample.publishRequest "r" 1 byte.toNat []).delta.getD default) with
        payload := some ⟨PayloadEncoding.bytes.toI32, [byte], none, 0, "", false, ""⟩ } }

private def noon : Ambient := .calm ⟨1, 0⟩ 1

/-- The plan of a byte on a lineage without a head. -/
private def bytePlan (byte : UInt8) : Plan :=
  let delta := (byteRequest byte).delta.getD default
  ⟨publishDelta .sample unredacted noon delta,
    (preparedPayload .sample unredacted (normalizeDelta .sample noon delta).payload).2.1,
    publishCommit .sample unredacted noon [] (byteRequest byte) delta⟩

private theorem plans_byte (s : AppState) (bare : s.store.heads = []) (byte : UInt8) :
    ∃ t, planPublish .sample unredacted noon (byteRequest byte) s = (.ok (.durable (bytePlan byte)), t) ∧
      t.ledger = s.ledger := by
  have admits : AdmitsPublish .sample unredacted noon s (byteRequest byte) ((byteRequest byte).delta.getD default) := by
    refine ⟨rfl, .inl rfl, fun large => ?_, fun _ _ => rfl⟩
    have small : 65536 < 1 := large
    omega
  obtain ⟨t, run⟩ := planPublish_eq_ok_iff.2 ⟨_, admits, rfl⟩
  rw [bare] at run
  exact ⟨t, run, SameLedger.of_run (planPublish_keeps _) run⟩

private theorem persists_byte (s : AppState) (byte : UInt8) :
    ∃ t, persistCommit noon (bytePlan byte).commit s = (.ok (), t) ∧
      t.ledger = s.ledger.persist (bytePlan byte).commit :=
  persistCommit_root length_publishCommit_commitId rfl rfl rfl

private theorem broadcast_byte (s : AppState) (byte : UInt8) :
    ∃ t, AppState.broadcast (bytePlan byte).delta (bytePlan byte).commit.commitId s = (.ok (), t) ∧
      t.ledger = s.ledger := ⟨_, modify_eq_iff.2 ⟨rfl, rfl⟩, rfl⟩

/-- The next request to persist. -/
private theorem made_byte {s t : AppState} {rest persisted made announced : List Plan} {byte : UInt8}
    (run : persistCommit noon (bytePlan byte).commit s = (.ok (), t)) :
    Step .sample unredacted (Sample.lineage "r") ⟨s, bytePlan byte :: rest, persisted, made, announced⟩
      (.persist noon (bytePlan byte)) ⟨t, rest, persisted ++ [bytePlan byte], made ++ [bytePlan byte], announced⟩ :=
  @Step.persist .sample unredacted (Sample.lineage "r") ⟨s, bytePlan byte :: rest, persisted, made, announced⟩ noon
    (bytePlan byte) [] rest t rfl run

private theorem announced_byte {s t : AppState} (before after : List Plan) {made announced : List Plan} {byte : UInt8}
    (run : AppState.broadcast (bytePlan byte).delta (bytePlan byte).commit.commitId s = (.ok (), t)) :
    Step .sample unredacted (Sample.lineage "r") ⟨s, [], before ++ bytePlan byte :: after, made, announced⟩
      (.broadcast (bytePlan byte)) ⟨t, [], before ++ after, made, announced ++ [bytePlan byte]⟩ := .broadcast rfl run

/-- The two commits have different names. -/
private theorem bytes_free : CollisionFree .sample [(bytePlan 1).commit, (bytePlan 2).commit] :=
  collisionFree_of_nodup (by decide)

/-- Two requests plan and persist in turn. -/
private theorem bytes_persisted : ∃ s, Run (Step .sample unredacted (Sample.lineage "r")) (start .initial)
      [.resolve (byteRequest 1) noon, .resolve (byteRequest 2) noon, .persist noon (bytePlan 1), .persist noon (bytePlan 2)]
      ⟨s, [], [bytePlan 1, bytePlan 2], [bytePlan 1, bytePlan 2], []⟩ ∧
    s.store.tables.stored = [(bytePlan 1).commit, (bytePlan 2).commit] := by
  obtain ⟨s₁, planned₁, same₁⟩ := plans_byte .initial rfl 1
  obtain ⟨s₂, planned₂, same₂⟩ := plans_byte s₁ (congrArg Ledger.heads same₁) 2
  obtain ⟨s₃, persisted₁, kept₁⟩ := persists_byte s₂ 1
  obtain ⟨s₄, persisted₂, kept₂⟩ := persists_byte s₃ 2
  have first : Step .sample unredacted (Sample.lineage "r") (start .initial) (.resolve (byteRequest 1) noon)
      ⟨s₁, [bytePlan 1], [], [], []⟩ := .resolve planned₁ rfl rfl
  have second : Step .sample unredacted (Sample.lineage "r") ⟨s₁, [bytePlan 1], [], [], []⟩
      (.resolve (byteRequest 2) noon) ⟨s₂, [bytePlan 1, bytePlan 2], [], [], []⟩ := .resolve planned₂ rfl rfl
  have ledger : s₄.ledger = (Ledger.empty.persist (bytePlan 1).commit).persist (bytePlan 2).commit := by
    rw [kept₂, kept₁, same₂, same₁]
    rfl
  have apart : (bytePlan 2).commit.commitId ∉
      (CommitTables.empty.appendCommit (bytePlan 1).commit).commits.map (·.commitId) := by decide
  refine ⟨s₄, .snoc (.snoc (.snoc (.single first) second) (made_byte persisted₁)) (made_byte persisted₂), ?_⟩
  calc s₄.store.tables.stored
      = ((CommitTables.empty.appendCommit (bytePlan 1).commit).appendCommit (bytePlan 2).commit).stored :=
        congrArg (fun ledger => ledger.tables.stored) ledger
    _ = _ := CommitTables.stored_appendCommit_of_notMem apart

/-- Two publishes that overlap and announce in the order of their commits: the snapshot shows what the head names. -/
theorem agrees_iff_of_done_overlapping : ∃ race,
    Run (Step .sample unredacted (Sample.lineage "r")) (start .initial)
      [.resolve (byteRequest 1) noon, .resolve (byteRequest 2) noon, .persist noon (bytePlan 1), .persist noon (bytePlan 2),
        .broadcast (bytePlan 1), .broadcast (bytePlan 2)] race ∧
      race.Done ∧ race.Agrees (Sample.lineage "r") := by
  obtain ⟨s₄, persisted, stored⟩ := bytes_persisted
  obtain ⟨s₅, announced₁, quiet₁⟩ := broadcast_byte s₄ 1
  obtain ⟨s₆, announced₂, quiet₂⟩ := broadcast_byte s₅ 2
  have run := (persisted.snoc (announced_byte [] [bytePlan 2] announced₁)).snoc (announced_byte [] [] announced₂)
  have same : s₆.store.tables.stored = s₄.store.tables.stored :=
    congrArg (fun ledger => ledger.tables.stored) (quiet₂.trans quiet₁)
  have free := bytes_free.mono (show s₆.store.tables.stored ++ [(bytePlan 1).commit, (bytePlan 2).commit] ⊆ _ by
    simp [same, stored])
  have reachable : Reachable .sample unredacted .initial := ⟨[], .nil⟩
  exact ⟨_, run, ⟨rfl, rfl⟩,
    (agrees_iff_of_done reachable run ⟨rfl, rfl⟩ (by simp) free).mpr ⟨_, _, rfl, rfl, rfl⟩⟩

/-- Two publishes that announce in the other order: the snapshot shows the first and the head names the second. -/
theorem agrees_fails_overtaken :
    ¬ ∀ (deps : External) (config : Config) (lineage : Lineage) (s : AppState) (turns : List LiveTurn) (race : LiveRace),
      Reachable deps config s → Run (Step deps config lineage) (start s) turns race → race.Done → race.made ≠ [] →
      CollisionFree deps (race.state.store.tables.stored ++ race.made.map (·.commit)) → race.Agrees lineage := by
  intro claim
  obtain ⟨s₄, persisted, stored⟩ := bytes_persisted
  obtain ⟨s₅, announced₂, quiet₂⟩ := broadcast_byte s₄ 2
  obtain ⟨s₆, announced₁, quiet₁⟩ := broadcast_byte s₅ 1
  have run := (persisted.snoc (announced_byte [bytePlan 1] [] announced₂)).snoc (announced_byte [] [] announced₁)
  have same : s₆.store.tables.stored = s₄.store.tables.stored :=
    congrArg (fun ledger => ledger.tables.stored) (quiet₁.trans quiet₂)
  have free := bytes_free.mono (show s₆.store.tables.stored ++ [(bytePlan 1).commit, (bytePlan 2).commit] ⊆ _ by
    simp [same, stored])
  have reachable : Reachable .sample unredacted .initial := ⟨[], .nil⟩
  obtain ⟨persisted, announced, last, final, head, found, live⟩ :=
    ends_of_done reachable run ⟨rfl, rfl⟩ (by simp) free
  obtain ⟨commitId, commit, named, read, agree⟩ := claim _ _ _ _ _ _ reachable run ⟨rfl, rfl⟩ (by simp) free
  have second : bytePlan 2 = persisted := Option.some.inj last
  have first : bytePlan 1 = announced := Option.some.inj final
  obtain rfl := Option.some.inj (head.symm.trans named)
  obtain rfl := Option.some.inj (found.symm.trans read)
  rw [← second, live, ← first] at agree
  have same : some ([1] : Bytes) = some [2] := congrArg (Option.map Payload.data) agree
  exact absurd same (by decide)

end Sample

end LiveRace

end AttowNexus
