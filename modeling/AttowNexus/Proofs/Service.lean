import AttowNexus.Model.System
import AttowNexus.Proofs.Store

/-! # What each operation does, outcome by outcome

Planning a commit touches no part of the ledger, and it succeeds exactly when the request is admitted;
the commit it plans is a function of the request, the environment and the head. Recording it writes
the index, the tables and the head in this order, and a failure keeps what was written before.
-/

namespace AttowNexus

open Fallible

/-- Neither the index nor the tables nor the heads change. -/
def SameTables (s t : SqliteStore) : Prop := t.tables = s.tables ∧ t.heads = s.heads

theorem SameTables.refl (s : SqliteStore) : SameTables s s := ⟨rfl, rfl⟩

theorem SameTables.trans (s t u : SqliteStore) (first : SameTables s t) (second : SameTables t u) :
    SameTables s u := ⟨second.1.trans first.1, second.2.trans first.2⟩

namespace SqliteStore

variable {deps : External} {config : Config} {ambient : Ambient} {store finish : SqliteStore}

/-- Every step of writing the artifact goes through. -/
structure Saves (config : Config) (ambient : Ambient) (bytes : Bytes) : Prop where
  directory : ambient.fails .createArtifactDir = false
  compress : config.compressionThresholdBytes ≤ bytes.length → ambient.fails .compress = false
  opens : ambient.fails .openArtifactFile = false
  writes : ambient.fails .writeArtifactFile = false
  inserts : ambient.fails .insertArtifact = false

/-- The reference to the artifact with the given bytes. -/
def artifactRef (deps : External) (config : Config) (bytes : Bytes) (mediaType : String) : ArtifactRef :=
  ⟨"artifact_" ++ deps.blake3Hex bytes, deps.blake3Hex bytes, bytes.length, mediaType,
    decide (config.compressionThresholdBytes ≤ bytes.length), none⟩

theorem attempt_keeps (call : StoreCall) : Keeps SameTables (ambient.attempt call) := Keeps.ensure .refl _ _

theorem putArtifact_keeps (bytes : Bytes) (mediaType : String) :
    Keeps SameTables (putArtifact deps config ambient bytes mediaType) := by
  refine .bind .trans (attempt_keeps _) fun _ => .bind .trans (Keeps.ite (.pure .refl _) ?_) fun _ =>
    .bind .trans ?_ fun _ => .bind .trans (attempt_keeps _) fun _ =>
      .bind .trans (.modify fun _ => ⟨rfl, rfl⟩) fun _ => .pure .refl _
  · exact .bind .trans (attempt_keeps _) fun _ => .pure .refl _
  · exact .bind .trans (attempt_keeps _) fun _ =>
      .bind .trans (.modify fun _ => ⟨rfl, rfl⟩) fun _ => attempt_keeps _

theorem attempt_eq_ok_iff {σ : Type} {call : StoreCall} {s t : σ} {u : Unit} :
    ambient.attempt call s = (.ok u, t) ↔ ambient.fails call = false ∧ t = s := by
  rw [Ambient.attempt_eq_iff]
  cases ambient.fails call <;> simp

theorem maybeCompress_eq_ok_iff {bytes : Bytes} {out : Bytes × Bool} :
    maybeCompress deps config ambient bytes store = (.ok out, finish) ↔
      (config.compressionThresholdBytes ≤ bytes.length → ambient.fails .compress = false) ∧
      out = (if config.compressionThresholdBytes ≤ bytes.length then (deps.encodeAll bytes, true)
        else (bytes, false)) ∧ finish = store := by
  rw [maybeCompress]
  by_cases long : config.compressionThresholdBytes ≤ bytes.length
  · have notSmall : ¬ bytes.length < config.compressionThresholdBytes := by omega
    rw [if_neg notSmall, if_pos long, bind_eq_ok_iff]
    simp only [attempt_eq_ok_iff, pure_eq_iff, Except.ok.injEq]
    constructor
    · rintro ⟨_, _, ⟨compress, rfl⟩, rfl, rfl⟩
      exact ⟨fun _ => compress, rfl, rfl⟩
    · rintro ⟨compress, rfl, rfl⟩
      exact ⟨(), _, ⟨compress long, rfl⟩, rfl, rfl⟩
  · have small : bytes.length < config.compressionThresholdBytes := by omega
    simp [if_pos small, long]

theorem writeFile_eq_ok_iff {path : String} {bytes : Bytes} {u : Unit} :
    writeFile ambient path bytes store = (.ok u, finish) ↔
      ambient.fails .openArtifactFile = false ∧ ambient.fails .writeArtifactFile = false ∧
      finish = { store with files := store.files.insert path bytes } := by
  simp only [writeFile, bind_eq_ok_iff, attempt_eq_ok_iff, modify_eq_iff]
  constructor
  · rintro ⟨_, _, ⟨opens, rfl⟩, _, _, ⟨_, rfl⟩, writes, rfl⟩
    exact ⟨opens, writes, by rw [writes]; rfl⟩
  · rintro ⟨opens, writes, rfl⟩
    exact ⟨(), _, ⟨opens, rfl⟩, (), _, ⟨trivial, rfl⟩, writes, by rw [writes]; rfl⟩

/-- Writing an artifact succeeds exactly when all of its steps do, and then returns its reference. -/
theorem putArtifact_eq_ok_iff {bytes : Bytes} {mediaType : String} {artifact : ArtifactRef} :
    (∃ t, putArtifact deps config ambient bytes mediaType store = (.ok artifact, t)) ↔
      Saves config ambient bytes ∧ artifact = artifactRef deps config bytes mediaType := by
  have flag : ∀ {out : Bytes × Bool}, out = (if config.compressionThresholdBytes ≤ bytes.length then
      (deps.encodeAll bytes, true) else (bytes, false)) →
      out.2 = decide (config.compressionThresholdBytes ≤ bytes.length) := by
    rintro _ rfl
    split <;> simp [*]
  simp only [putArtifact, bind_eq_ok_iff, attempt_eq_ok_iff, maybeCompress_eq_ok_iff, writeFile_eq_ok_iff,
    pure_eq_iff, modify_eq_iff, Except.ok.injEq]
  constructor
  · rintro ⟨_, _, _, ⟨directory, rfl⟩, out, _, ⟨compress, same, rfl⟩, _, _, ⟨opens, writes, rfl⟩,
      _, _, ⟨inserts, rfl⟩, _, _, ⟨_, rfl⟩, rfl, rfl⟩
    refine ⟨⟨directory, compress, opens, writes, inserts⟩, ?_⟩
    rw [artifactRef, flag same]
  · rintro ⟨saves, rfl⟩
    refine ⟨_, (), _, ⟨saves.directory, rfl⟩, _, _, ⟨saves.compress, rfl, rfl⟩, (), _,
      ⟨saves.opens, saves.writes, rfl⟩, (), _, ⟨saves.inserts, rfl⟩, (), _, ⟨trivial, rfl⟩, ?_, rfl⟩
    rw [artifactRef, flag rfl]

end SqliteStore

def CheckpointRequest.lineage (request : CheckpointRequest) : Lineage :=
  ⟨request.runId, request.threadId, request.agentId, request.channel⟩

namespace AppState

variable {deps : External} {config : Config} {ambient : Ambient} {s t : AppState}

def SameLedger (s t : AppState) : Prop := t.ledger = s.ledger

theorem SameLedger.refl (s : AppState) : SameLedger s s := rfl

theorem SameLedger.trans (s t u : AppState) (first : SameLedger s t) (second : SameLedger t u) :
    SameLedger s u := Eq.trans second first

theorem SameLedger.of_run {α : Type} {x : Fallible AppState Error α} (keeps : Keeps SameLedger x)
    {r : Except Error α} (run : x s = (r, t)) : t.ledger = s.ledger := by
  have kept : (x s).2.ledger = s.ledger := keeps s
  rwa [run] at kept

theorem onStore_keeps {α : Type} {x : Fallible SqliteStore Error α} (keeps : Keeps SameTables x) :
    Keeps SameLedger (onStore x) := by
  intro s
  obtain ⟨tables, heads⟩ := keeps s.store
  change Ledger.mk _ _ _ = Ledger.mk _ _ _
  rw [← tables, ← heads]
  rfl

theorem onStore_eq_iff {α : Type} {x : Fallible SqliteStore Error α} {r : Except Error α} :
    onStore x s = (r, t) ↔ ∃ m, x s.store = (r, m) ∧ t = { s with store := m } := zoom_eq_iff

/-- The agent may use the scope, or nobody checks. -/
def Permitted (config : Config) (s : AppState) (agentId scope : String) : Prop :=
  config.requireAuth = false ∨ isAllowed config ((s.grants.lookup agentId).getD []) scope = true

theorem ensureChannelPermission_eq_ok_iff {agentId scope : String} {u : Unit} :
    ensureChannelPermission config agentId scope s = (.ok u, t) ↔ Permitted config s agentId scope ∧ t = s := by
  rw [ensureChannelPermission, Permitted]
  by_cases unchecked : config.requireAuth = false
  · rw [if_pos unchecked, pure_eq_iff]
    simp [unchecked]
  · rw [if_neg unchecked, bind_eq_ok_iff, or_iff_right unchecked]
    simp only [get_eq_iff, Except.ok.injEq, ensure_eq_iff]
    constructor
    · rintro ⟨_, _, ⟨rfl, rfl⟩, granted, rfl⟩
      split_ifs at granted with allowed
      exact ⟨allowed, rfl⟩
    · rintro ⟨allowed, rfl⟩
      exact ⟨_, _, ⟨rfl, rfl⟩, by rw [if_pos allowed], rfl⟩

theorem ensureChannelPermission_keeps (agentId scope : String) :
    Keeps SameLedger (ensureChannelPermission config agentId scope) :=
  .ite (.pure .refl _) (.bind .trans (.get .refl) fun _ => .ensure .refl _ _)

/-- The payload, report and artifact list that `prepare_payload` returns. -/
def preparedPayload (deps : External) (config : Config) (payload : Option Payload) :
    Payload × RedactionReport × List ArtifactRef :=
  let (payload, redactionReport) := redactedPayload deps config payload
  if config.maxInlinePayloadBytes < payload.data.length then
    let artifact := SqliteStore.artifactRef deps config payload.data "application/octet-stream"
    (movedPayload payload artifact, redactionReport, [artifact])
  else (payload, redactionReport, [])

/-- The payload stays inline, or its artifact gets written. -/
def Prepares (deps : External) (config : Config) (ambient : Ambient) (payload : Option Payload) : Prop :=
  config.maxInlinePayloadBytes < (redactedPayload deps config payload).1.data.length →
    SqliteStore.Saves config ambient (redactedPayload deps config payload).1.data

theorem preparePayload_keeps (payload : Option Payload) :
    Keeps SameLedger (preparePayload deps config ambient payload) :=
  .ite (.bind .trans (onStore_keeps (SqliteStore.putArtifact_keeps _ _)) fun _ => .pure .refl _) (.pure .refl _)

theorem preparePayload_eq_ok_iff {payload : Option Payload}
    {out : Payload × RedactionReport × List ArtifactRef} :
    (∃ t, preparePayload deps config ambient payload s = (.ok out, t)) ↔
      Prepares deps config ambient payload ∧ out = preparedPayload deps config payload := by
  rw [preparePayload, preparedPayload, Prepares]
  obtain ⟨kept, report⟩ := redactedPayload deps config payload
  by_cases large : config.maxInlinePayloadBytes < kept.data.length
  · simp only [if_pos large]
    simp only [bind_eq_ok_iff, onStore_eq_iff, pure_eq_iff, Except.ok.injEq, large, true_imp_iff]
    constructor
    · rintro ⟨_, artifact, _, ⟨m, wrote, rfl⟩, rfl, rfl⟩
      obtain ⟨saves, rfl⟩ := SqliteStore.putArtifact_eq_ok_iff.1 ⟨m, wrote⟩
      exact ⟨saves, rfl⟩
    · rintro ⟨saves, rfl⟩
      obtain ⟨m, wrote⟩ := SqliteStore.putArtifact_eq_ok_iff.2 ⟨saves, rfl⟩
      exact ⟨_, _, _, ⟨m, wrote, rfl⟩, rfl, rfl⟩
  · simp [large]

/-- The parents of the next commit: the ones given, or else the head. -/
def parentsFor (heads : List HeadRow) (lineage : Lineage) (explicitParents : List String) : List String :=
  if explicitParents ≠ [] then explicitParents else (headOf heads lineage).toList

theorem getHead_eq_ok_iff {lineage : Lineage} {head : Option String} :
    onStore (SqliteStore.getHead ambient lineage) s = (.ok head, t) ↔
      ambient.fails .getHead = false ∧ head = headOf s.store.heads lineage ∧ t = s := by
  simp only [onStore_eq_iff, SqliteStore.getHead, bind_eq_ok_iff, SqliteStore.attempt_eq_ok_iff, get_eq_iff,
    pure_eq_iff, Except.ok.injEq]
  constructor
  · rintro ⟨_, ⟨_, _, ⟨works, rfl⟩, _, _, ⟨rfl, rfl⟩, rfl, rfl⟩, rfl⟩
    exact ⟨works, rfl, rfl⟩
  · rintro ⟨works, rfl, rfl⟩
    exact ⟨_, ⟨(), _, ⟨works, rfl⟩, _, _, ⟨rfl, rfl⟩, rfl, rfl⟩, rfl⟩

theorem resolveParents_eq_ok_iff {delta : StateDelta} {explicitParents parents : List String} :
    resolveParents ambient delta explicitParents s = (.ok parents, t) ↔
      (explicitParents = [] → ambient.fails .getHead = false) ∧
      parents = parentsFor s.store.heads delta.lineage explicitParents ∧ t = s := by
  rw [resolveParents, parentsFor]
  by_cases given : explicitParents ≠ []
  · rw [if_pos given, if_pos given, pure_eq_iff]
    simp [given]
  · rw [if_neg given, if_neg given, bind_eq_ok_iff]
    simp only [getHead_eq_ok_iff, pure_eq_iff, Except.ok.injEq, not_not.mp given, true_imp_iff]
    constructor
    · rintro ⟨_, _, ⟨works, rfl, rfl⟩, rfl, rfl⟩
      exact ⟨works, rfl, rfl⟩
    · rintro ⟨works, rfl, rfl⟩
      exact ⟨_, _, ⟨works, rfl, rfl⟩, rfl, rfl⟩

theorem getHead_keeps (lineage : Lineage) : Keeps SameLedger (onStore (SqliteStore.getHead ambient lineage)) :=
  onStore_keeps (.bind .trans (SqliteStore.attempt_keeps _) fun _ =>
    .bind .trans (.get .refl) fun _ => .pure .refl _)

theorem resolveParents_keeps (delta : StateDelta) (explicitParents : List String) :
    Keeps SameLedger (resolveParents ambient delta explicitParents) :=
  .ite (.pure .refl _) (.bind .trans (getHead_keeps _) fun _ => .pure .refl _)

section Plans

/-- The delta of a publish once it is normalized and its payload prepared. -/
def publishDelta (deps : External) (config : Config) (ambient : Ambient) (delta : StateDelta) : StateDelta :=
  let normal := normalizeDelta deps ambient delta
  { normal with payload := some (preparedPayload deps config normal.payload).1 }

/-- The commit that a durable publish makes on top of the given heads. -/
def publishCommit (deps : External) (config : Config) (ambient : Ambient) (heads : List HeadRow)
    (request : PublishDeltaRequest) (delta : StateDelta) : Commit :=
  let (payload, redactionReport, artifactRefs) :=
    preparedPayload deps config (normalizeDelta deps ambient delta).payload
  fromDelta deps (publishDelta deps config ambient delta)
    (parentsFor heads delta.lineage request.parentCommitIds) payload redactionReport
    (publishExtras request.objective artifactRefs)

/-- Whether a delta becomes a commit. -/
def Persists (config : Config) (delta : StateDelta) : Prop := delta.durable = true ∨ config.persistEphemeral = true

/-- What a publish needs to get as far as its commit, or its broadcast. -/
structure AdmitsPublish (deps : External) (config : Config) (ambient : Ambient) (s : AppState)
    (request : PublishDeltaRequest) (delta : StateDelta) : Prop where
  given : request.delta = some delta
  permitted : Permitted config s delta.agentId (channelWrite delta.channel)
  prepares : Prepares deps config ambient (normalizeDelta deps ambient delta).payload
  readsHead : Persists config delta → request.parentCommitIds = [] → ambient.fails .getHead = false

/-- The plan of an admitted publish. -/
def publishPlan (deps : External) (config : Config) (ambient : Ambient) (heads : List HeadRow)
    (request : PublishDeltaRequest) (delta : StateDelta) : PublishPlan :=
  let redactionReport := (preparedPayload deps config (normalizeDelta deps ambient delta).payload).2.1
  if delta.durable = false ∧ config.persistEphemeral = false then
    .broadcastOnly (publishDelta deps config ambient delta) redactionReport
  else .durable ⟨publishDelta deps config ambient delta, redactionReport,
    publishCommit deps config ambient heads request delta⟩

theorem planPublish_keeps (request : PublishDeltaRequest) :
    Keeps SameLedger (planPublish deps config ambient request) := by
  refine .bind .trans (.lift .refl _) fun _ => .bind .trans (ensureChannelPermission_keeps _ _) fun _ =>
    .bind .trans (preparePayload_keeps _) fun _ => .ite (.pure .refl _) ?_
  exact .bind .trans (resolveParents_keeps _ _) fun _ => .pure .refl _

theorem not_persists_iff {delta : StateDelta} :
    delta.durable = false ∧ config.persistEphemeral = false ↔ ¬ Persists config delta := by
  rw [Persists, not_or, Bool.not_eq_true, Bool.not_eq_true]

/-- Planning a publish succeeds exactly when it is admitted, with the plan that its inputs determine. -/
theorem planPublish_eq_ok_iff {request : PublishDeltaRequest} {plan : PublishPlan} :
    (∃ t, planPublish deps config ambient request s = (.ok plan, t)) ↔
      ∃ delta, AdmitsPublish deps config ambient s request delta ∧
        plan = publishPlan deps config ambient s.store.heads request delta := by
  constructor
  · rintro ⟨t, run⟩
    simp only [planPublish, bind_eq_ok_iff, required_eq_iff, ensureChannelPermission_eq_ok_iff] at run
    obtain ⟨delta, _, ⟨given, rfl⟩, _, start, ⟨permitted, rfl⟩, out, m, prepared, rest⟩ := run
    obtain ⟨prepares, rfl⟩ := preparePayload_eq_ok_iff.1 ⟨m, prepared⟩
    have sameHeads : m.store.heads = start.store.heads :=
      congrArg Ledger.heads (SameLedger.of_run (preparePayload_keeps _) prepared)
    have given' : request.delta = some delta := by
      cases same : request.delta with
      | none => simp [same] at given
      | some other => simpa [same] using given.symm
    -- normalization leaves the flag alone, so the branch is that of the request's own delta
    by_cases ephemeral : (normalizeDelta deps ambient delta).durable = false ∧ config.persistEphemeral = false
    · have ephemeral' : delta.durable = false ∧ config.persistEphemeral = false := ephemeral
      refine ⟨delta, ⟨given', permitted, prepares, fun persists => ?_⟩, ?_⟩
      · exact absurd persists (not_persists_iff.1 ephemeral')
      · rw [publishPlan, if_pos ephemeral']
        rw [if_pos ephemeral, pure_eq_iff] at rest
        exact Except.ok.inj rest.1
    · have ephemeral' : ¬ (delta.durable = false ∧ config.persistEphemeral = false) := ephemeral
      rw [if_neg ephemeral, bind_eq_ok_iff] at rest
      obtain ⟨parents, m', resolved, rest⟩ := rest
      obtain ⟨reads, rfl, rfl⟩ := resolveParents_eq_ok_iff.1 resolved
      refine ⟨delta, ⟨given', permitted, prepares, fun _ => reads⟩, ?_⟩
      rw [pure_eq_iff, sameHeads] at rest
      rw [publishPlan, if_neg ephemeral']
      exact Except.ok.inj rest.1
  · rintro ⟨delta, admits, rfl⟩
    obtain ⟨m, prepared⟩ := preparePayload_eq_ok_iff.2 ⟨admits.prepares, rfl⟩
    have sameHeads : m.store.heads = s.store.heads :=
      congrArg Ledger.heads (SameLedger.of_run (preparePayload_keeps _) prepared)
    refine ⟨m, ?_⟩
    simp only [planPublish, bind_eq_ok_iff, required_eq_iff, ensureChannelPermission_eq_ok_iff]
    refine ⟨delta, _, ⟨by rw [admits.given]; rfl, rfl⟩, (), _, ⟨admits.permitted, rfl⟩, _, m, prepared, ?_⟩
    rw [publishPlan]
    by_cases ephemeral : delta.durable = false ∧ config.persistEphemeral = false
    · have ephemeral' : (normalizeDelta deps ambient delta).durable = false ∧ config.persistEphemeral = false :=
        ephemeral
      rw [if_pos ephemeral, if_pos ephemeral']
      rfl
    · have ephemeral' :
          ¬ ((normalizeDelta deps ambient delta).durable = false ∧ config.persistEphemeral = false) := ephemeral
      rw [if_neg ephemeral, if_neg ephemeral', bind_eq_ok_iff]
      refine ⟨_, m, resolveParents_eq_ok_iff.2 ⟨fun none => ?_, rfl, rfl⟩, ?_⟩
      · exact admits.readsHead (not_not.mp fun away => ephemeral (not_persists_iff.2 away)) none
      · rw [sameHeads]
        rfl

/-- The delta of a checkpoint once its payload is prepared. -/
def preparedCheckpointDelta (deps : External) (config : Config) (ambient : Ambient)
    (request : CheckpointRequest) : StateDelta :=
  let delta := checkpointDelta deps ambient request
  { delta with payload := some (preparedPayload deps config delta.payload).1 }

/-- The commit that a checkpoint makes on top of the given heads. -/
def checkpointCommit (deps : External) (config : Config) (ambient : Ambient) (heads : List HeadRow)
    (request : CheckpointRequest) : Commit :=
  let (payload, redactionReport, artifactRefs) :=
    preparedPayload deps config (checkpointDelta deps ambient request).payload
  let delta := preparedCheckpointDelta deps config ambient request
  fromDelta deps delta (parentsFor heads delta.lineage request.parentCommitIds) payload redactionReport
    (checkpointExtras request artifactRefs)

/-- What a checkpoint needs to get as far as its commit. -/
structure AdmitsCheckpoint (deps : External) (config : Config) (ambient : Ambient) (s : AppState)
    (request : CheckpointRequest) : Prop where
  permitted : Permitted config s request.agentId (channelCheckpoint request.channel)
  prepares : Prepares deps config ambient (checkpointDelta deps ambient request).payload
  readsHead : request.parentCommitIds = [] → ambient.fails .getHead = false

/-- The plan of an admitted checkpoint. -/
def checkpointPlan (deps : External) (config : Config) (ambient : Ambient) (heads : List HeadRow)
    (request : CheckpointRequest) : Plan :=
  ⟨preparedCheckpointDelta deps config ambient request,
    (preparedPayload deps config (checkpointDelta deps ambient request).payload).2.1,
    checkpointCommit deps config ambient heads request⟩

theorem planCheckpoint_keeps (request : CheckpointRequest) :
    Keeps SameLedger (planCheckpoint deps config ambient request) :=
  .bind .trans (ensureChannelPermission_keeps _ _) fun _ => .bind .trans (preparePayload_keeps _) fun _ =>
    .bind .trans (resolveParents_keeps _ _) fun _ => .pure .refl _

/-- Planning a checkpoint succeeds exactly when it is admitted, with the plan that its inputs determine. -/
theorem planCheckpoint_eq_ok_iff {request : CheckpointRequest} {plan : Plan} :
    (∃ t, planCheckpoint deps config ambient request s = (.ok plan, t)) ↔
      AdmitsCheckpoint deps config ambient s request ∧
        plan = checkpointPlan deps config ambient s.store.heads request := by
  constructor
  · rintro ⟨t, run⟩
    simp only [planCheckpoint, bind_eq_ok_iff, ensureChannelPermission_eq_ok_iff, resolveParents_eq_ok_iff] at run
    obtain ⟨_, _, ⟨permitted, rfl⟩, out, m, prepared, _, _, ⟨reads, rfl, rfl⟩, rest⟩ := run
    obtain ⟨prepares, rfl⟩ := preparePayload_eq_ok_iff.1 ⟨_, prepared⟩
    have sameHeads := congrArg Ledger.heads (SameLedger.of_run (preparePayload_keeps _) prepared)
    refine ⟨⟨permitted, prepares, reads⟩, ?_⟩
    simp only [pure_eq_iff, ledger] at rest sameHeads
    rw [sameHeads] at rest
    exact Except.ok.inj rest.1
  · rintro ⟨admits, rfl⟩
    obtain ⟨m, prepared⟩ := preparePayload_eq_ok_iff.2 ⟨admits.prepares, rfl⟩
    have sameHeads : m.store.heads = s.store.heads :=
      congrArg Ledger.heads (SameLedger.of_run (preparePayload_keeps _) prepared)
    refine ⟨m, ?_⟩
    simp only [planCheckpoint, bind_eq_ok_iff, ensureChannelPermission_eq_ok_iff, resolveParents_eq_ok_iff]
    refine ⟨(), _, ⟨admits.permitted, rfl⟩, _, m, prepared, _, _, ⟨admits.readsHead, rfl, rfl⟩, ?_⟩
    rw [sameHeads]
    rfl

end Plans

theorem replayInner_eq_ok_iff {request : ReplayRequest} {result : ReplayResult} :
    replayInner deps request s = (.ok result, t) ↔ replay deps s.store.tables request = .ok result ∧ t = s := by
  rw [replayInner, Fallible.bind_of_ok (show Fallible.get s = (.ok s, s) from rfl), Fallible.lift_eq_iff, eq_comm]

end AppState

end AttowNexus
