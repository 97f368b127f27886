import AttowNexus.Library.Run
import AttowNexus.Proofs.Artifacts

/-! # Reading artifacts back

Runs of puts, with a threshold of its own for each, since the daemon may be started again with other settings.
A run without a put that breaks into an existing artifact reads back what was put. A put that stops inside the
file of an existing artifact has already cut that file off.
-/

namespace AttowNexus

open SqliteStore

/-- A put, and how it ended. -/
structure PutEvent where
  bytes : Bytes
  mediaType : String
  threshold : ℕ
  ambient : Ambient
  outcome : Except Error ArtifactRef

def Config.withThreshold (config : Config) (threshold : ℕ) : Config :=
  { config with compressionThresholdBytes := threshold }

def PutStep (deps : External) (config : Config) (s : SqliteStore) (event : PutEvent) (t : SqliteStore) : Prop :=
  putArtifact deps (config.withThreshold event.threshold) event.ambient event.bytes event.mediaType s = (event.outcome, t)

/-- A put that is harmless where it happens. -/
def HarmlessPut (deps : External) (config : Config) (s : SqliteStore) (event : PutEvent) (t : SqliteStore) : Prop :=
  PutStep deps config s event t ∧
    Harmless deps (config.withThreshold event.threshold) event.ambient event.bytes s

/-- The digits of the hash tell the bytes of the run apart. -/
def DistinctHashes (deps : External) (events : List PutEvent) : Prop :=
  ∀ left ∈ events, ∀ right ∈ events, deps.toHex left.bytes = deps.toHex right.bytes → left.bytes = right.bytes

variable {deps : External} {config : Config} {events : List PutEvent} {s t : SqliteStore}

/-- Along harmless puts every row serves bytes that were put, and every returned artifact has a row. -/
theorem readable_of_run (identity : ∀ bytes, deps.decodeAll (deps.encodeAll bytes) = some bytes)
    (allowed : Bytes → Prop) (run : Run (HarmlessPut deps config) .empty events s)
    (given : ∀ event ∈ events, allowed event.bytes) :
    Readable deps config allowed s ∧
    ∀ event ∈ events, ∀ artifact, event.outcome = .ok artifact →
      artifact.artifactId = artifactId deps event.bytes ∧ artifact.artifactId ∈ s.artifactIds := by
  induction run with
  | nil => exact ⟨readable_empty, fun _ absent => absurd absent List.not_mem_nil⟩
  | snoc before put ih =>
    rename_i earlier middle finish event
    obtain ⟨step, harmless⟩ := put
    obtain ⟨readable, listed⟩ := ih fun event member => given event (List.mem_append_left _ member)
    have new : allowed event.bytes := given event (List.mem_append_right _ (List.mem_singleton_self event))
    refine ⟨?_, fun other member artifact returned => ?_⟩
    · have kept : Readable deps (config.withThreshold event.threshold) allowed middle := ⟨readable.path, readable.serves⟩
      have readable' := kept.putArtifact identity new harmless step
      exact ⟨readable'.path, readable'.serves⟩
    · rcases List.mem_append.mp member with old | only
      · obtain ⟨named, there⟩ := listed other old artifact returned
        exact ⟨named, putArtifact_keeps_ids step there⟩
      · obtain rfl := List.mem_singleton.mp only
        rw [PutStep, returned] at step
        obtain ⟨rfl, there⟩ := putArtifact_lists step
        exact ⟨rfl, there⟩

/-- Along harmless puts, every artifact that was returned reads back as the bytes that were put. -/
theorem returned_artifact_reads_back (identity : ∀ bytes, deps.decodeAll (deps.encodeAll bytes) = some bytes)
    (apart : DistinctHashes deps events) (run : Run (HarmlessPut deps config) .empty events s) :
    ∀ event ∈ events, ∀ artifact, event.outcome = .ok artifact →
      getArtifact deps s artifact.artifactId = .ok (some event.bytes) := by
  intro event member artifact returned
  obtain ⟨readable, listed⟩ := readable_of_run identity
    (fun bytes => ∃ other ∈ events, other.bytes = bytes) run fun event member => ⟨event, member, rfl⟩
  obtain ⟨named, there⟩ := listed event member artifact returned
  obtain ⟨bytes, ⟨other, put, rfl⟩, named', read⟩ := readable.getArtifact_eq_ok there
  have digits : deps.toHex event.bytes = deps.toHex other.bytes := by
    have same := blake3Hex_eq_of_artifactId_eq (named.symm.trans named')
    exact Subtype.ext (String.ofList_injective same)
  rw [read, apart event member other put digits]

section Sample

/-- A packer that marks what it packed. -/
private def marked : External :=
  { External.sample with
    encodeAll := fun data => 40 :: data
    decodeAll := fun data => if data.head? = some 40 then some data.tail else none }

private theorem marked_identity (bytes : Bytes) : marked.decodeAll (marked.encodeAll bytes) = some bytes := rfl

private def failing (calls : List StoreCall) : Ambient := { Ambient.calm ⟨1, 0⟩ 1 with fails := (· ∈ calls) }

private def note : Bytes := [1, 2, 3]

/-- A put of the note on the given store. -/
private def noteEvent (threshold : ℕ) (ambient : Ambient) (s : SqliteStore) : PutEvent :=
  ⟨note, "text/plain", threshold, ambient,
    (putArtifact marked (Sample.config.withThreshold threshold) ambient note "text/plain" s).1⟩

private def afterNote (threshold : ℕ) (ambient : Ambient) (s : SqliteStore) : SqliteStore :=
  (putArtifact marked (Sample.config.withThreshold threshold) ambient note "text/plain" s).2

private def noteKept : SqliteStore := afterNote 10 (failing []) .empty

private def noteEvents (threshold : ℕ) (ambient : Ambient) : List PutEvent :=
  [noteEvent 10 (failing []) .empty, noteEvent threshold ambient noteKept]

private theorem noteEvents_apart (threshold : ℕ) (ambient : Ambient) :
    DistinctHashes marked (noteEvents threshold ambient) := by
  simp [DistinctHashes, noteEvents, noteEvent]

private theorem noteEvents_run (threshold : ℕ) (ambient : Ambient) :
    Run (PutStep marked Sample.config) .empty (noteEvents threshold ambient) (afterNote threshold ambient noteKept) :=
  .snoc (.single rfl) rfl

/-- What reading the note returns, an error apart. -/
private def noteRead (s : SqliteStore) : Option (Option Bytes) := (getArtifact marked s (artifactId marked note)).toOption

/-- A put whose write stops empties the artifact that is there; a put whose row is refused leaves it packed in another
way than its row says. -/
theorem later_put_breaks_artifact :
    (∀ bytes, marked.decodeAll (marked.encodeAll bytes) = some bytes) ∧
    (noteEvent 10 (failing []) .empty).outcome.toOption.map (·.artifactId) = some (artifactId marked note) ∧
    (∀ threshold ambient, DistinctHashes marked (noteEvents threshold ambient) ∧
      Run (PutStep marked Sample.config) .empty (noteEvents threshold ambient) (afterNote threshold ambient noteKept)) ∧
    noteRead (afterNote 10 (failing [.writeArtifactFile]) noteKept) = some (some []) ∧
    noteRead (afterNote 1 (failing [.insertArtifact]) noteKept) = some (some [40, 1, 2, 3]) :=
  ⟨marked_identity, by decide, fun threshold ambient =>
    ⟨noteEvents_apart threshold ambient, noteEvents_run threshold ambient⟩, by decide, by decide⟩

/-- Put again with a packer, the note is still what was put. -/
theorem returned_artifact_reads_back_packed :
    getArtifact marked (afterNote 1 (failing []) noteKept) (artifactId marked note) = .ok (some note) := by
  have first : HarmlessPut marked Sample.config .empty (noteEvent 10 (failing []) .empty) noteKept :=
    ⟨rfl, fun _ row absent => absurd absent List.not_mem_nil⟩
  have second : HarmlessPut marked Sample.config noteKept (noteEvent 1 (failing []) noteKept)
      (afterNote 1 (failing []) noteKept) := ⟨rfl, fun _ _ _ _ => ⟨nofun, .inl ⟨rfl, rfl⟩⟩⟩
  exact returned_artifact_reads_back marked_identity (noteEvents_apart 1 (failing [])) (.snoc (.single first) second)
    _ List.mem_cons_self _ rfl

end Sample

end AttowNexus
