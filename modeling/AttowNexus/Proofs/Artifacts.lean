import AttowNexus.Proofs.Service

/-! # What a put does to rows and files

A put writes the file first and the row after it, and it may stop before, in or after the file. A put of bytes
that have no row yet can do no harm; over an existing row the file must get as far as its end, and the row must
say how the file is packed.
-/

namespace AttowNexus

open Fallible

namespace SqliteStore

variable {deps : External} {config : Config} {ambient : Ambient} {store finish : SqliteStore} {bytes : Bytes}
  {mediaType : String}

/-- `maybe_compress` where it works. -/
def packed (deps : External) (config : Config) (bytes : Bytes) : Bytes × Bool :=
  if config.compressionThresholdBytes ≤ bytes.length then (deps.encodeAll bytes, true) else (bytes, false)

def artifactId (deps : External) (bytes : Bytes) : String := "artifact_" ++ deps.blake3Hex bytes

def artifactPath (config : Config) (artifactId : String) : String := config.artifactDir ++ "/" ++ artifactId

theorem artifactPath_injective {left right : String} (same : artifactPath config left = artifactPath config right) :
    left = right := (String.append_right_inj _).mp same

theorem blake3Hex_eq_of_artifactId_eq {other : Bytes} (same : artifactId deps bytes = artifactId deps other) :
    deps.blake3Hex bytes = deps.blake3Hex other := (String.append_right_inj _).mp same

theorem packed_snd (deps : External) : (packed deps config bytes).2 = decide (config.compressionThresholdBytes ≤ bytes.length) := by
  rw [packed]
  split <;> simp [*]

/-- Unpacking undoes packing. -/
theorem maybeDecompress_packed (identity : ∀ bytes, deps.decodeAll (deps.encodeAll bytes) = some bytes) :
    maybeDecompress deps (packed deps config bytes).1 (packed deps config bytes).2 = .ok bytes := by
  rw [packed]
  split
  · rw [maybeDecompress, if_pos rfl, identity]
  · rw [maybeDecompress, if_neg Bool.false_ne_true]

/-- The put gets as far as opening the file. -/
structure Opens (config : Config) (ambient : Ambient) (bytes : Bytes) : Prop where
  directory : ambient.fails .createArtifactDir = false
  compress : config.compressionThresholdBytes ≤ bytes.length → ambient.fails .compress = false
  opens : ambient.fails .openArtifactFile = false

/-- The row of a put. -/
def artifactRow (deps : External) (config : Config) (bytes : Bytes) (mediaType : String) : ArtifactRow :=
  ⟨artifactId deps bytes, deps.blake3Hex bytes, artifactPath config (artifactId deps bytes), bytes.length,
    mediaType, (packed deps config bytes).2⟩

def withFile (store : SqliteStore) (path : String) (written : Bytes) : SqliteStore :=
  { store with files := store.files.insert path written }

def withArtifact (store : SqliteStore) (row : ArtifactRow) : SqliteStore :=
  { store with artifacts := Table.insertOrReplace (·.artifactId) row store.artifacts }

/-- How a put may end. -/
inductive PutOutcome (deps : External) (config : Config) (ambient : Ambient) (bytes : Bytes) (mediaType : String)
    (store : SqliteStore) : Except Error ArtifactRef → SqliteStore → Prop
  | unopened {error : Error} : PutOutcome deps config ambient bytes mediaType store (.error error) store
  | torn {error : Error} (opens : Opens config ambient bytes) (breaks : ambient.fails .writeArtifactFile = true) :
      PutOutcome deps config ambient bytes mediaType store (.error error)
        (store.withFile (artifactPath config (artifactId deps bytes))
          ((packed deps config bytes).1.take ambient.writtenBytes))
  | unlisted {error : Error} (opens : Opens config ambient bytes) (writes : ambient.fails .writeArtifactFile = false)
      (refused : ambient.fails .insertArtifact = true) :
      PutOutcome deps config ambient bytes mediaType store (.error error)
        (store.withFile (artifactPath config (artifactId deps bytes)) (packed deps config bytes).1)
  | saved (opens : Opens config ambient bytes) (writes : ambient.fails .writeArtifactFile = false)
      (inserts : ambient.fails .insertArtifact = false) :
      PutOutcome deps config ambient bytes mediaType store (.ok (artifactRef deps config bytes mediaType))
        ((store.withFile (artifactPath config (artifactId deps bytes)) (packed deps config bytes).1).withArtifact
          (artifactRow deps config bytes mediaType))

theorem attempt_of_works {σ : Type} {call : StoreCall} {s : σ} (works : ambient.fails call = false) :
    ambient.attempt call s = (.ok (), s) := Ambient.attempt_eq_iff.2 ⟨by rw [if_pos works], rfl⟩

theorem attempt_of_fails {σ : Type} {call : StoreCall} {s : σ} (fails : ambient.fails call = true) :
    ambient.attempt call s = (.error (.store call), s) :=
  Ambient.attempt_eq_iff.2 ⟨by rw [fails]; rfl, rfl⟩

theorem maybeCompress_of_works (works : config.compressionThresholdBytes ≤ bytes.length → ambient.fails .compress = false) :
    maybeCompress deps config ambient bytes store = (.ok (packed deps config bytes), store) :=
  maybeCompress_eq_ok_iff.2 ⟨works, rfl, rfl⟩

theorem maybeCompress_of_fails (long : config.compressionThresholdBytes ≤ bytes.length)
    (fails : ambient.fails .compress = true) :
    maybeCompress deps config ambient bytes store = (.error (.store .compress), store) := by
  have notSmall : ¬ bytes.length < config.compressionThresholdBytes := by omega
  rw [maybeCompress, if_neg notSmall, bind_of_error (attempt_of_fails fails)]

theorem writeFile_of_works {path : String} {stored : Bytes} (opens : ambient.fails .openArtifactFile = false)
    (writes : ambient.fails .writeArtifactFile = false) :
    writeFile ambient path stored store = (.ok (), store.withFile path stored) :=
  writeFile_eq_ok_iff.2 ⟨opens, writes, rfl⟩

/-- The file of a failed write holds what was written of it. -/
theorem writeFile_of_breaks {path : String} {stored : Bytes} (opens : ambient.fails .openArtifactFile = false)
    (breaks : ambient.fails .writeArtifactFile = true) :
    writeFile ambient path stored store =
      (.error (.store .writeArtifactFile), store.withFile path (stored.take ambient.writtenBytes)) := by
  rw [writeFile, bind_of_ok (attempt_of_works opens), if_pos breaks]
  exact attempt_of_fails breaks

/-- A put takes one of its ways. -/
theorem putArtifact_cases {r : Except Error ArtifactRef}
    (run : putArtifact deps config ambient bytes mediaType store = (r, finish)) :
    PutOutcome deps config ambient bytes mediaType store r finish := by
  rw [putArtifact] at run
  cases directory : ambient.fails .createArtifactDir with
  | true =>
    rw [bind_of_error (attempt_of_fails directory)] at run
    cases run
    exact .unopened
  | false =>
    rw [bind_of_ok (attempt_of_works directory)] at run
    by_cases unpacked : config.compressionThresholdBytes ≤ bytes.length ∧ ambient.fails .compress = true
    · rw [bind_of_error (maybeCompress_of_fails unpacked.1 unpacked.2)] at run
      cases run
      exact .unopened
    · have compress : config.compressionThresholdBytes ≤ bytes.length → ambient.fails .compress = false := by
        simpa using unpacked
      rw [bind_of_ok (maybeCompress_of_works compress)] at run
      change (writeFile ambient (artifactPath config (artifactId deps bytes)) (packed deps config bytes).1 >>= _)
        store = (r, finish) at run
      cases opens : ambient.fails .openArtifactFile with
      | true =>
        rw [bind_of_error (show writeFile ambient _ _ store = _ from bind_of_error (attempt_of_fails opens))] at run
        cases run
        exact .unopened
      | false =>
        cases writes : ambient.fails .writeArtifactFile with
        | true =>
          rw [bind_of_error (writeFile_of_breaks opens writes)] at run
          cases run
          exact .torn ⟨directory, compress, opens⟩ writes
        | false =>
          rw [bind_of_ok (writeFile_of_works opens writes)] at run
          cases inserts : ambient.fails .insertArtifact with
          | true =>
            rw [bind_of_error (attempt_of_fails inserts)] at run
            cases run
            exact .unlisted ⟨directory, compress, opens⟩ writes inserts
          | false =>
            rw [bind_of_ok (attempt_of_works inserts)] at run
            have saved : PutOutcome deps config ambient bytes mediaType store _ _ :=
              .saved ⟨directory, compress, opens⟩ writes inserts
            rw [artifactRef, ← packed_snd deps] at saved
            cases run
            exact saved

section Reading

/-- The file of the row is there and unpacks to the bytes. -/
def Serves (deps : External) (store : SqliteStore) (row : ArtifactRow) (bytes : Bytes) : Prop :=
  ∃ stored, store.files.lookup row.path = some stored ∧ maybeDecompress deps stored row.compressed = .ok bytes

theorem getArtifact_of_serves {row : ArtifactRow} {artifactId : String}
    (found : Table.lookup (·.artifactId) artifactId store.artifacts = some row) (serves : Serves deps store row bytes) :
    getArtifact deps store artifactId = .ok (some bytes) := by
  obtain ⟨stored, file, unpacked⟩ := serves
  simp only [getArtifact, found, file, unpacked, Except.map]

/-- Every row names the artifact of some allowed bytes and serves them. -/
structure Readable (deps : External) (config : Config) (allowed : Bytes → Prop) (store : SqliteStore) : Prop where
  path : ∀ row ∈ store.artifacts, row.path = artifactPath config row.artifactId
  serves : ∀ row ∈ store.artifacts, ∃ bytes, allowed bytes ∧ row.artifactId = artifactId deps bytes ∧
    Serves deps store row bytes

/-- A put that opens the file of an existing row writes it whole, and the row says afterwards how it is packed. -/
def Harmless (deps : External) (config : Config) (ambient : Ambient) (bytes : Bytes) (store : SqliteStore) : Prop :=
  Opens config ambient bytes → ∀ row ∈ store.artifacts, row.artifactId = artifactId deps bytes →
    (ambient.fails .writeArtifactFile = true → (packed deps config bytes).1.length ≤ ambient.writtenBytes) ∧
    (ambient.fails .writeArtifactFile = false ∧ ambient.fails .insertArtifact = false ∨
      row.compressed = (packed deps config bytes).2)

variable {allowed : Bytes → Prop} {r : Except Error ArtifactRef}

/-- Writing the file of one id is not seen by the rows of the others. -/
theorem Serves.withFile_of_ne {row : ArtifactRow} {written served : Bytes} (serves : Serves deps store row served)
    (path : row.path = artifactPath config row.artifactId) (apart : row.artifactId ≠ artifactId deps bytes) :
    Serves deps (store.withFile (artifactPath config (artifactId deps bytes)) written) row served := by
  obtain ⟨stored, file, unpacked⟩ := serves
  have elsewhere : row.path ≠ artifactPath config (artifactId deps bytes) :=
    fun same => apart (artifactPath_injective (path.symm.trans same))
  exact ⟨stored, (Finmap.lookup_insert_of_ne _ elsewhere).trans file, unpacked⟩

theorem serves_packed (identity : ∀ bytes, deps.decodeAll (deps.encodeAll bytes) = some bytes) {row : ArtifactRow}
    (path : row.path = artifactPath config (artifactId deps bytes))
    (flag : row.compressed = (packed deps config bytes).2) :
    Serves deps (store.withFile (artifactPath config (artifactId deps bytes)) (packed deps config bytes).1) row bytes := by
  refine ⟨(packed deps config bytes).1, ?_, ?_⟩
  · rw [path]
    exact Finmap.lookup_insert _
  · rw [flag]
    exact maybeDecompress_packed identity

/-- A whole file under a row with the right flag keeps every artifact readable. -/
theorem Readable.withFile (readable : Readable deps config allowed store)
    (identity : ∀ bytes, deps.decodeAll (deps.encodeAll bytes) = some bytes) (new : allowed bytes)
    {written : Bytes}
    (whole : ∀ row ∈ store.artifacts, row.artifactId = artifactId deps bytes →
      written = (packed deps config bytes).1 ∧ row.compressed = (packed deps config bytes).2) :
    Readable deps config allowed (store.withFile (artifactPath config (artifactId deps bytes)) written) where
  path := readable.path
  serves row member := by
    by_cases same : row.artifactId = artifactId deps bytes
    · obtain ⟨rfl, flag⟩ := whole row member same
      have path := readable.path row member
      rw [same] at path
      exact ⟨bytes, new, same, serves_packed identity path flag⟩
    · obtain ⟨served, given, named, serves⟩ := readable.serves row member
      exact ⟨served, given, named, serves.withFile_of_ne (readable.path row member) same⟩

/-- A harmless put keeps every artifact readable. -/
theorem Readable.putArtifact (readable : Readable deps config allowed store)
    (identity : ∀ bytes, deps.decodeAll (deps.encodeAll bytes) = some bytes) (new : allowed bytes)
    (harmless : Harmless deps config ambient bytes store)
    (run : putArtifact deps config ambient bytes mediaType store = (r, finish)) :
    Readable deps config allowed finish := by
  cases putArtifact_cases run with
  | unopened => exact readable
  | torn opens breaks =>
    refine readable.withFile identity new fun row member same => ?_
    obtain ⟨whole, listed⟩ := harmless opens row member same
    have unwritten : ¬ (ambient.fails .writeArtifactFile = false ∧ ambient.fails .insertArtifact = false) := by
      simp [breaks]
    exact ⟨List.take_of_length_le (whole breaks), listed.resolve_left unwritten⟩
  | unlisted opens writes refused =>
    refine readable.withFile identity new fun row member same => ⟨rfl, ?_⟩
    have unlisted : ¬ (ambient.fails .writeArtifactFile = false ∧ ambient.fails .insertArtifact = false) := by
      simp [refused]
    exact (harmless opens row member same).2.resolve_left unlisted
  | saved =>
    -- the new row takes the place of the old one, and all others have other files
    refine ⟨fun row member => ?_, fun row member => ?_⟩
    · rcases List.mem_append.mp member with old | only
      · exact readable.path row (List.mem_of_mem_filter old)
      · rw [List.mem_singleton.mp only]
        rfl
    · rcases List.mem_append.mp member with old | only
      · obtain ⟨served, given, named, serves⟩ := readable.serves row (List.mem_of_mem_filter old)
        have apart : row.artifactId ≠ (artifactRow deps config bytes mediaType).artifactId := by
          simpa using List.of_mem_filter old
        exact ⟨served, given, named, serves.withFile_of_ne (readable.path row (List.mem_of_mem_filter old)) apart⟩
      · rw [List.mem_singleton.mp only]
        exact ⟨bytes, new, rfl, serves_packed identity rfl rfl⟩

theorem readable_empty : Readable deps config allowed .empty :=
  ⟨fun _ absent => absurd absent List.not_mem_nil, fun _ absent => absurd absent List.not_mem_nil⟩

/-- The ids with a row -/
def artifactIds (store : SqliteStore) : List String := store.artifacts.map (·.artifactId)

/-- An artifact that has a row can be read, and its name is the hash of what is read. -/
theorem Readable.getArtifact_eq_ok (readable : Readable deps config allowed store) {name : String}
    (listed : name ∈ store.artifactIds) :
    ∃ bytes, allowed bytes ∧ name = artifactId deps bytes ∧ getArtifact deps store name = .ok (some bytes) := by
  obtain ⟨row, found⟩ := Option.isSome_iff_exists.mp (Table.lookup_isSome_iff.2 listed)
  obtain ⟨member, rfl⟩ := Table.mem_of_lookup found
  obtain ⟨bytes, given, named, serves⟩ := readable.serves row member
  exact ⟨bytes, given, named, getArtifact_of_serves found serves⟩

theorem mem_artifactIds_withArtifact {name : String} {row : ArtifactRow} (listed : name ∈ store.artifactIds) :
    name ∈ (store.withArtifact row).artifactIds := by
  obtain ⟨old, member, rfl⟩ := List.mem_map.mp listed
  by_cases same : old.artifactId = row.artifactId
  · exact same ▸ List.mem_map_of_mem Table.mem_insertOrReplace_self
  · exact List.mem_map_of_mem (List.mem_append_left _ (List.mem_filter.mpr ⟨member, by simpa using same⟩))

/-- A put takes no row away. -/
theorem putArtifact_keeps_ids {name : String} (run : putArtifact deps config ambient bytes mediaType store = (r, finish))
    (listed : name ∈ store.artifactIds) : name ∈ finish.artifactIds := by
  cases putArtifact_cases run with
  | unopened => exact listed
  | torn => exact listed
  | unlisted => exact listed
  | saved => exact mem_artifactIds_withArtifact listed

/-- A put that returns has left its row. -/
theorem putArtifact_lists {artifact : ArtifactRef}
    (run : putArtifact deps config ambient bytes mediaType store = (.ok artifact, finish)) :
    artifact = artifactRef deps config bytes mediaType ∧ artifact.artifactId ∈ finish.artifactIds := by
  cases putArtifact_cases run with
  | saved => exact ⟨rfl, List.mem_map_of_mem Table.mem_insertOrReplace_self⟩

end Reading

end SqliteStore

end AttowNexus
