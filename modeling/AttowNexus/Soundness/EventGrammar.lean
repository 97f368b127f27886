import AttowNexus.Proofs.UniversalEvent

/-! # The grammar of events

The daemon reads the fields it needs and gives the lists and the metadata a default, so the events that it accepts
are more than those documented. An event as documented is accepted, and an accepted one has every field that
the daemon needs.
-/

namespace AttowNexus

/-- An event with every required field, as the documentation lists them. -/
structure DocumentedEvent (object : JsonMap) : Prop where
  schemaVersion : object.get "schema_version" = some (.string "nexus.universal.v1")
  ids : ∀ field ∈ ["event_id", "run_id", "thread_id", "agent_id"],
    ∃ text, object.get field = some (.string text) ∧ IsId text
  framework : ∃ text ∈ frameworks, object.get "framework" = some (.string text)
  language : ∃ text, object.get "language" = some (.string text) ∧ text ≠ ""
  eventType : ∃ text ∈ eventTypes, object.get "event_type" = some (.string text)
  channel : ∃ text, object.get "channel" = some (.string text) ∧ IsChannel text
  metadata : ∃ members, object.get "metadata" = some (.object members)
  tags : ∃ texts : List String, object.get "tags" = some (.array (texts.map .string))
  parentCommitIds : ∃ texts : List String, object.get "parent_commit_ids" = some (.array (texts.map .string)) ∧ "" ∉ texts
  timestamp : ∃ ms : ℕ, object.get "timestamp_ms" = some (.number (.posInt ms)) ∧ 0 < ms

/-- The event says which language it comes from. -/
def StatesLanguage (object : JsonMap) : Prop := ∃ text, object.get "language" = some (.string text)

/-- None of the parents it names is the empty string. -/
def NamesParents (object : JsonMap) : Prop :=
  ∀ items, object.get "parent_commit_ids" = some (.array items) → .string "" ∉ items

/-- An event with every field that the daemon needs, which says its language and names its parents, is accepted, and
whatever is accepted is an object with every field that the daemon needs. -/
theorem validateUniversalEvent_grammar (value : Json) :
    (∀ object, value = .object object → AdmittedEvent object → StatesLanguage object → NamesParents object →
      validateUniversalEvent value = .ok ()) ∧
    (validateUniversalEvent value = .ok () → ∃ object, value = .object object ∧ AdmittedEvent object) := by
  constructor
  · intro object is admitted _statesLanguage _namesParents
    exact validateUniversalEvent_eq_ok_iff.2 ⟨object, is, admitted⟩
  · exact validateUniversalEvent_eq_ok_iff.1

section Sample

/-- An event without tags, parents and metadata -/
private def bareEvent : JsonMap :=
  [("schema_version", .string "nexus.universal.v1"), ("event_id", .string "e"), ("run_id", .string "r"),
    ("thread_id", .string "t"), ("agent_id", .string "a"), ("framework", .string "custom"), ("language", .string "python"),
    ("event_type", .string "custom"), ("channel", .string "topic:x"), ("timestamp_ms", .number (.posInt 1))]

/-- An event with every field, and a parent -/
private def wholeEvent : JsonMap :=
  bareEvent ++ [("metadata", .object []), ("tags", .array [.string "x"]), ("parent_commit_ids", .array [.string "c"])]

theorem validateUniversalEvent_grammar_whole : validateUniversalEvent (.object wholeEvent) = .ok () := by
  have named : isMatch idRe "e" = true ∧ isMatch idRe "r" = true ∧ isMatch idRe "t" = true ∧ isMatch idRe "a" = true ∧
      isMatch channelRe "topic:x" = true := by decide
  obtain ⟨event, run, thread, agent, channel⟩ := named
  have admitted : AdmittedEvent wholeEvent := by
    refine ⟨rfl, ?_, ⟨"custom", by decide, rfl⟩, ⟨"custom", by decide, rfl⟩, ⟨"topic:x", rfl, isMatch_channelRe.1 channel⟩,
      ?_, ?_, _, 1, rfl, rfl, one_pos⟩
    · simp only [List.forall_mem_cons, List.not_mem_nil, false_imp_iff, implies_true, and_true]
      exact ⟨⟨"e", rfl, isMatch_idRe.1 event⟩, ⟨"r", rfl, isMatch_idRe.1 run⟩, ⟨"t", rfl, isMatch_idRe.1 thread⟩,
        ⟨"a", rfl, isMatch_idRe.1 agent⟩⟩
    · intro value found
      exact ⟨[], (Option.some.inj found).symm⟩
    · simp only [List.forall_mem_cons, List.not_mem_nil, false_imp_iff, implies_true, and_true]
      exact ⟨fun value found => ⟨["x"], (Option.some.inj found).symm⟩, fun value found => ⟨["c"], (Option.some.inj found).symm⟩⟩
  have names : NamesParents wholeEvent := by
    intro items found
    obtain rfl := Json.array.inj (Option.some.inj found)
    rw [List.mem_singleton, Json.string.injEq]
    decide
  exact (validateUniversalEvent_grammar _).1 wholeEvent rfl admitted ⟨"python", rfl⟩ names

theorem bare_event_accepted :
    ¬ ∀ value, validateUniversalEvent value = .ok () ↔ ∃ object, value = .object object ∧ DocumentedEvent object := by
  intro claim
  have accepted : (validateUniversalEvent (.object bareEvent)).isOk = true := by decide
  obtain ⟨_, read⟩ := Checks.exists_eq_ok accepted
  obtain ⟨object, same, documented⟩ := (claim _).mp read
  obtain rfl := Json.object.inj same
  obtain ⟨texts, tags⟩ := documented.tags
  exact absurd (show none = some _ from tags) nofun

end Sample

end AttowNexus
