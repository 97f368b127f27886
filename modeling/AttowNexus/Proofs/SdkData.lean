import AttowNexus.Proofs.Diff
import AttowNexus.Proofs.SdkEvents
import AttowNexus.Proofs.TypeScriptAdapters

/-! # What an SDK sends of an event

Conversion cuts the long strings of a payload and writes its data as JSON. Both SDKs convert, and what the daemon then
asks of the fields and of the metadata is a condition on the event as the user wrote it.
-/

namespace AttowNexus

section Cut

variable {P : String → Prop} {text : String} {sent : SentEvent} {plain object : JsonMap}

/-- What is cut has a bracket. -/
theorem truncated_iff (unmarked : ∀ text, P text → '[' ∉ text.toList) :
    P (Python.Value.truncated text) ↔ P text ∧ text.length ≤ 4000 := by
  rw [Python.Value.truncated]
  split_ifs with short
  · exact (and_iff_left short).symm
  · refine iff_of_false (fun holds => unmarked _ holds ?_) fun both => short both.2
    rw [String.toList_append]
    exact List.mem_append_right _ (by decide)

theorem unmarked_of_known {text : String} (known : text ∈ "nexus.universal.v1" :: (frameworks ++ eventTypes)) :
    '[' ∉ text.toList ∧ text.length ≤ 4000 := by
  have checked : ∀ text ∈ "nexus.universal.v1" :: (frameworks ++ eventTypes),
      '[' ∉ text.toList ∧ text.length ≤ 4000 := by decide +kernel
  exact checked text known

namespace SentEvent

/-- The fields of an event whose long strings are cut -/
def cut (sent : SentEvent) : SentEvent where
  schemaVersion := Python.Value.truncated sent.schemaVersion
  eventId := Python.Value.truncated sent.eventId
  runId := Python.Value.truncated sent.runId
  threadId := Python.Value.truncated sent.threadId
  agentId := Python.Value.truncated sent.agentId
  framework := Python.Value.truncated sent.framework
  eventType := Python.Value.truncated sent.eventType
  channel := Python.Value.truncated sent.channel
  tags := sent.tags
  parentCommitIds := sent.parentCommitIds
  timestampMs := Python.cutField sent.timestampMs

/-- The ids and the channel are no longer than what is not cut. -/
def Short (sent : SentEvent) : Prop := ∀ text ∈ sent.channel :: sent.ids, text.length ≤ 4000

theorem cut_admitted_iff : sent.cut.Admitted ↔ sent.Admitted ∧ sent.Short := by
  have known : ∀ {P : String → Prop} {text : String},
      (∀ text, P text → text ∈ "nexus.universal.v1" :: (frameworks ++ eventTypes)) →
        (P (Python.Value.truncated text) ↔ P text) := by
    intro P text listed
    rw [truncated_iff fun text holds => (unmarked_of_known (listed text holds)).1]
    exact and_iff_left_of_imp fun holds => (unmarked_of_known (listed text holds)).2
  have version : sent.cut.schemaVersion = "nexus.universal.v1" ↔ sent.schemaVersion = "nexus.universal.v1" :=
    known (P := (· = "nexus.universal.v1")) fun _ same => same ▸ List.mem_cons_self
  have framework : sent.cut.framework ∈ frameworks ↔ sent.framework ∈ frameworks :=
    known (P := (· ∈ frameworks)) fun _ member => List.mem_cons_of_mem _ (List.mem_append_left _ member)
  have eventType : sent.cut.eventType ∈ eventTypes ↔ sent.eventType ∈ eventTypes :=
    known (P := (· ∈ eventTypes)) fun _ member => List.mem_cons_of_mem _ (List.mem_append_right _ member)
  have ids : (∀ text ∈ sent.cut.ids, IsId text) ↔ ∀ text ∈ sent.ids, IsId text ∧ text.length ≤ 4000 := by
    simp only [SentEvent.ids, cut, List.forall_mem_cons, truncated_iff fun _ named => (IsId.plain named).unmarked,
      List.not_mem_nil, false_imp_iff, implies_true]
  have channel : IsChannel sent.cut.channel ↔ IsChannel sent.channel ∧ sent.channel.length ≤ 4000 :=
    truncated_iff fun _ named => (IsChannel.plain named).unmarked
  have timed : sent.cut.Timed ↔ sent.Timed := by
    have number : ∀ number, Python.cutField sent.timestampMs = .number number ↔ sent.timestampMs = .number number := by
      intro number
      cases sent.timestampMs <;> simp [Python.cutField]
    simp only [Timed, cut, number]
  rw [Short, List.forall_mem_cons]
  constructor
  · intro admitted
    have named := ids.mp admitted.ids
    exact ⟨⟨version.mp admitted.schemaVersion, fun text member => (named text member).1, framework.mp admitted.framework,
      eventType.mp admitted.eventType, (channel.mp admitted.channel).1, timed.mp admitted.timed⟩,
      (channel.mp admitted.channel).2, fun text member => (named text member).2⟩
  · rintro ⟨admitted, short, shorts⟩
    exact ⟨version.mpr admitted.schemaVersion, ids.mpr fun text member => ⟨admitted.ids text member, shorts text member⟩,
      framework.mpr admitted.framework, eventType.mpr admitted.eventType, channel.mpr ⟨admitted.channel, short⟩,
      timed.mpr admitted.timed⟩

/-- Redaction does not make the ids and the channel of an admitted event shorter. -/
theorem redacted_short_iff {engine : RegexEngine} (admitted : (sent.redacted engine).Admitted) :
    (sent.redacted engine).Short ↔ sent.Short := by
  have id : ∀ {text}, IsId (Sdk.redactText engine text) → Sdk.redactText engine text = text := by
    intro text named
    obtain ⟨whole, secretless⟩ := (redactText_iff fun _ => IsId.plain).mp named
    exact redactText_of_secretless whole.plain secretless
  have channel : Sdk.redactText engine sent.channel = sent.channel := by
    obtain ⟨whole, secretless⟩ := (redactText_iff fun _ => IsChannel.plain).mp admitted.channel
    exact redactText_of_secretless whole.plain secretless
  have named := admitted.ids
  simp only [SentEvent.ids, redacted, List.forall_mem_cons] at named
  obtain ⟨event, run, thread, agent, _⟩ := named
  simp only [Short, SentEvent.ids, redacted, id event, id run, id thread, id agent, channel]

end SentEvent

theorem get_cut {key : String} : JsonMap.get key (plain.map fun member => (member.1, Python.cutField member.2)) =
    (JsonMap.get key plain).map Python.cutField := by
  induction plain with
  | nil => rfl
  | cons member rest ih =>
    obtain ⟨name, value⟩ := member
    rw [List.map_cons, JsonMap.get_cons, JsonMap.get_cons, ih]
    split_ifs <;> rfl

theorem Carries.cut (carries : Carries plain sent) :
    Carries (plain.map fun member => (member.1, Python.cutField member.2)) sent.cut := by
  have found : ∀ {key : String} {value : Json}, JsonMap.get key plain = some value →
      JsonMap.get key (plain.map fun member => (member.1, Python.cutField member.2)) = some (Python.cutField value) := by
    intro key value there
    rw [get_cut, there]
    rfl
  exact ⟨found carries.schemaVersion, found carries.eventId, found carries.runId, found carries.threadId,
    found carries.agentId, found carries.framework, found carries.eventType, found carries.channel, found carries.tags,
    found carries.parentCommitIds, found carries.timestampMs⟩

theorem Carries.mono (carries : Carries plain sent)
    (found : ∀ key value, plain.get key = some value → object.get key = some value) : Carries object sent :=
  ⟨found _ _ carries.schemaVersion, found _ _ carries.eventId, found _ _ carries.runId, found _ _ carries.threadId,
    found _ _ carries.agentId, found _ _ carries.framework, found _ _ carries.eventType, found _ _ carries.channel,
    found _ _ carries.tags, found _ _ carries.parentCommitIds, found _ _ carries.timestampMs⟩

end Cut

namespace Python

open Checks

/-- The members that hold no data of the user -/
structure PlainMembers (timestampMs : ℕ) (plain : JsonMap) : Prop where
  sent : ∀ member ∈ plain, SentField timestampMs member.2
  distinct : (plain.map (·.1)).Nodup
  apart : ∀ member ∈ plain, member.1 ∉ dataFields

section Plain

variable {fields : UniversalAgentEvent} {timestampMs : ℕ} {plain : JsonMap}

theorem PlainMembers.cut (members : PlainMembers timestampMs plain) :
    PlainMembers timestampMs (plain.map fun member => (member.1, cutField member.2)) := by
  refine ⟨fun member inside => ?_, ?_, fun member inside => ?_⟩
  · obtain ⟨old, there, rfl⟩ := List.mem_map.mp inside
    exact (members.sent old there).cut
  · rw [List.map_map]
    exact members.distinct
  · obtain ⟨old, there, rfl⟩ := List.mem_map.mp inside
    exact members.apart old there

theorem UniversalAgentEvent.Dataless.plainMembers (dataless : fields.Dataless) :
    PlainMembers fields.timestampMs fields.plainDump := by
  refine ⟨fun member inside => ?_, modelDumpExcludeNone_nodup.sublist (List.filter_sublist.map _),
    fun _ inside => of_decide_eq_true (List.mem_filter.mp inside).2⟩
  obtain ⟨dumped, apart⟩ := List.mem_filter.mp inside
  obtain ⟨listed, given⟩ := List.mem_filter.mp dumped
  have apart : member.1 ∉ dataFields := of_decide_eq_true apart
  have other : member.1 ≠ "metadata" := fun same => apart (same ▸ by decide)
  rcases dataless.flat member listed other with nothing | sent
  · rw [nothing] at given
    cases given
  · exact sent

theorem carries_plainDump : Carries fields.plainDump fields.sent :=
  carries_of_modelDump fun _ _ apart there => (JsonMap.get_filter_keys _ fun _ => decide_eq_true apart).trans there

end Plain

/-- Members of an object that stand beside those of an event -/
structure BesideMembers (members : JsonMap) : Prop where
  distinct : (members.map (·.1)).Nodup
  named : ∀ member ∈ members, member.1 ∈ dataFields
  metadata : ∀ member ∈ members, member.1 = "metadata" → ∃ object, member.2 = .object object

section Objects

variable {Obj Exc : Type} {interpreter : Interpreter Obj Exc} {room : ℕ} {converted : List (Value Obj × Value Obj)}
  {members plain : JsonMap}

theorem DataEntries.toMembers (data : DataEntries converted)
    (run : Value.toMembers interpreter (room + 1) converted = some members) : BesideMembers members := by
  have each := Value.forall₂_toMembers run
  have keys : converted.map (·.1) = members.map (fun member => (.str member.1 : Value Obj)) := by
    have named := data.named
    clear data run
    induction each with
    | nil => rfl
    | @cons entry member entries members here _ ih =>
      obtain ⟨⟨name, _, key⟩, later⟩ := List.forall_mem_cons.mp named
      have text : Value.keyText interpreter entry.1 = some member.1 := here.1
      rw [key] at text
      rw [List.map_cons, List.map_cons, key, ih later, ← Option.some.inj text]
  have back : ∀ member ∈ members, ∃ entry ∈ converted, entry.1 = .str member.1 ∧
      Value.toJson interpreter (room + 1) entry.2 = some member.2 := by
    have named := data.named
    clear data run keys
    induction each with
    | nil => exact fun _ absent => absurd absent List.not_mem_nil
    | @cons entry member entries members here _ ih =>
      obtain ⟨⟨name, _, key⟩, later⟩ := List.forall_mem_cons.mp named
      have text : Value.keyText interpreter entry.1 = some member.1 := here.1
      rw [key] at text
      rw [List.forall_mem_cons]
      refine ⟨⟨entry, List.mem_cons_self, ?_, here.2⟩, fun other inside => ?_⟩
      · rw [key, ← Option.some.inj text]
      · obtain ⟨old, there, same⟩ := ih later other inside
        exact ⟨old, List.mem_cons_of_mem _ there, same⟩
  refine ⟨?_, fun member inside => ?_, fun member inside named => ?_⟩
  · have distinct := data.distinct
    rw [keys] at distinct
    exact List.Nodup.of_map (fun name => (.str name : Value Obj)) (by rwa [List.map_map])
  · obtain ⟨entry, there, key, _⟩ := back member inside
    obtain ⟨name, known, same⟩ := data.named entry there
    exact Value.str.inj (same.symm.trans key) ▸ known
  · obtain ⟨entry, there, key, written⟩ := back member inside
    obtain ⟨inner, dictionary⟩ := data.metadata entry there (named ▸ key)
    rw [dictionary] at written
    obtain ⟨object, _, same⟩ := Value.toJson_dict_iff.1 written
    exact ⟨_, same⟩

namespace PlainMembers

variable {timestampMs : ℕ} {sent : SentEvent} (own : PlainMembers timestampMs plain) (beside : BesideMembers members)
include own beside

theorem nodup_append : ((plain ++ members).map (·.1)).Nodup := by
  rw [List.map_append]
  refine List.Nodup.append own.distinct beside.distinct fun name first second => ?_
  obtain ⟨member, inside, rfl⟩ := List.mem_map.mp first
  obtain ⟨other, there, same⟩ := List.mem_map.mp second
  have same : other.1 = member.1 := same
  exact own.apart member inside (same ▸ beside.named other there)

theorem carries_append (carries : Carries plain sent) : Carries (JsonMap.ofMembers (plain ++ members)) sent := by
  refine carries.mono fun key value there => ?_
  rw [JsonMap.get_ofMembers (own.nodup_append beside), JsonMap.get_append, there]
  rfl

theorem metadata_append : MetadataObject (JsonMap.ofMembers (plain ++ members)) := by
  intro value found
  have none : JsonMap.get "metadata" plain = Option.none := by
    rw [JsonMap.get_eq_none_iff]
    intro inside
    obtain ⟨member, there, same⟩ := List.mem_map.mp inside
    have same : member.1 = "metadata" := same
    exact own.apart member there (same ▸ by decide)
  rw [JsonMap.get_ofMembers (own.nodup_append beside), JsonMap.get_append, none, Option.none_or] at found
  exact beside.metadata _ (JsonMap.mem_of_get found) rfl

end PlainMembers

/-- A payload of fields and data is accepted when the fields are admitted and the data is written as JSON. -/
theorem PlainMembers.accepted_iff {timestampMs : ℕ} {sent : SentEvent} (own : PlainMembers timestampMs plain)
    (carries : Carries plain sent) (data : DataEntries converted) :
    (∃ json, Value.toJson interpreter (room + 2) (.dict (Value.ofMembers plain ++ converted)) = some json ∧
      validateUniversalEvent json = .ok ()) ↔
      sent.Admitted ∧ ∃ json, Value.toJson interpreter (room + 2) (.dict converted) = some json := by
  have valid : ∀ members, Value.toMembers interpreter (room + 1) converted = some members →
      (validateUniversalEvent (.object (JsonMap.ofMembers (plain ++ members))) = .ok () ↔ sent.Admitted) := by
    intro members written
    have beside := data.toMembers written
    exact (own.carries_append beside carries).accepted_iff.trans (and_iff_left (own.metadata_append beside))
  constructor
  · rintro ⟨json, written, accepted⟩
    obtain ⟨joined, both, rfl⟩ := Value.toJson_dict_iff.1 written
    obtain ⟨first, members, same, made, rfl⟩ := Value.toMembers_append.1 both
    obtain rfl : plain = first := Option.some.inj ((toMembers_ofMembers own.sent).symm.trans same)
    exact ⟨(valid members made).mp accepted, _, Value.toJson_dict_iff.2 ⟨members, made, rfl⟩⟩
  · rintro ⟨admitted, json, written⟩
    obtain ⟨members, made, _⟩ := Value.toJson_dict_iff.1 written
    have both := Value.toMembers_append.2 ⟨plain, members, toMembers_ofMembers own.sent, made, rfl⟩
    exact ⟨_, Value.toJson_dict_iff.2 ⟨_, both, rfl⟩, (valid members made).mpr admitted⟩

theorem mem_ofMembers_of_mem {member : String × Json} (inside : member ∈ plain) :
    ((.str member.1, Value.ofJson member.2) : Value Obj × Value Obj) ∈ Value.ofMembers plain := by
  induction plain with
  | nil => exact absurd inside List.not_mem_nil
  | cons first rest ih =>
    rcases List.mem_cons.mp inside with rfl | later
    · exact List.mem_cons_self
    · exact List.mem_cons_of_mem _ (ih later)

/-- What the data of a payload is converted to is under the same names. -/
theorem DataEntries.safeJsonable {kept : List (Value Obj × Value Obj)} {payload : Value Obj} {fuel : ℕ}
    (data : DataEntries kept) (run : Value.safeJsonable interpreter (fuel + 1) (.dict kept) = .ok payload) :
    ∃ converted, payload = .dict converted ∧ DataEntries converted := by
  rw [safeJsonable_dict] at run
  split at run
  · exact ⟨kept, (Except.ok.inj run).symm, data⟩
  · obtain ⟨pairs, converts, same⟩ := bind_eq_ok_iff.1 run
    obtain ⟨_, made⟩ := data.converted converts
    rw [setEntries_of_dataEntries made] at same
    exact ⟨_, (Except.ok.inj same).symm, made⟩
  · cases run

end Objects

section Data

variable {Obj Exc : Type} {interpreter : Interpreter Obj Exc} {engine : RegexEngine} {pydantic : Pydantic Obj Exc}
  {data : EventData Obj} {entries : List (String × Value Obj)} {fuel : ℕ} {value : Value Obj}

theorem names_of_dumpEntries {given : List (String × Value Obj)} (run : dumpEntries pydantic given = .ok entries) :
    entries.map (·.1) = given.map (·.1) := by
  have each := mapM_eq_ok_iff.1 run
  clear run
  induction each with
  | nil => rfl
  | cons here _ ih =>
    obtain ⟨child, _, rfl⟩ := map_eq_ok_iff.1 here
    rw [List.map_cons, List.map_cons, ih]

/-- The dumped data of an event: a value under each name, and a dictionary for the metadata -/
theorem EventData.modelDump_entries (run : data.modelDump pydantic = .ok entries) : entries.map (·.1) = dataFields ∧
    ∀ entry ∈ entries, entry.1 = "metadata" → ∃ members, entry.2 = .dict members := by
  simp only [EventData.modelDump, bind_eq_ok_iff, Except.ok.injEq] at run
  obtain ⟨plain, dumped, messages, _, error, _, metadata, _, rfl⟩ := run
  have names := names_of_dumpEntries dumped
  constructor
  · rw [List.map_append, names]
    rfl
  · intro entry inside same
    rcases List.mem_append.mp inside with first | second
    · have listed : "metadata" ∈ plain.map (·.1) := same ▸ List.mem_map_of_mem first
      rw [names] at listed
      exact absurd listed (by simp)
    · simp only [List.mem_cons, List.not_mem_nil, or_false] at second
      rcases second with rfl | rfl | rfl
      · exact absurd (show "messages" = "metadata" from same) (by decide)
      · exact absurd (show "error" = "metadata" from same) (by decide)
      · exact ⟨_, rfl⟩

/-- Redaction keeps the names, and the metadata a dictionary. -/
theorem dataEntries_of_redact (names : entries.map (·.1) = dataFields)
    (metadata : ∀ entry ∈ entries, entry.1 = "metadata" → ∃ members, entry.2 = .dict members)
    (run : Value.redact interpreter engine fuel (Value.ofEntries entries) = .ok value) :
    ∃ redacted, value = .dict redacted ∧ DataEntries (withoutNone redacted) := by
  obtain ⟨redacted, rfl, each⟩ := Value.dict_of_redact run
  have keys : redacted.map (·.1) = (Value.textEntries entries).map (·.1) := by
    generalize Value.textEntries entries = given at each
    clear run
    induction each with
    | nil => rfl
    | cons here _ ih => rw [List.map_cons, List.map_cons, here.1, ih]
  have listed : (Value.textEntries entries).map (·.1) = dataFields.map (.str : String → Value Obj) := by
    rw [← names, Value.textEntries, List.map_map, List.map_map]
    rfl
  have distinct : (redacted.map (·.1)).Nodup := by
    rw [keys, listed]
    exact List.Nodup.map (fun _ _ same => Value.str.inj same) (by decide)
  refine ⟨redacted, rfl, distinct.sublist (List.filter_sublist.map _), fun entry inside => ?_, fun entry inside key => ?_⟩
  · have member : entry.1 ∈ redacted.map (·.1) := List.mem_map_of_mem (List.mem_filter.mp inside).1
    rw [keys, listed] at member
    obtain ⟨name, known, same⟩ := List.mem_map.mp member
    exact ⟨name, known, same.symm⟩
  · have back : ∀ other ∈ redacted, other.1 = .str "metadata" → ∃ members, other.2 = .dict members := by
      have whole : ∀ old ∈ Value.textEntries entries, old.1 = .str "metadata" → ∃ members, old.2 = .dict members := by
        intro old there same
        obtain ⟨entry, member, rfl⟩ := List.mem_map.mp there
        exact metadata entry member (Value.str.inj same)
      clear keys listed distinct run inside
      generalize Value.textEntries entries = given at each whole
      induction each with
      | nil => exact fun _ absent => absurd absent List.not_mem_nil
      | cons here _ ih =>
        obtain ⟨first, later⟩ := List.forall_mem_cons.mp whole
        rw [List.forall_mem_cons]
        refine ⟨fun same => ?_, ih later⟩
        have key := here.1.symm.trans same
        obtain ⟨members, dictionary⟩ := first key
        obtain ⟨changed, kept | ⟨text, named, secret⟩⟩ := here.2 members dictionary
        · exact ⟨changed, kept⟩
        · obtain rfl := Value.str.inj (named.symm.trans key)
          exact absurd secret (by decide)
    exact back entry (List.mem_filter.mp inside).1 key

end Data

end Python

end AttowNexus
