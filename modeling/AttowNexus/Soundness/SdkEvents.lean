import AttowNexus.Proofs.SdkData
import AttowNexus.Proofs.TypeScriptAdapters

/-! # Which events the daemon accepts

Of the events that an SDK accepts, the daemon accepts those whose fields can be sent and whose data survives the way to
JSON. The fields are checked by three validators and are redacted after the SDK has checked them; the data is copied,
redacted and converted, and any of these can go wrong.
-/

namespace AttowNexus

namespace TypeScript

open Checks NexusAdapterContext

variable {Obj : Type} {shapes : Shapes Obj} {world : AdapterWorld Obj} {ambient : SdkAmbient} {input : UserInput Obj}
  {event : AdapterEvent Obj}

/-- The fields and the data of an event that was normalized -/
structure Normalized (numbers : DoubleFormat) (ambient : SdkAmbient) (input : UserInput Obj) (event : AdapterEvent Obj) :
    Prop where
  fields : normalizeEvent numbers ambient input.plain = .ok event.fields
  names : event.data.map (·.1) = dataFields

theorem normalized_of_ok {numbers : DoubleFormat} (run : input.normalizeEvent shapes numbers ambient = .ok event) :
    Normalized numbers ambient input event := by
  simp only [UserInput.normalizeEvent, bind_eq_ok_iff, Except.ok.injEq] at run
  obtain ⟨fields, normalized, messages, _, error, _, metadata, _, rfl⟩ := run
  exact ⟨normalized, rfl⟩

/-- The fields have no data. -/
theorem entries_of_normalized {numbers : DoubleFormat} {fields : UniversalAgentEvent}
    (normalized : normalizeEvent numbers ambient input.plain = .ok fields) :
    ∀ name ∈ ["input", "output", "delta", "messages", "error"], (name, none) ∈ fields.entries := by
  obtain ⟨read, reads, rfl, _⟩ := normalizeEvent_eq_ok_iff.1 normalized
  have bare : ∀ name ∈ dataFields, input.plain.get name = none := input.apart
  have given := reads.input
  have output := reads.output
  have delta := reads.delta
  have messages := reads.messages
  have error := reads.error
  rw [bare _ (by decide)] at given output delta messages error
  have messages : read.messages = none := by
    cases found : read.messages with
    | none => rfl
    | some items =>
      rw [found] at messages
      cases messages
  have error : read.error = none := by
    cases found : read.error with
    | none => rfl
    | some members =>
      rw [found] at error
      cases error
  intro name member
  simp only [List.mem_cons, List.not_mem_nil, or_false] at member
  rcases member with rfl | rfl | rfl | rfl | rfl
  · simp [UniversalAgentEvent.entries, ← given]
  · simp [UniversalAgentEvent.entries, ← output]
  · simp [UniversalAgentEvent.entries, ← delta]
  · simp [UniversalAgentEvent.entries, messages]
  · simp [UniversalAgentEvent.entries, error]

/-- The properties of a payload that hold no data -/
def plainPayload (world : AdapterWorld Obj) (fields : UniversalAgentEvent) : JsonMap :=
  (eventToCheckpointPayload world.engine world.numbers fields).filter fun member => member.1 ≠ "metadata"

theorem plainPayload_apart {numbers : DoubleFormat} {fields : UniversalAgentEvent} {name : String}
    (normalized : normalizeEvent numbers ambient input.plain = .ok fields) (data : name ∈ dataFields) :
    name ∉ (plainPayload world fields).map (·.1) := by
  by_cases metadata : name = "metadata"
  · intro inside
    obtain ⟨member, kept, rfl⟩ := List.mem_map.mp inside
    exact of_decide_eq_true (List.mem_filter.mp kept).2 metadata
  · have other : name ∈ ["input", "output", "delta", "messages", "error"] := by
      simp only [dataFields, List.mem_cons, List.not_mem_nil, or_false] at data ⊢
      tauto
    have pair : (name, name) ∈ payloadProperties := by
      simp only [List.mem_cons, List.not_mem_nil, or_false] at other
      rcases other with rfl | rfl | rfl | rfl | rfl <;> decide
    rw [← JsonMap.get_eq_none_iff, plainPayload, JsonMap.get_filter_keys _ fun _ => decide_eq_true metadata,
      get_eventToCheckpointPayload pair, get_properties (entries_of_normalized normalized name other)]
    rfl

theorem names_of_copies {runtime : Runtime Obj} {given : List (String × EventData Obj)}
    {data : List (String × Option Json)} (copied : copies runtime given = .ok data) :
    data.map (·.1) = given.map (·.1) := by
  have each := mapM_eq_ok_iff.1 copied
  clear copied
  induction each with
  | nil => rfl
  | cons here _ ih =>
    obtain ⟨json, _, rfl⟩ := map_eq_ok_iff.1 here
    rw [List.map_cons, List.map_cons, ih]

theorem sentData_eq {engine : RegexEngine} {data : List (String × Option Json)} : sentData engine data =
    (data.map fun entry => (entry.1, entry.2.map (Sdk.redactValue engine))).filterMap
      fun entry => entry.2.map (Prod.mk entry.1) := by
  rw [List.filterMap_map, sentData]
  refine congrArg (fun sends => List.filterMap sends data) (funext fun entry => ?_)
  obtain ⟨name, json⟩ := entry
  cases json <;> rfl

theorem redactValue_object_iff {engine : RegexEngine} {json : Json} :
    (∃ members, Sdk.redactValue engine json = .object members) ↔ ∃ members, json = .object members := by
  cases json <;> simp [Sdk.redactValue]

/-- The metadata of an event, if it is sent, is sent as an object. -/
def MetadataSent (data : List (String × Option Json)) : Prop :=
  ∀ json, ("metadata", some json) ∈ data → ∃ members, json = .object members

theorem metadataObject_iff {engine : RegexEngine} {plain : JsonMap} {data : List (String × Option Json)}
    (names : data.map (·.1) = dataFields) (apart : "metadata" ∉ plain.map (·.1)) :
    (∀ value, JsonMap.get "metadata" (plain ++ sentData engine data) = some value → ∃ members, value = .object members) ↔
      MetadataSent data := by
  have distinct : ((data.map fun entry => (entry.1, entry.2.map (Sdk.redactValue engine))).map (·.1)).Nodup := by
    rw [List.map_map]
    exact names ▸ (by decide : dataFields.Nodup)
  have listed : "metadata" ∈ data.map (·.1) := by
    rw [names]
    decide
  obtain ⟨⟨name, json⟩, member, same⟩ := List.mem_map.mp listed
  obtain rfl : name = "metadata" := same
  have only : ∀ other, ("metadata", other) ∈ data → other = json := by
    intro other inside
    have nodup : (data.map (·.1)).Nodup := names ▸ (by decide : dataFields.Nodup)
    exact congrArg Prod.snd (List.inj_on_of_nodup_map nodup inside member rfl)
  have found : JsonMap.get "metadata" (plain ++ sentData engine data) = json.map (Sdk.redactValue engine) := by
    rw [JsonMap.get_append, JsonMap.get_eq_none_iff.2 apart, Option.none_or, sentData_eq]
    exact get_filterMap distinct (List.mem_map.mpr ⟨_, member, rfl⟩)
  rw [found]
  constructor
  · intro object value inside
    obtain rfl := only _ inside
    exact redactValue_object_iff.1 (object _ rfl)
  · intro object value read
    obtain ⟨own, rfl, rfl⟩ := Option.map_eq_some_iff.mp read
    exact redactValue_object_iff.2 (object own member)

/-- The payload of an event is made and accepted when its fields can be sent, its data can be copied, and the copy of the
metadata, if there is one, is an object. -/
theorem userPayload_accepted_iff (normalized : input.normalizeEvent shapes world.numbers ambient = .ok event) :
    (∃ payload, checkpointPayload world event = .ok payload ∧ validateUniversalEvent (.ofMembers payload) = .ok ()) ↔
      Sendable world.numbers ambient input.plain ∧ ∃ data, copies world.runtime event.data = .ok data ∧
        MetadataSent data := by
  obtain ⟨fields, names⟩ := normalized_of_ok normalized
  have accepted : ∀ data, copies world.runtime event.data = .ok data →
      (validateUniversalEvent (.ofMembers (plainPayload world event.fields ++ sentData world.engine data)) = .ok () ↔
        Sendable world.numbers ambient input.plain ∧ MetadataSent data) := by
    intro data copied
    have dataNames : data.map (·.1) = dataFields := (names_of_copies copied).trans names
    have kept : ∀ name ∈ (sentData world.engine data).map (·.1), name ∈ dataFields := by
      intro name member
      have sub : ((sentData world.engine data).map (·.1)).Sublist dataFields := by
        rw [sentData_eq, ← dataNames]
        have keys := keys_filterMap_sublist (data.map fun entry => (entry.1, entry.2.map (Sdk.redactValue world.engine)))
        rwa [List.map_map] at keys
      exact sub.subset member
    have sub : ((sentData world.engine data).map (·.1)).Nodup := by
      rw [sentData_eq]
      refine (keys_filterMap_sublist _).nodup ?_
      rw [List.map_map]
      exact dataNames ▸ (by decide : dataFields.Nodup)
    have distinct : ((plainPayload world event.fields ++ sentData world.engine data).map (·.1)).Nodup := by
      rw [List.map_append]
      refine List.Nodup.append (keys_eventToCheckpointPayload_nodup.sublist (List.filter_sublist.map _)) sub ?_
      exact fun name first second => plainPayload_apart fields (kept name second) first
    have carries : Carries (JsonMap.ofMembers (plainPayload world event.fields ++ sentData world.engine data))
        ((event.fields.sent world.numbers).redacted world.engine) := by
      refine carries_of_payload fun key value apart found => ?_
      have other : key ≠ "metadata" := by
        rintro rfl
        exact apart (by decide)
      rw [JsonMap.get_ofMembers distinct, JsonMap.get_append, plainPayload,
        JsonMap.get_filter_keys _ fun _ => decide_eq_true other, found]
      rfl
    rw [carries.accepted_iff, admitted_iff_sendable fields, MetadataObject, JsonMap.get_ofMembers distinct,
      metadataObject_iff dataNames (plainPayload_apart fields (by decide))]
  constructor
  · rintro ⟨payload, sends, valid⟩
    obtain ⟨data, copied, same⟩ := bind_eq_ok_iff.1 sends
    obtain rfl := Except.ok.inj same
    obtain ⟨sendable, metadata⟩ := (accepted data copied).mp valid
    exact ⟨sendable, data, copied, metadata⟩
  · rintro ⟨sendable, data, copied, metadata⟩
    exact ⟨_, bind_eq_ok_iff.2 ⟨data, copied, rfl⟩, (accepted data copied).mpr ⟨sendable, metadata⟩⟩

end TypeScript

namespace Python

open Checks

variable {Obj Exc : Type} {interpreter : Interpreter Obj Exc} {pydantic : Pydantic Obj Exc} {engine : RegexEngine}
  {ambient later : SdkAmbient} {kwargs : EventKwargs Obj} {event : UserEvent Obj}

theorem EventKwargs.fields_of_normalized (normalized : kwargs.normalizeEvent pydantic ambient = .ok event) :
    Python.normalizeEvent ambient kwargs.plain = .ok event.fields := by
  simp only [EventKwargs.normalizeEvent, bind_eq_ok_iff, Except.ok.injEq] at normalized
  obtain ⟨fields, read, messages, _, error, _, metadata, _, rfl⟩ := normalized
  exact read

theorem EventKwargs.dataless (kwargs : EventKwargs Obj) {fields : UniversalAgentEvent}
    (normalized : Python.normalizeEvent ambient kwargs.plain = .ok fields) : fields.Dataless := by
  obtain ⟨read, reads, whole⟩ := normalizeEvent_eq_ok_iff.1 normalized
  have bare : ∀ name ∈ dataFields, kwargs.plain.get name = none := kwargs.apart
  have input := reads.input
  have output := reads.output
  have delta := reads.delta
  have messages := reads.messages
  have error := reads.error
  rw [bare _ (by decide)] at input output delta messages error
  rw [whole]
  refine ⟨input.symm, output.symm, delta.symm, ?_, ?_⟩
  · cases found : read.messages with
    | none => rfl
    | some items =>
      rw [found] at messages
      cases messages
  · cases found : read.error with
    | none => rfl
    | some members =>
      rw [found] at error
      cases error

/-- The data of an event can be sent: it is copied, its dictionaries have strings for keys, and what redaction leaves of it
is converted to JSON. It needs no conversion, or the other fields are short. -/
structure EventData.Sendable (interpreter : Interpreter Obj Exc) (engine : RegexEngine) (short : Prop)
    (entries : List (String × Value Obj)) : Prop where
  copied : Value.deepcopy interpreter interpreter.recursionLimit [] (Value.ofEntries entries) = .ok ()
  walkable : Value.Walkable interpreter interpreter.recursionLimit (Value.ofEntries entries)
  converted : ∀ redacted, Value.redact interpreter engine interpreter.recursionLimit (Value.ofEntries entries) =
    .ok (.dict redacted) →
      ∃ converted json, Value.safeJsonable interpreter interpreter.recursionLimit (.dict (withoutNone redacted)) =
          .ok converted ∧ Value.toJson interpreter interpreter.recursionLimit converted = some json
  uncut : ∀ redacted, Value.redact interpreter engine interpreter.recursionLimit (Value.ofEntries entries) =
    .ok (.dict redacted) →
      Value.dumps interpreter interpreter.recursionLimit [] (.dict (withoutNone redacted)) = .ok () ∨ short

/-- Whether data can be sent, once it is redacted -/
theorem EventData.sendable_iff {short : Prop} {entries : List (String × Value Obj)} {redacted : List (Value Obj × Value Obj)}
    (redacts : Value.redact interpreter engine interpreter.recursionLimit (Value.ofEntries entries) = .ok (.dict redacted)) :
    EventData.Sendable interpreter engine short entries ↔
      Value.deepcopy interpreter interpreter.recursionLimit [] (Value.ofEntries entries) = .ok () ∧
        (∃ converted json, Value.safeJsonable interpreter interpreter.recursionLimit (.dict (withoutNone redacted)) =
          .ok converted ∧ Value.toJson interpreter interpreter.recursionLimit converted = some json) ∧
        (Value.dumps interpreter interpreter.recursionLimit [] (.dict (withoutNone redacted)) = .ok () ∨ short) := by
  constructor
  · rintro ⟨copied, _, converted, uncut⟩
    exact ⟨copied, converted redacted redacts, uncut redacted redacts⟩
  · rintro ⟨copied, converted, uncut⟩
    have only : ∀ other, Value.redact interpreter engine interpreter.recursionLimit (Value.ofEntries entries) =
        .ok (.dict other) → other = redacted :=
      fun other same => Value.dict.inj (Except.ok.inj (same.symm.trans redacts))
    refine ⟨copied, Value.isOk_redact_iff.1 (congrArg Except.isOk redacts), fun other same => ?_, fun other same => ?_⟩
    · obtain rfl := only other same
      exact converted
    · obtain rfl := only other same
      exact uncut

/-- The steps to a payload, none of which raises -/
theorem eventToCheckpointPayload_eq_ok_iff {payload : Value Obj} :
    event.eventToCheckpointPayload interpreter pydantic engine later = .ok payload ↔
      ∃ entries redacted, event.data.modelDump pydantic = .ok entries ∧
        Value.deepcopy interpreter interpreter.recursionLimit [] (Value.ofEntries entries) = .ok () ∧
        Value.redact interpreter engine interpreter.recursionLimit (Value.ofEntries entries) = .ok (.dict redacted) ∧
        redactEvent engine later event.fields = .ok (event.fields.redacted engine) ∧
        Value.safeJsonable interpreter interpreter.recursionLimit
          (.dict (Value.ofMembers (event.fields.redacted engine).plainDump ++ withoutNone redacted)) = .ok payload := by
  constructor
  · intro made
    obtain ⟨entries, dumps, made⟩ := bind_eq_ok_iff.1 made
    obtain ⟨_, copies, made⟩ := bind_eq_ok_iff.1 made
    obtain ⟨value, redacts, made⟩ := bind_eq_ok_iff.1 made
    obtain ⟨clean, checked, converts⟩ := bind_eq_ok_iff.1 made
    have checked := mapError_eq_ok_iff.1 checked
    obtain ⟨_, rfl⟩ := UniversalAgentEvent.redactEvent_eq_ok_iff.1 checked
    obtain ⟨names, metadata⟩ := EventData.modelDump_entries dumps
    obtain ⟨redacted, rfl, _⟩ := dataEntries_of_redact names metadata redacts
    exact ⟨entries, redacted, dumps, copies, redacts, checked, converts⟩
  · rintro ⟨entries, redacted, dumps, copies, redacts, checked, converts⟩
    exact bind_eq_ok_iff.2 ⟨entries, dumps, bind_eq_ok_iff.2 ⟨(), copies, bind_eq_ok_iff.2 ⟨_, redacts,
      bind_eq_ok_iff.2 ⟨_, mapError_eq_ok_iff.2 checked, converts⟩⟩⟩⟩

/-- A timestamp that is too long to be printed is not converted. -/
theorem prints_of_safeJsonable {plain : JsonMap} {kept : List (Value Obj × Value Obj)} {payload : Value Obj} {room ms : ℕ}
    (limit : interpreter.recursionLimit = room + 2) (member : ("timestamp_ms", .number (.posInt ms)) ∈ plain)
    (run : Value.safeJsonable interpreter interpreter.recursionLimit (.dict (Value.ofMembers plain ++ kept)) = .ok payload) :
    interpreter.prints ms = true := by
  have inside : ((.str "timestamp_ms", .int ms) : Value Obj × Value Obj) ∈ Value.ofMembers plain ++ kept :=
    List.mem_append_left _ (mem_ofMembers_of_mem member)
  by_contra long
  have fails : ∀ fuel, Value.dumps interpreter (fuel + 1) [] (.int ms) = .error .valueError := fun _ => if_neg long
  rw [limit, safeJsonable_dict, limit] at run
  rcases dumped : Value.dumps interpreter (room + 2) [] (.dict (Value.ofMembers plain ++ kept)) with raised | ⟨⟩
  · rw [dumped] at run
    cases raised with
    | typeError =>
      obtain ⟨pairs, converts, _⟩ := bind_eq_ok_iff.1 run
      obtain ⟨pair, _, converted⟩ := (mem_of_mapM converts).2 _ inside
      obtain ⟨_, converted⟩ := convertEntry_named rfl converted
      have raises : Value.safeJsonable interpreter (room + 1) (.int ms) = .error .valueError := by
        simp only [Value.safeJsonable]
        rw [limit, fails]
      cases raises.symm.trans converted
    | _ => cases run
  · obtain ⟨_, _, printed⟩ := bind_eq_ok_iff.1 (forM_eq_ok_iff.1 dumped _ inside)
    cases (fails room).symm.trans printed

/-- What is sent is accepted when the fields are admitted and the data can be sent. -/
theorem userPayload_accepted_iff_admitted {room : ℕ} (limit : interpreter.recursionLimit = room + 2)
    (prints : interpreter.prints event.fields.timestampMs = true) (dataless : event.fields.Dataless)
    (parents : "" ∉ event.fields.parentCommitIds) :
    (∃ payload json, event.eventToCheckpointPayload interpreter pydantic engine later = .ok payload ∧
      payload.toJson interpreter interpreter.recursionLimit = some json ∧ validateUniversalEvent json = .ok ()) ↔
      (event.fields.sent.redacted engine).Admitted ∧
        ∃ entries, event.data.modelDump pydantic = .ok entries ∧
          EventData.Sendable interpreter engine event.fields.sent.Short entries := by
  have bare : (event.fields.redacted engine).Dataless := dataless.redacted
  have own : PlainMembers event.fields.timestampMs (event.fields.redacted engine).plainDump := bare.plainMembers
  have carries : Carries (event.fields.redacted engine).plainDump (event.fields.sent.redacted engine) := carries_plainDump
  have short : (event.fields.sent.redacted engine).cut.Admitted ↔
      (event.fields.sent.redacted engine).Admitted ∧ event.fields.sent.Short :=
    SentEvent.cut_admitted_iff.trans (and_congr_right SentEvent.redacted_short_iff)
  constructor
  · rintro ⟨payload, json, made, written, accepted⟩
    obtain ⟨entries, redacted, dumps, copies, redacts, checked, converts⟩ := eventToCheckpointPayload_eq_ok_iff.1 made
    obtain ⟨names, metadata⟩ := EventData.modelDump_entries dumps
    obtain ⟨_, whole, data⟩ := dataEntries_of_redact names metadata redacts
    obtain rfl := Value.dict.inj whole
    obtain ⟨converted, sentPlain, run, rfl, cases⟩ :=
      (safeJsonable_append_iff own.sent prints own.distinct own.apart data limit).1 converts
    have conversion := run
    rw [limit] at conversion written
    obtain ⟨_, same, under⟩ := data.safeJsonable conversion
    obtain rfl := Value.dict.inj same
    have sendable : ∀ json, Value.toJson interpreter (room + 2) (.dict converted) = some json →
        Value.dumps interpreter interpreter.recursionLimit [] (.dict (withoutNone redacted)) = .ok () ∨
          event.fields.sent.Short → EventData.Sendable interpreter engine event.fields.sent.Short entries :=
      fun json written brief => (EventData.sendable_iff redacts).2 ⟨copies, ⟨_, json, run, limit ▸ written⟩, brief⟩
    rcases cases with ⟨dumped, rfl⟩ | ⟨_, rfl⟩
    · obtain ⟨admitted, json, other⟩ := (own.accepted_iff carries under).1 ⟨json, written, accepted⟩
      exact ⟨admitted, entries, dumps, sendable json other (.inl dumped)⟩
    · obtain ⟨admitted, json, other⟩ := (own.cut.accepted_iff carries.cut under).1 ⟨json, written, accepted⟩
      obtain ⟨admitted, brief⟩ := short.mp admitted
      exact ⟨admitted, entries, dumps, sendable json other (.inr brief)⟩
  · rintro ⟨admitted, entries, dumps, sendable⟩
    obtain ⟨names, metadata⟩ := EventData.modelDump_entries dumps
    obtain ⟨value, redacts⟩ : ∃ value, Value.redact interpreter engine interpreter.recursionLimit
      (Value.ofEntries entries) = .ok value := exists_eq_ok (Value.isOk_redact_iff.2 sendable.walkable)
    obtain ⟨redacted, rfl, data⟩ := dataEntries_of_redact names metadata redacts
    obtain ⟨copies, ⟨value, json, run, written⟩, brief⟩ := (EventData.sendable_iff redacts).1 sendable
    have conversion := run
    rw [limit] at conversion written
    obtain ⟨converted, rfl, made⟩ := data.safeJsonable conversion
    have named : "" ∉ (event.fields.redacted engine).parentCommitIds := by
      intro member
      obtain ⟨parent, inside, empty⟩ := List.mem_map.mp member
      exact parents (redactText_eq_empty_iff.1 empty ▸ inside)
    have checked : redactEvent engine later event.fields = .ok (event.fields.redacted engine) :=
      UniversalAgentEvent.redactEvent_eq_ok_iff.2 ⟨.of_admitted admitted named, rfl⟩
    have sends : ∀ sentPlain : JsonMap,
        (Value.dumps interpreter interpreter.recursionLimit [] (.dict (withoutNone redacted)) = .ok () ∧
            sentPlain = (event.fields.redacted engine).plainDump ∨
          Value.dumps interpreter interpreter.recursionLimit [] (.dict (withoutNone redacted)) ≠ .ok () ∧
            sentPlain = (event.fields.redacted engine).plainDump.map fun member => (member.1, cutField member.2)) →
        event.eventToCheckpointPayload interpreter pydantic engine later =
          .ok (.dict (Value.ofMembers sentPlain ++ converted)) := by
      intro sentPlain cases
      exact eventToCheckpointPayload_eq_ok_iff.2 ⟨entries, redacted, dumps, copies, redacts, checked,
        (safeJsonable_append_iff own.sent prints own.distinct own.apart data limit).2
          ⟨converted, sentPlain, run, rfl, cases⟩⟩
    by_cases dumped : Value.dumps interpreter interpreter.recursionLimit [] (.dict (withoutNone redacted)) = .ok ()
    · obtain ⟨whole, wrote, accepted⟩ := (own.accepted_iff carries made).2 ⟨admitted, json, written⟩
      exact ⟨_, whole, sends _ (.inl ⟨dumped, rfl⟩), limit.symm ▸ wrote, accepted⟩
    · have cut := short.mpr ⟨admitted, brief.resolve_left dumped⟩
      obtain ⟨whole, wrote, accepted⟩ := (own.cut.accepted_iff carries.cut made).2 ⟨cut, json, written⟩
      exact ⟨_, whole, sends _ (.inr ⟨dumped, rfl⟩), limit.symm ▸ wrote, accepted⟩

/-- The payload of an event is made and accepted when its fields and its data can be sent. -/
theorem userPayload_accepted_iff {room : ℕ} (limit : interpreter.recursionLimit = room + 2)
    (prints : ∀ ms : ℕ, ms ≤ 9223372036854775807 → interpreter.prints ms = true)
    (normalized : kwargs.normalizeEvent pydantic ambient = .ok event) :
    (∃ payload json, event.eventToCheckpointPayload interpreter pydantic engine later = .ok payload ∧
      payload.toJson interpreter interpreter.recursionLimit = some json ∧ validateUniversalEvent json = .ok ()) ↔
      Sendable ambient kwargs.plain ∧ ∃ entries, event.data.modelDump pydantic = .ok entries ∧
        EventData.Sendable interpreter engine event.fields.sent.Short entries := by
  have fields := EventKwargs.fields_of_normalized normalized
  have dataless := kwargs.dataless fields
  have parents := parents_of_normalized fields
  by_cases printed : interpreter.prints event.fields.timestampMs = true
  · rw [userPayload_accepted_iff_admitted limit printed dataless parents, admitted_iff_sendable fields]
  · refine iff_of_false ?_ ?_
    · rintro ⟨payload, _, made, _⟩
      obtain ⟨_, _, _, _, _, _, converts⟩ := eventToCheckpointPayload_eq_ok_iff.1 made
      have carries : Carries (event.fields.redacted engine).plainDump (event.fields.sent.redacted engine) :=
        carries_plainDump
      exact printed (prints_of_safeJsonable limit (JsonMap.mem_of_get carries.timestampMs) converts)
    · rintro ⟨sendable, _⟩
      have admitted : (event.fields.sent.redacted engine).Admitted := (admitted_iff_sendable fields).mpr sendable
      obtain ⟨number, ms, same, read, _⟩ := admitted.timed
      obtain rfl : JsonNumber.posInt event.fields.timestampMs = number := Json.number.inj same
      rw [JsonNumber.asI64] at read
      split_ifs at read with fits
      exact printed (prints _ fits)

end Python

/-- For each SDK: of the events that it accepts, with data of any kind, the daemon accepts those whose fields and whose data
can be sent. -/
theorem sdk_event_accepted_iff {Obj Exc : Type} (ambient : SdkAmbient) :
    (∀ (interpreter : Python.Interpreter Obj Exc) (pydantic : Python.Pydantic Obj Exc) (engine : RegexEngine)
      (later : SdkAmbient) (kwargs : Python.EventKwargs Obj) (event : Python.UserEvent Obj),
      2 ≤ interpreter.recursionLimit → (∀ ms : ℕ, ms ≤ 9223372036854775807 → interpreter.prints ms = true) →
      kwargs.normalizeEvent pydantic ambient = .ok event →
        ((∃ payload json, event.eventToCheckpointPayload interpreter pydantic engine later = .ok payload ∧
          payload.toJson interpreter interpreter.recursionLimit = some json ∧ validateUniversalEvent json = .ok ()) ↔
          Python.Sendable ambient kwargs.plain ∧ ∃ entries, event.data.modelDump pydantic = .ok entries ∧
            Python.EventData.Sendable interpreter engine event.fields.sent.Short entries)) ∧
    ∀ (shapes : TypeScript.Shapes Obj) (world : TypeScript.AdapterWorld Obj) (input : TypeScript.UserInput Obj)
      (event : TypeScript.AdapterEvent Obj), input.normalizeEvent shapes world.numbers ambient = .ok event →
        ((∃ payload, TypeScript.NexusAdapterContext.checkpointPayload world event = .ok payload ∧
          validateUniversalEvent (.ofMembers payload) = .ok ()) ↔
          TypeScript.Sendable world.numbers ambient input.plain ∧
            ∃ data, TypeScript.NexusAdapterContext.copies world.runtime event.data = .ok data ∧
              TypeScript.MetadataSent data) := by
  constructor
  · intro interpreter pydantic engine later kwargs event deep prints normalized
    obtain ⟨room, limit⟩ : ∃ room, interpreter.recursionLimit = room + 2 := ⟨_, (Nat.sub_add_cancel deep).symm⟩
    exact Python.userPayload_accepted_iff limit prints normalized
  · exact fun _ _ _ _ => TypeScript.userPayload_accepted_iff

section Sample

private def oldClock : SdkAmbient := ⟨0, [], 1⟩

/-- A call of a tool, in the words of both SDKs -/
private def toolFields (toolName : String) : JsonMap :=
  [("run_id", .string "r"), ("thread_id", .string "t"), ("agent_id", .string "a"), ("framework", .string "custom"),
    ("event_type", .string "tool_start"), ("tool_name", .string toolName)]

private theorem toolFields_apart (toolName : String) : ∀ name ∈ dataFields, (toolFields toolName).get name = none := by
  simp only [dataFields, List.forall_mem_cons, List.not_mem_nil, false_imp_iff, implies_true, and_true]
  exact ⟨rfl, rfl, rfl, rfl, rfl, rfl⟩

/-- Python without objects of other classes -/
private def plainPython : Python.Interpreter Empty Empty where
  container _ := .none
  modelDump := nofun
  toDict := nofun
  isGenerator := nofun
  repr := nofun
  str _ := .ok ""
  bool := nofun
  mapping _ := .ok []
  deepcopy := nofun
  dumpsSorted _ := .ok ""
  describe _ := .ok ("", "")
  prints _ := true
  recursionLimit := 100

/-- Pydantic without models in the data -/
private def plainPydantic : Python.Pydantic Empty Empty where
  asList value := match value with
    | .list items => some items
    | _ => none
  asDict value := match value with
    | .dict [] => some []
    | _ => none
  modelDump := .ok

private def searchCall (toolName : String) (input : Python.Value Empty) : Python.EventKwargs Empty :=
  ⟨toolFields toolName, [("input", input)], toolFields_apart toolName⟩

/-- JavaScript without objects -/
private def plainWorld : TypeScript.AdapterWorld Empty where
  runtime := ⟨nofun, nofun, nofun, fun _ _ => .ok .undefined⟩
  engine := .plain
  numbers := .plain
  ambient _ := oldClock
  client _ := .resolved none
  meanwhile s := s

private def typedSearchCall (toolName : String) : TypeScript.UserInput Empty :=
  ⟨toolFields toolName, [("input", .text "lean")], toolFields_apart toolName⟩

private def query : Python.Value Empty := .dict [(.str "limit", .int 3), (.str "exact", .bool true)]

/-- The data of a search as it is dumped -/
private def dumpedQuery : List (String × Python.Value Empty) :=
  [("input", query), ("output", .none), ("delta", .none), ("messages", .none), ("error", .none), ("metadata", .dict [])]

private theorem redact_dumpedQuery : Python.Value.redact plainPython .plain 100 (Python.Value.ofEntries dumpedQuery) =
    .ok (Python.Value.ofEntries dumpedQuery) := by
  rfl

private theorem sendable_search : Python.Sendable oldClock (toolFields "search") ∧
    TypeScript.Sendable .plain oldClock (toolFields "search") := by
  have free : ∀ text ∈ ["", "r", "t", "a", "search"], Secretless text := by
    have checked : ∀ text ∈ ["", "r", "t", "a", "search"], secretless text = true := by decide
    exact fun text member => secretless_of_check (checked text member)
  have named : ∀ text ∈ ["r", "t", "a"], IsId text := by
    have checked : ∀ text ∈ ["r", "t", "a"], isMatch idRe text = true := by decide
    exact fun text member => isMatch_idRe.1 (checked text member)
  constructor
  · refine ⟨fun field member text given => ?_, fun absent => absurd rfl absent, fun _ => ⟨by decide, free _ (by decide)⟩,
      fun _ => by decide, nofun⟩
    simp only [List.mem_cons, List.not_mem_nil, or_false] at member
    rcases member with rfl | rfl | rfl | rfl
    · cases given
    · obtain rfl : "r" = text := Json.string.inj (Option.some.inj given)
      exact ⟨named _ (by decide), free _ (by decide)⟩
    · obtain rfl : "t" = text := Json.string.inj (Option.some.inj given)
      exact ⟨named _ (by decide), free _ (by decide)⟩
    · obtain rfl : "a" = text := Json.string.inj (Option.some.inj given)
      exact ⟨named _ (by decide), free _ (by decide)⟩
  · refine ⟨fun names member text given => ?_, free _ (by decide), fun _ => free _ (by decide), fun number given => ?_⟩
    · simp only [List.mem_cons, List.not_mem_nil, or_false] at member
      rcases member with rfl | rfl | rfl | rfl
      · cases given
      · obtain rfl : "r" = text := Json.string.inj (Option.some.inj given)
        exact free _ (by decide)
      · obtain rfl : "t" = text := Json.string.inj (Option.some.inj given)
        exact free _ (by decide)
      · obtain rfl : "a" = text := Json.string.inj (Option.some.inj given)
        exact free _ (by decide)
    · obtain rfl : .posInt 1 = number := Json.number.inj (Option.some.inj given)
      exact ⟨_, 1, rfl, rfl, by decide⟩

/-- A search with its query is sent from either SDK. -/
theorem sdk_event_accepted_search :
    (∃ event, (searchCall "search" query).normalizeEvent plainPydantic oldClock = .ok event ∧
      ∃ payload json, event.eventToCheckpointPayload plainPython plainPydantic .plain oldClock = .ok payload ∧
        payload.toJson plainPython 100 = some json ∧ validateUniversalEvent json = .ok ()) ∧
    ∃ event, (typedSearchCall "search").normalizeEvent ⟨nofun, nofun⟩ .plain oldClock = .ok event ∧
      ∃ payload, TypeScript.NexusAdapterContext.checkpointPayload plainWorld event = .ok payload ∧
        validateUniversalEvent (.ofMembers payload) = .ok () := by
  obtain ⟨python, typeScript⟩ := @sdk_event_accepted_iff Empty Empty oldClock
  constructor
  · have made : ∃ fields, Python.normalizeEvent oldClock (toolFields "search") = .ok fields :=
      Checks.exists_eq_ok (by decide)
    obtain ⟨fields, read⟩ := made
    have normalized : (searchCall "search" query).normalizeEvent plainPydantic oldClock =
        .ok ⟨fields, ⟨query, .none, .none, none, none, []⟩⟩ :=
      Checks.bind_eq_ok_iff.2 ⟨fields, read, rfl⟩
    have kept : ∀ redacted, Python.Value.redact plainPython .plain 100 (Python.Value.ofEntries dumpedQuery) =
        .ok (.dict redacted) → redacted = Python.Value.textEntries dumpedQuery :=
      fun _ same => Python.Value.dict.inj (Except.ok.inj (same.symm.trans redact_dumpedQuery))
    refine ⟨_, normalized, (python plainPython plainPydantic .plain oldClock _ _ (by decide) (fun _ _ => rfl)
      normalized).mpr ⟨sendable_search.1, dumpedQuery, rfl, rfl, ?_, fun redacted same => ?_, fun redacted same => ?_⟩⟩
    · exact Python.Value.isOk_redact_iff.1 (congrArg Except.isOk redact_dumpedQuery)
    · obtain rfl := kept redacted same
      exact ⟨_, _, rfl, rfl⟩
    · obtain rfl := kept redacted same
      exact .inl rfl
  · have made : ∃ fields, TypeScript.normalizeEvent .plain oldClock (toolFields "search") = .ok fields :=
      Checks.exists_eq_ok (by decide)
    obtain ⟨fields, read⟩ := made
    have normalized : (typedSearchCall "search").normalizeEvent ⟨nofun, nofun⟩ .plain oldClock = .ok ⟨fields, _⟩ :=
      Checks.bind_eq_ok_iff.2 ⟨fields, read, rfl⟩
    refine ⟨_, normalized, (typeScript ⟨nofun, nofun⟩ plainWorld _ _ normalized).mpr
      ⟨sendable_search.2, _, rfl, fun json member => ?_⟩⟩
    simp at member
    exact ⟨[], member⟩

/-- The Python SDK accepts the call of a tool with a space in its name, and then refuses to make its payload. -/
theorem spaced_tool_refused :
    ¬ ((∀ (interpreter : Python.Interpreter Empty Empty) (pydantic : Python.Pydantic Empty Empty) (engine : RegexEngine)
      (ambient later : SdkAmbient) (kwargs : Python.EventKwargs Empty) (event : Python.UserEvent Empty),
      2 ≤ interpreter.recursionLimit → (∀ ms : ℕ, ms ≤ 9223372036854775807 → interpreter.prints ms = true) →
      kwargs.normalizeEvent pydantic ambient = .ok event →
        ∃ payload json, event.eventToCheckpointPayload interpreter pydantic engine later = .ok payload ∧
          payload.toJson interpreter interpreter.recursionLimit = some json ∧ validateUniversalEvent json = .ok ()) ∧
    ∀ (ambient : SdkAmbient) (shapes : TypeScript.Shapes Empty) (world : TypeScript.AdapterWorld Empty)
      (input : TypeScript.UserInput Empty) (event : TypeScript.AdapterEvent Empty),
      input.normalizeEvent shapes world.numbers ambient = .ok event →
        ∃ payload, TypeScript.NexusAdapterContext.checkpointPayload world event = .ok payload ∧
          validateUniversalEvent (.ofMembers payload) = .ok ()) := by
  rintro ⟨python, _⟩
  obtain ⟨fields, read⟩ : ∃ fields, Python.normalizeEvent oldClock (toolFields "web search") = .ok fields :=
    Checks.exists_eq_ok (by decide)
  have normalized : (searchCall "web search" .none).normalizeEvent plainPydantic oldClock =
      .ok ⟨fields, ⟨.none, .none, .none, none, none, []⟩⟩ :=
    Checks.bind_eq_ok_iff.2 ⟨fields, read, rfl⟩
  have accepted := python plainPython plainPydantic .plain oldClock oldClock _ _ (by decide) (fun _ _ => rfl) normalized
  have sendable := ((Python.userPayload_accepted_iff (show plainPython.recursionLimit = 98 + 2 from rfl) (fun _ _ => rfl)
    normalized).mp accepted).1
  have named : IsName "web search" := (sendable.tool rfl).1
  have spaced : ¬ ∀ c ∈ "web search".toList, IsIdChar c ∨ c = '*' := by decide
  exact spaced named

end Sample

end AttowNexus
