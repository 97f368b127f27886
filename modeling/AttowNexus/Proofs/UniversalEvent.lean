import AttowNexus.Library.Checks
import AttowNexus.Model.UniversalEvent

/-! # What the checks of an event ask for

One characterization for each kind of field, and from these the events that the daemon reads, with the body it makes
of them, and the objects that it accepts.
-/

namespace AttowNexus

open Checks Regex

section Patterns

/-- A character of an id -/
def IsIdChar (c : Char) : Prop :=
  ('A' ≤ c ∧ c ≤ 'Z') ∨ ('a' ≤ c ∧ c ≤ 'z') ∨ ('0' ≤ c ∧ c ≤ '9') ∨ c = '_' ∨ c = '.' ∨ c = ':' ∨ c = '-'

instance (c : Char) : Decidable (IsIdChar c) := inferInstanceAs (Decidable (_ ∨ _))

/-- A nonempty text of letters, digits, `_`, `.`, `:` and `-` -/
def IsId (text : String) : Prop := text.toList ≠ [] ∧ ∀ c ∈ text.toList, IsIdChar c

/-- A small letter and then small letters, digits and `_` -/
def IsChannelKind (kind : List Char) : Prop :=
  ∃ first rest, kind = first :: rest ∧ ('a' ≤ first ∧ first ≤ 'z') ∧
    ∀ c ∈ rest, ('a' ≤ c ∧ c ≤ 'z') ∨ ('0' ≤ c ∧ c ≤ '9') ∨ c = '_'

/-- A kind, a colon, and a nonempty name of id characters and stars -/
def IsChannel (text : String) : Prop :=
  ∃ kind name, text.toList = kind ++ ':' :: name ∧ IsChannelKind kind ∧ name ≠ [] ∧ ∀ c ∈ name, IsIdChar c ∨ c = '*'

private theorem contains_ascii {ranges : List (Char × Char)} {c : Char} :
    Alphabet.ascii.contains false ⟨ranges, false, false⟩ c = true ↔ ∃ range ∈ ranges, range.1 ≤ c ∧ c ≤ range.2 := by
  rw [Alphabet.contains_ranges, listed, Bool.false_and, Bool.or_false, inRanges, List.any_eq_true]
  refine exists_congr fun range => and_congr_right fun _ => ?_
  rw [Bool.and_eq_true_iff, decide_eq_true_iff, decide_eq_true_iff]

private theorem between_self {c d : Char} : d ≤ c ∧ c ≤ d ↔ c = d :=
  ⟨fun both => le_antisymm both.2 both.1, fun same => same ▸ ⟨le_refl _, le_refl _⟩⟩

theorem isMatch_idRe {text : String} : isMatch idRe text = true ↔ IsId text := by
  rw [isMatch, idRe, oneOf, matchesWhole_plus_cls, IsId]
  refine and_congr_right fun _ => forall₂_congr fun c _ => ?_
  rw [contains_ascii, IsIdChar]
  simp only [List.mem_cons, List.not_mem_nil, or_false, exists_eq_or_imp,
    exists_eq_left, between_self]

theorem isMatch_channelRe {text : String} : isMatch channelRe text = true ↔ IsChannel text := by
  rw [isMatch, matchesWhole_iff (by decide), channelRe]
  simp only [matches_all_cons]
  have first_iff : ∀ c, Alphabet.ascii.contains false ⟨[('a', 'z')], false, false⟩ c = true ↔ 'a' ≤ c ∧ c ≤ 'z' := by
    intro c
    rw [contains_ascii]
    simp only [List.mem_cons, List.not_mem_nil, or_false, exists_eq_left]
  have kind_iff : ∀ c, Alphabet.ascii.contains false ⟨[('a', 'z'), ('0', '9'), ('_', '_')], false, false⟩ c = true ↔
      ('a' ≤ c ∧ c ≤ 'z') ∨ ('0' ≤ c ∧ c ≤ '9') ∨ c = '_' := by
    intro c
    rw [contains_ascii]
    simp only [List.mem_cons, List.not_mem_nil, or_false, exists_eq_or_imp, exists_eq_left, between_self]
  have name_iff : ∀ c, Alphabet.ascii.contains false ⟨[('A', 'Z'), ('a', 'z'), ('0', '9'), ('_', '_'), ('.', '.'),
      (':', ':'), ('-', '-'), ('*', '*')], false, false⟩ c = true ↔ IsIdChar c ∨ c = '*' := by
    intro c
    rw [contains_ascii, IsIdChar]
    simp only [List.mem_cons, List.not_mem_nil, or_false, exists_eq_or_imp, exists_eq_left, between_self, or_assoc]
  constructor
  · rintro ⟨_, _, whole, ⟨first, rfl, small⟩, kind, _, rfl, rest, _, _, rfl, ⟨_, rfl, colon⟩, name, _, rfl, body, rfl⟩
    obtain rfl := of_decide_eq_true colon
    obtain ⟨_, _, rest⟩ := matches_rep_cls.1 rest
    obtain ⟨full, body⟩ := matches_plus_cls.1 body
    refine ⟨first :: kind, name, ?_, ⟨first, kind, rfl, (first_iff first).mp small, fun c member => ?_⟩, full,
      fun c member => ?_⟩
    · rw [whole, List.append_nil]
      rfl
    · exact (kind_iff c).mp (rest c member)
    · exact (name_iff c).mp (body c member)
  · rintro ⟨_, name, whole, ⟨first, kind, rfl, small, rest⟩, full, body⟩
    refine ⟨[first], kind ++ ':' :: name, whole, ⟨first, rfl, (first_iff first).mpr small⟩, kind, ':' :: name, rfl, ?_,
      [':'], name, rfl, ⟨':', rfl, rfl⟩, name, [], (List.append_nil _).symm, ?_, rfl⟩
    · exact matches_rep_cls.2 ⟨Nat.zero_le _, nofun, fun c member => (kind_iff c).mpr (rest c member)⟩
    · exact matches_plus_cls.2 ⟨full, fun c member => (name_iff c).mpr (body c member)⟩

end Patterns

section Fields

variable {object : JsonMap} {allowed : String → Bool} {field message value : String}

theorem requiredString_eq_ok_iff {display : String} :
    requiredString object field display = .ok value ↔ object.get field = some (.string value) ∧ value ≠ "" := by
  rw [requiredString]
  split
  case h_1 text found =>
    split_ifs with full
    · rw [Except.ok.injEq, found, Option.some.injEq, Json.string.injEq]
      exact ⟨fun same => ⟨same, same ▸ full⟩, And.left⟩
    · rw [found, Option.some.injEq, Json.string.injEq]
      refine ⟨nofun, fun ⟨same, nonempty⟩ => absurd (same ▸ nonempty) full⟩
  case h_2 other =>
    exact ⟨nofun, fun ⟨found, _⟩ => absurd found (other _)⟩

theorem requiredChecked_eq_ok_iff :
    requiredChecked allowed object field message = .ok value ↔
      object.get field = some (.string value) ∧ value ≠ "" ∧ allowed value = true := by
  simp only [requiredChecked, bind_eq_ok_iff, ite_error_eq_ok_iff, requiredString_eq_ok_iff, Bool.not_eq_false,
    Except.ok.injEq]
  constructor
  · rintro ⟨_, ⟨found, full⟩, passes, rfl⟩
    exact ⟨found, full, passes⟩
  · exact fun ⟨found, full, passes⟩ => ⟨value, ⟨found, full⟩, passes, rfl⟩

theorem map_asStr_iff {values : List Json} {texts : List String} :
    (values.all (fun item => item.asStr.isSome) = true ∧ values.map (fun item => item.asStr.getD "") = texts) ↔
      values = texts.map .string := by
  induction values generalizing texts with
  | nil => simp [eq_comm]
  | cons head rest ih =>
    cases texts with
    | nil => simp
    | cons text texts =>
      rw [List.all_cons, Bool.and_eq_true, List.map_cons, List.cons.injEq, List.map_cons, List.cons.injEq, ← ih]
      have here : head.asStr.isSome = true ∧ head.asStr.getD "" = text ↔ head = .string text := by
        cases head <;> simp [Json.asStr]
      rw [← here]
      tauto

/-- Strings that are not empty, the way the SDKs ask for them -/
theorem map_nonempty_iff {values : List Json} {texts : List String} :
    (values.all (fun item => item.asStr.any (· ≠ "")) = true ∧ values.map (fun item => item.asStr.getD "") = texts) ↔
      values = texts.map .string ∧ "" ∉ texts := by
  induction values generalizing texts with
  | nil => cases texts <;> simp
  | cons head rest ih =>
    cases texts with
    | nil => simp
    | cons text texts =>
      rw [List.all_cons, Bool.and_eq_true, List.map_cons, List.cons.injEq, List.map_cons, List.cons.injEq, List.mem_cons]
      have here : head.asStr.any (· ≠ "") = true ∧ head.asStr.getD "" = text ↔ head = .string text ∧ text ≠ "" := by
        cases head with
        | string own =>
          simp only [Json.asStr, Option.any_some, Option.getD_some, decide_eq_true_eq, Json.string.injEq]
          exact ⟨fun ⟨full, same⟩ => ⟨same, same ▸ full⟩, fun ⟨same, full⟩ => ⟨same ▸ full, same⟩⟩
        | _ => simp [Json.asStr]
      constructor
      · rintro ⟨⟨full, others⟩, same, later⟩
        obtain ⟨is, nonempty⟩ := here.mp ⟨full, same⟩
        obtain ⟨are, absent⟩ := ih.mp ⟨others, later⟩
        exact ⟨⟨is, are⟩, fun member => member.elim (nonempty ·.symm) absent⟩
      · rintro ⟨⟨is, are⟩, absent⟩
        obtain ⟨full, same⟩ := here.mpr ⟨is, fun empty => absent (.inl empty.symm)⟩
        obtain ⟨others, later⟩ := ih.mpr ⟨are, fun member => absent (.inr member)⟩
        exact ⟨⟨full, others⟩, same, later⟩

theorem optionalStringArray_eq_ok_iff {given : Option Json} {texts : List String} :
    optionalStringArray given field = .ok texts ↔
      given = none ∧ texts = [] ∨ given = some (.array (texts.map .string)) := by
  cases given with
  | none => simp [optionalStringArray, eq_comm]
  | some value =>
    cases value with
    | array values =>
      rw [optionalStringArray, Option.some.injEq, Json.array.injEq, ← map_asStr_iff]
      split_ifs with strings
      · simp [strings]
      · simp [strings]
    | _ => simp [optionalStringArray]

theorem requiredTimestamp_eq_ok_iff {given : Option Json} {u : Unit} :
    requiredTimestamp given = .ok u ↔
      ∃ number ms, given = some (.number number) ∧ number.asI64 = some ms ∧ 0 < ms := by
  cases given with
  | none => simp [requiredTimestamp]
  | some value =>
    cases value with
    | number number =>
      rw [requiredTimestamp]
      cases read : number.asI64 with
      | none => simp [read]
      | some ms => simp [read]
    | _ => simp [requiredTimestamp]

end Fields

/-- The events that the daemon reads, and the body it makes of them. -/
structure Reads (object : JsonMap) (body : UniversalEventBody) : Prop where
  schemaVersion : object.get "schema_version" = some (.string "nexus.universal.v1")
  runId : object.get "run_id" = some (.string body.runId) ∧ IsId body.runId
  threadId : object.get "thread_id" = some (.string body.threadId) ∧ IsId body.threadId
  agentId : object.get "agent_id" = some (.string body.agentId) ∧ IsId body.agentId
  eventId : ∃ eventId, object.get "event_id" = some (.string eventId) ∧ IsId eventId
  framework : object.get "framework" = some (.string body.framework) ∧ body.framework ∈ frameworks
  eventType : object.get "event_type" = some (.string body.eventType) ∧ body.eventType ∈ eventTypes
  channel : object.get "channel" = some (.string body.channel) ∧ IsChannel body.channel
  timestamp : ∃ number ms, object.get "timestamp_ms" = some (.number number) ∧ number.asI64 = some ms ∧ 0 < ms
  tags : object.get "tags" = none ∧ body.tags = [] ∨ object.get "tags" = some (.array (body.tags.map .string))
  parentCommitIds : object.get "parent_commit_ids" = none ∧ body.parentCommitIds = [] ∨
    object.get "parent_commit_ids" = some (.array (body.parentCommitIds.map .string))
  metadata : body.metadata = (object.get "metadata").getD (.object []) ∧ ∃ members, body.metadata = .object members

theorem requiredId_eq_ok_iff {object : JsonMap} {field value : String} :
    requiredId object field = .ok value ↔ object.get field = some (.string value) ∧ IsId value := by
  rw [requiredId, requiredChecked_eq_ok_iff, isMatch_idRe]
  refine and_congr_right fun _ => and_iff_right_of_imp fun named => ?_
  rintro rfl
  exact named.1 rfl

theorem asObject_eq_some_iff {value : Json} {members : JsonMap} : value.asObject = some members ↔ value = .object members := by
  cases value <;> simp [Json.asObject]

theorem not_isNone_asObject_iff {value : Json} : ¬ value.asObject.isNone = true ↔ ∃ members, value = .object members := by
  rw [Option.isNone_iff_eq_none, ← Ne, Option.ne_none_iff_exists']
  exact exists_congr fun _ => asObject_eq_some_iff

theorem tryFromValue_eq_ok_iff {value : Json} {body : UniversalEventBody} :
    UniversalEventBody.tryFromValue value = .ok body ↔ ∃ object, value = .object object ∧ Reads object body := by
  rw [UniversalEventBody.tryFromValue]
  split
  case h_1 plain =>
    refine ⟨nofun, fun ⟨object, same, _⟩ => ?_⟩
    rw [asObject_eq_some_iff.2 same] at plain
    exact absurd plain nofun
  case h_2 object is =>
    obtain rfl := asObject_eq_some_iff.1 is
    simp only [bind_eq_ok_iff, ite_error_eq_ok_iff, requiredChecked_eq_ok_iff, requiredId_eq_ok_iff,
      requiredTimestamp_eq_ok_iff, optionalStringArray_eq_ok_iff, isMatch_channelRe, not_isNone_asObject_iff,
      Except.ok.injEq, Json.object.injEq, exists_eq_left', decide_eq_true_iff, List.contains_iff_mem]
    constructor
    · rintro ⟨_, ⟨version, _, rfl⟩, runId, run, threadId, thread, agentId, agent, eventId, event, framework,
        ⟨frame, _, framed⟩, eventType, ⟨type, _, typed⟩, channel, ⟨sent, _, named⟩, _, timestamp, tags, tagged, parents,
        parented, object, rfl⟩
      exact ⟨version, run, thread, agent, ⟨eventId, event⟩, ⟨frame, framed⟩, ⟨type, typed⟩, ⟨sent, named⟩, timestamp, tagged,
        parented, rfl, object⟩
    · rintro ⟨version, run, thread, agent, ⟨eventId, event⟩, ⟨frame, framed⟩, ⟨type, typed⟩, ⟨sent, named⟩, timestamp,
        tagged, parented, kept, members⟩
      have full : ∀ {texts : List String} {text : String}, "" ∉ texts → text ∈ texts → text ≠ "" :=
        fun absent member empty => absent (empty ▸ member)
      have channel : body.channel ≠ "" := by
        intro empty
        obtain ⟨kind, name, whole, _⟩ := named
        rw [empty] at whole
        exact absurd whole.symm (List.append_ne_nil_of_right_ne_nil _ (List.cons_ne_nil _ _))
      rw [kept] at members
      refine ⟨_, ⟨version, by decide, rfl⟩, _, run, _, thread, _, agent, _, event, _, ⟨frame, full (by decide) framed, framed⟩,
        _, ⟨type, full (by decide) typed, typed⟩, _, ⟨sent, channel, named⟩, (), timestamp, _, tagged, _, parented, members, ?_⟩
      rw [← kept]

section Admission

/-- An event with every field that the daemon needs: the lists and the metadata may be missing, and the timestamp
has to fit into 63 bits. -/
structure AdmittedEvent (object : JsonMap) : Prop where
  schemaVersion : object.get "schema_version" = some (.string "nexus.universal.v1")
  ids : ∀ field ∈ ["event_id", "run_id", "thread_id", "agent_id"],
    ∃ text, object.get field = some (.string text) ∧ IsId text
  framework : ∃ text ∈ frameworks, object.get "framework" = some (.string text)
  eventType : ∃ text ∈ eventTypes, object.get "event_type" = some (.string text)
  channel : ∃ text, object.get "channel" = some (.string text) ∧ IsChannel text
  metadata : ∀ value, object.get "metadata" = some value → ∃ members, value = .object members
  lists : ∀ field ∈ ["tags", "parent_commit_ids"], ∀ value, object.get field = some value →
    ∃ texts : List String, value = .array (texts.map .string)
  timestamp : ∃ number ms, object.get "timestamp_ms" = some (.number number) ∧ number.asI64 = some ms ∧ 0 < ms

variable {object : JsonMap} {body : UniversalEventBody} {value : Json}

private theorem list_of_default {given : Option Json} {texts : List String}
    (read : given = none ∧ texts = [] ∨ given = some (.array (texts.map .string))) (value : Json)
    (found : given = some value) : ∃ texts : List String, value = .array (texts.map .string) := by
  rcases read with ⟨absent, _⟩ | there
  · exact absurd (absent.symm.trans found) nofun
  · exact ⟨texts, (Option.some.inj (there.symm.trans found)).symm⟩

private theorem default_of_list {given : Option Json}
    (strings : ∀ value, given = some value → ∃ texts : List String, value = .array (texts.map .string)) :
    ∃ texts : List String, given = none ∧ texts = [] ∨ given = some (.array (texts.map .string)) := by
  cases given with
  | none => exact ⟨[], .inl ⟨rfl, rfl⟩⟩
  | some value =>
    obtain ⟨texts, rfl⟩ := strings value rfl
    exact ⟨texts, .inr rfl⟩

theorem Reads.admitted (reads : Reads object body) : AdmittedEvent object where
  schemaVersion := reads.schemaVersion
  ids field member := by
    simp only [List.mem_cons, List.not_mem_nil, or_false] at member
    rcases member with rfl | rfl | rfl | rfl
    · exact reads.eventId
    · exact ⟨_, reads.runId⟩
    · exact ⟨_, reads.threadId⟩
    · exact ⟨_, reads.agentId⟩
  framework := ⟨_, reads.framework.2, reads.framework.1⟩
  eventType := ⟨_, reads.eventType.2, reads.eventType.1⟩
  channel := ⟨_, reads.channel⟩
  metadata value found := by
    obtain ⟨kept, members, is⟩ := reads.metadata
    rw [found, Option.getD_some] at kept
    exact ⟨members, kept.symm.trans is⟩
  lists field member := by
    simp only [List.mem_cons, List.not_mem_nil, or_false] at member
    rcases member with rfl | rfl
    · exact list_of_default reads.tags
    · exact list_of_default reads.parentCommitIds
  timestamp := reads.timestamp

theorem AdmittedEvent.reads (admitted : AdmittedEvent object) : ∃ body, Reads object body := by
  obtain ⟨runId, run⟩ := admitted.ids "run_id" (by decide)
  obtain ⟨threadId, thread⟩ := admitted.ids "thread_id" (by decide)
  obtain ⟨agentId, agent⟩ := admitted.ids "agent_id" (by decide)
  obtain ⟨framework, framed, frame⟩ := admitted.framework
  obtain ⟨eventType, typed, type⟩ := admitted.eventType
  obtain ⟨channel, sent⟩ := admitted.channel
  obtain ⟨tags, tagged⟩ := default_of_list (admitted.lists "tags" (by decide))
  obtain ⟨parents, parented⟩ := default_of_list (admitted.lists "parent_commit_ids" (by decide))
  have plain : ∃ members, (object.get "metadata").getD (.object []) = .object members := by
    cases found : object.get "metadata" with
    | none => exact ⟨[], rfl⟩
    | some value => exact admitted.metadata value found
  exact ⟨⟨runId, threadId, agentId, framework, eventType, channel, tags, parents, _⟩, admitted.schemaVersion, run, thread,
    agent, admitted.ids "event_id" (by decide), ⟨frame, framed⟩, ⟨type, typed⟩, sent, admitted.timestamp, tagged, parented,
    rfl, plain⟩

/-- The daemon accepts the objects that have every field it needs. -/
theorem validateUniversalEvent_eq_ok_iff :
    validateUniversalEvent value = .ok () ↔ ∃ object, value = .object object ∧ AdmittedEvent object := by
  simp only [validateUniversalEvent, map_eq_ok_iff, tryFromValue_eq_ok_iff, and_true]
  constructor
  · rintro ⟨body, object, rfl, reads⟩
    exact ⟨object, rfl, reads.admitted⟩
  · rintro ⟨object, rfl, admitted⟩
    obtain ⟨body, reads⟩ := admitted.reads
    exact ⟨body, object, rfl, reads⟩

end Admission

end AttowNexus
