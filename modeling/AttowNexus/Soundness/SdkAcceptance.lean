import AttowNexus.Proofs.SdkPayloads

/-! # What the SDKs accept and the daemon

An SDK redacts an event after it has checked it, and the Python SDK derives the channel of an event after it has
checked it too. So the daemon accepts the payload of an event when nothing in its ids and its channel is redacted, and
when a derived channel fits the pattern.
-/

namespace AttowNexus

/-- The text of a string; anything else has none. -/
def givenText (given : Option Json) : String := (given.bind Json.asStr).getD ""

/-- A channel is given, or derived from an event whose ids are clean. -/
theorem channel_iff (given toolName eventType : String) {framework runId threadId : String} (framed : framework ∈ frameworks)
    (run : IsId runId ∧ Secretless runId) (thread : IsId threadId ∧ Secretless threadId) :
    (IsChannel (if given = "" then derivedChannel toolName eventType framework runId threadId else given) ∧
      Secretless (if given = "" then derivedChannel toolName eventType framework runId threadId else given)) ↔
      (given ≠ "" → IsChannel given ∧ Secretless given) ∧ (given = "" → IsName toolName ∧ Secretless toolName) := by
  have named : IsChannel (derivedChannel toolName eventType framework runId threadId) ↔ IsName toolName :=
    isChannel_derivedChannel_iff framed run.1.name thread.1.name
  split_ifs with bare
  · rw [named, and_iff_right (fun given => absurd bare given), forall_prop_of_true bare]
    refine and_congr_right fun tool => ?_
    exact secretless_derivedChannel_iff framed ⟨run.1.name, run.2⟩ ⟨thread.1.name, thread.2⟩ tool
  · rw [forall_prop_of_true bare]
    exact (and_iff_left fun given => absurd given bare).symm

/-- Of a channel that fits the pattern, what was given decides whether a secret is in it. -/
theorem secretless_channel_iff (given toolName eventType : String) {framework runId threadId : String}
    (framed : framework ∈ frameworks) (run : IsId runId ∧ Secretless runId) (thread : IsId threadId ∧ Secretless threadId)
    (fits : IsChannel (if given = "" then derivedChannel toolName eventType framework runId threadId else given)) :
    Secretless (if given = "" then derivedChannel toolName eventType framework runId threadId else given) ↔
      Secretless given ∧ (given = "" → Secretless toolName) := by
  split_ifs at fits ⊢ with bare
  · have tool := (isChannel_derivedChannel_iff framed run.1.name thread.1.name).mp fits
    rw [secretless_derivedChannel_iff framed ⟨run.1.name, run.2⟩ ⟨thread.1.name, thread.2⟩ tool, forall_prop_of_true bare,
      bare, and_iff_right clean_empty.secretless]
  · exact (and_iff_left fun given => absurd given bare).symm

namespace Python

variable {engine : RegexEngine} {ambient later : SdkAmbient} {kwargs : JsonMap} {event read : UniversalAgentEvent}

/-- The ids that are given are whole and hold no secret, and neither does the channel; a channel is derived from a tool
only when the characters of its name allow it; and the timestamp fits into 63 bits. -/
structure Sendable (ambient : SdkAmbient) (kwargs : JsonMap) : Prop where
  ids : ∀ field ∈ ["event_id", "run_id", "thread_id", "agent_id"], ∀ text, kwargs.get field = some (.string text) →
    IsId text ∧ Secretless text
  channel : givenText (kwargs.get "channel") ≠ "" →
    IsChannel (givenText (kwargs.get "channel")) ∧ Secretless (givenText (kwargs.get "channel"))
  tool : givenText (kwargs.get "channel") = "" →
    IsName (givenText (kwargs.get "tool_name")) ∧ Secretless (givenText (kwargs.get "tool_name"))
  now : kwargs.get "timestamp_ms" = none → 0 < ambient.now ∧ ambient.now ≤ 9223372036854775807
  timestamp : ∀ ms : ℕ, kwargs.get "timestamp_ms" = some (.number (.posInt ms)) → ms ≤ 9223372036854775807

theorem channelForEvent_modelDump (bare : read.channel = "") : channelForEvent read.modelDump =
    derivedChannel (read.toolName.getD "") read.eventType read.framework read.runId read.threadId := by
  have given : textAt read.modelDump "channel" = read.channel := rfl
  have tool : textAt read.modelDump "tool_name" = read.toolName.getD "" := by
    change ((some (UniversalAgentEvent.ofOptionalStr read.toolName)).bind Json.asStr).getD "" = _
    cases read.toolName <;> rfl
  rw [channelForEvent, given, tool, if_neg (not_not.mpr bare), derivedChannel]
  rfl

theorem ReadsStr.iff_given {P : String → Prop} {given : Option Json} {default : Option String} {validator : Validator}
    {value : String} (reads : ReadsStr given default validator value) (generated : ∀ text, default = some text → P text) :
    P value ↔ ∀ text, given = some (.string text) → P text := by
  rcases reads with ⟨rfl, made⟩ | ⟨rfl, _⟩
  · exact iff_of_true (generated value made) nofun
  · simp only [Option.some.injEq, Json.string.injEq, forall_eq']

theorem Reads.ids_iff (reads : Reads ambient kwargs read) : (∀ text ∈ read.sent.ids, IsId text ∧ Secretless text) ↔
    ∀ field ∈ ["event_id", "run_id", "thread_id", "agent_id"], ∀ text, kwargs.get field = some (.string text) →
      IsId text ∧ Secretless text := by
  have generated : ∀ text, some (newId "evt" ambient.eventUuid) = some text → IsId text ∧ Secretless text := by
    intro text made
    rw [← Option.some.inj made]
    exact generated_id fun c member => mem_hexDigits member
  have required : ∀ {given : Option Json} {validator : Validator} {value : String}, ReadsStr given none validator value →
      (IsId value ∧ Secretless value ↔ ∀ text, given = some (.string text) → IsId text ∧ Secretless text) :=
    fun reads => reads.iff_given (P := fun text => IsId text ∧ Secretless text) nofun
  simp only [SentEvent.ids, UniversalAgentEvent.sent, List.forall_mem_cons, List.not_mem_nil, false_imp_iff, implies_true,
    reads.eventId.iff_given generated, required reads.runId, required reads.threadId, required reads.agentId]

/-- What has been read of the channel and of the tool -/
theorem Reads.channel_eq (reads : Reads ambient kwargs read) : read.channel = givenText (kwargs.get "channel") := by
  rcases reads.channel with ⟨absent, made⟩ | ⟨given, _⟩
  · rw [absent, ← Option.some.inj made]
    rfl
  · rw [given]
    rfl

theorem Reads.toolName_eq (reads : Reads ambient kwargs read) :
    read.toolName.getD "" = givenText (kwargs.get "tool_name") := by
  have tool := reads.toolName
  cases given : kwargs.get "tool_name" with
  | none =>
    rw [given] at tool
    cases named : read.toolName with
    | none => rfl
    | some name =>
      rw [named] at tool
      cases tool
  | some value =>
    rw [given, Option.getD_some] at tool
    rw [tool]
    cases read.toolName <;> rfl

theorem Reads.timed_iff (reads : Reads ambient kwargs read) : read.sent.Timed ↔
    (kwargs.get "timestamp_ms" = none → 0 < ambient.now ∧ ambient.now ≤ 9223372036854775807) ∧
      ∀ ms : ℕ, kwargs.get "timestamp_ms" = some (.number (.posInt ms)) → ms ≤ 9223372036854775807 := by
  have own : read.sent.Timed ↔ 0 < read.timestampMs ∧ read.timestampMs ≤ 9223372036854775807 := by
    constructor
    · rintro ⟨number, ms, same, value, positive⟩
      obtain rfl := Json.number.inj same
      rw [JsonNumber.asI64] at value
      split_ifs at value with fits
      have value : (read.timestampMs : ℤ) = ms := Option.some.inj value
      omega
    · rintro ⟨positive, fits⟩
      exact ⟨_, (read.timestampMs : ℤ), rfl, if_pos fits, by omega⟩
  rw [own]
  rcases reads.timestampMs with ⟨absent, same⟩ | ⟨true_, same⟩ | ⟨given, positive⟩
  · rw [same, absent, forall_prop_of_true rfl]
    exact (and_iff_left (by rintro _ ⟨⟩)).symm
  · rw [true_, same]
    exact iff_of_true (by decide) ⟨by rintro ⟨⟩, by rintro _ ⟨⟩⟩
  · rw [given, and_iff_right positive]
    refine Iff.trans ?_ (and_iff_right (by rintro ⟨⟩)).symm
    simp only [Option.some.injEq, Json.number.injEq, JsonNumber.posInt.injEq, forall_eq']

theorem Reads.schemaVersion_eq (reads : Reads ambient kwargs read) : read.schemaVersion = "nexus.universal.v1" := by
  rcases reads.schemaVersion with ⟨_, made⟩ | ⟨_, passes⟩
  · exact (Option.some.inj made).symm
  · rw [validSchemaVersion] at passes
    split_ifs at passes with same
    exact not_not.mp same

theorem Reads.framework_mem (reads : Reads ambient kwargs read) : read.framework ∈ frameworks := by
  rcases reads.framework with ⟨_, made⟩ | ⟨_, passes⟩
  · cases made
  · rw [validFramework] at passes
    split_ifs at passes with known
    rw [Bool.not_eq_false] at known
    exact List.contains_iff_mem.mp known

theorem Reads.parents_named (reads : Reads ambient kwargs read) : "" ∉ read.parentCommitIds := by
  rcases reads.parentCommitIds with ⟨_, empty⟩ | ⟨_, full⟩
  · exact empty ▸ List.not_mem_nil
  · exact full

theorem Reads.effective_channel (reads : Reads ambient kwargs read) :
    (if read.channel = "" then channelForEvent read.modelDump else read.channel) =
      if givenText (kwargs.get "channel") = "" then
        derivedChannel (givenText (kwargs.get "tool_name")) read.eventType read.framework read.runId read.threadId
      else givenText (kwargs.get "channel") := by
  rw [← reads.channel_eq, ← reads.toolName_eq]
  split_ifs with bare
  · exact channelForEvent_modelDump bare
  · rfl

theorem parents_of_normalized (normalized : normalizeEvent ambient kwargs = .ok event) : "" ∉ event.parentCommitIds := by
  obtain ⟨read, reads, whole⟩ := normalizeEvent_eq_ok_iff.1 normalized
  rw [whole]
  exact reads.parents_named

/-- The redacted fields pass the checks of the daemon when what was given can be sent. -/
theorem admitted_iff_sendable (normalized : normalizeEvent ambient kwargs = .ok event) :
    (event.sent.redacted engine).Admitted ↔ Sendable ambient kwargs := by
  obtain ⟨read, reads, whole⟩ := normalizeEvent_eq_ok_iff.1 normalized
  rw [reads.effective_channel] at whole
  have ids : event.sent.ids = read.sent.ids := congrArg (·.sent.ids) whole
  have timed : event.sent.Timed ↔ read.sent.Timed := iff_of_eq (congrArg (·.sent.Timed) whole)
  have channel := congrArg (·.sent.channel) whole
  have version : event.sent.schemaVersion = _ := (congrArg (·.sent.schemaVersion) whole).trans reads.schemaVersion_eq
  have framed : event.sent.framework ∈ frameworks := by
    rw [whole]
    exact reads.framework_mem
  have typed : event.sent.eventType ∈ eventTypes := by
    rw [whole]
    exact reads.eventType.2
  rw [SentEvent.redacted_admitted_iff version framed typed, ids, timed, reads.timed_iff, channel]
  have sent : (∀ text ∈ read.sent.ids, IsId text ∧ Secretless text) → _ := fun each =>
    channel_iff (givenText (kwargs.get "channel")) (givenText (kwargs.get "tool_name")) read.eventType reads.framework_mem
      (each read.runId (by simp [SentEvent.ids, UniversalAgentEvent.sent]))
      (each read.threadId (by simp [SentEvent.ids, UniversalAgentEvent.sent]))
  constructor
  · rintro ⟨each, named, now, timestamp⟩
    obtain ⟨given, tool⟩ := (sent each).mp named
    exact ⟨reads.ids_iff.mp each, given, tool, now, timestamp⟩
  · intro sendable
    have each := reads.ids_iff.mpr sendable.ids
    exact ⟨each, (sent each).mpr ⟨sendable.channel, sendable.tool⟩, sendable.now, sendable.timestamp⟩

/-- The payload of an event without data of the user is made and accepted when the fields can be sent. -/
theorem payload_accepted_iff_sendable (normalized : normalizeEvent ambient kwargs = .ok event) :
    (∃ payload, eventToJsonPayload engine later event = .ok payload ∧
      validateUniversalEvent (.ofMembers payload) = .ok ()) ↔ Sendable ambient kwargs :=
  (payload_accepted_iff (parents_of_normalized normalized)).trans (admitted_iff_sendable normalized)

end Python

namespace TypeScript

variable {engine : RegexEngine} {numbers : DoubleFormat} {ambient : SdkAmbient} {input : JsonMap}
  {event read : UniversalAgentEvent}

/-- The ids that are given and the channel hold no secret, nor does the tool that a channel is derived from; and the
timestamp is written as an integer of 63 bits. -/
structure Sendable (numbers : DoubleFormat) (ambient : SdkAmbient) (input : JsonMap) : Prop where
  ids : ∀ names ∈ [("eventId", "event_id"), ("runId", "run_id"), ("threadId", "thread_id"), ("agentId", "agent_id")],
    ∀ text, readBoth input names.1 names.2 = some (.string text) → Secretless text
  channel : Secretless (givenText (input.get "channel"))
  tool : givenText (input.get "channel") = "" → Secretless (givenText (readBoth input "toolName" "tool_name"))
  timestamp : ∀ number,
    orElse (readBoth input "timestampMs" "timestamp_ms") (some (.number (.posInt ambient.now))) = some (.number number) →
      ∃ written ms, numbers.rewrite number = .number written ∧ written.asI64 = some ms ∧ 0 < ms

theorem channelForEvent_eq : channelForEvent read = if read.channel = "" then
    derivedChannel (read.toolName.getD "") read.eventType read.framework read.runId read.threadId else read.channel := by
  have tool : read.toolName.any (· ≠ "") = true ↔ read.toolName.getD "" ≠ "" := by
    cases read.toolName <;> simp
  by_cases bare : read.channel = ""
  · rw [channelForEvent, if_neg (not_not.mpr bare), if_pos bare, derivedChannel]
    simp only [tool, List.mem_cons, List.not_mem_nil, or_false]
  · rw [channelForEvent, if_pos bare, if_neg bare]

/-- What is read, if it is not made up, is the text that is given. -/
theorem orElse_iff_given {P : String → Prop} {given fallback : Option Json} {value : String}
    (reads : orElse given fallback = some (.string value)) (generated : ∀ text, fallback = some (.string text) → P text) :
    P value ↔ ∀ text, given = some (.string text) → P text := by
  cases given with
  | none => exact iff_of_true (generated value reads) nofun
  | some json =>
    cases json with
    | null => exact iff_of_true (generated value reads) nofun
    | string text =>
      obtain rfl := Json.string.inj (Option.some.inj reads)
      simp only [Option.some.injEq, Json.string.injEq, forall_eq']
    | _ => cases reads

theorem ReadsOptional.eq_given {given : Option Json} {value : Option String} (reads : ReadsOptional given value) :
    value.getD "" = givenText given := by
  cases value with
  | none =>
    rcases reads with absent | rfl
    · cases given with
      | none => rfl
      | some json =>
        rw [Option.getD_some] at absent
        rw [absent]
        rfl
    · rfl
  | some text =>
    rw [reads.1]
    rfl

theorem Reads.secretless_ids_iff (reads : Reads numbers ambient input read) :
    (∀ text ∈ (read.sent numbers).ids, Secretless text) ↔
      ∀ names ∈ [("eventId", "event_id"), ("runId", "run_id"), ("threadId", "thread_id"), ("agentId", "agent_id")],
        ∀ text, readBoth input names.1 names.2 = some (.string text) → Secretless text := by
  have generated : ∀ text, some (Json.string ("evt_" ++ String.ofList (ambient.randomId.map fun digit =>
      Nat.digitChar digit.val))) = some (.string text) → Secretless text := by
    intro text made
    rw [← Json.string.inj (Option.some.inj made)]
    refine (generated_id fun c member => ?_).2
    obtain ⟨digit, _, rfl⟩ := List.mem_map.mp member
    exact digitChar_mem digit digit.isLt
  have required : ∀ {given : Option Json} {value : String}, orElse given none = some (.string value) →
      (Secretless value ↔ ∀ text, given = some (.string text) → Secretless text) :=
    fun reads => orElse_iff_given reads nofun
  simp only [SentEvent.ids, UniversalAgentEvent.sent, List.forall_mem_cons, List.not_mem_nil, false_imp_iff, implies_true,
    orElse_iff_given reads.eventId.1 generated, required reads.runId.1, required reads.threadId.1, required reads.agentId.1]

theorem Reads.timed_iff (reads : Reads numbers ambient input read) : (read.sent numbers).Timed ↔ ∀ number,
    orElse (readBoth input "timestampMs" "timestamp_ms") (some (.number (.posInt ambient.now))) = some (.number number) →
      ∃ written ms, numbers.rewrite number = .number written ∧ written.asI64 = some ms ∧ 0 < ms := by
  rw [reads.timestampMs.1]
  simp only [Option.some.injEq, Json.number.injEq, forall_eq']
  rfl

theorem Reads.effective_channel (reads : Reads numbers ambient input read) : channelForEvent read =
    if givenText (input.get "channel") = "" then derivedChannel (givenText (readBoth input "toolName" "tool_name"))
      read.eventType read.framework read.runId read.threadId else givenText (input.get "channel") := by
  obtain ⟨channel, given, same⟩ := reads.channel
  rw [channelForEvent_eq, reads.toolName.eq_given, same, given.eq_given]

/-- The redacted fields pass the checks of the daemon when what was given can be sent. -/
theorem admitted_iff_sendable (normalized : normalizeEvent numbers ambient input = .ok event) :
    ((event.sent numbers).redacted engine).Admitted ↔ Sendable numbers ambient input := by
  obtain ⟨read, reads, whole, valid⟩ := normalizeEvent_eq_ok_iff.1 normalized
  rw [reads.effective_channel] at whole
  have ids : (event.sent numbers).ids = (read.sent numbers).ids := congrArg (fun event => (event.sent numbers).ids) whole
  have timed : (event.sent numbers).Timed ↔ (read.sent numbers).Timed :=
    iff_of_eq (congrArg (fun event => (event.sent numbers).Timed) whole)
  have channel := congrArg (·.channel) whole
  have typed : event.eventType ∈ eventTypes := by
    rw [whole]
    exact reads.eventType.2
  have named : ∀ text ∈ (read.sent numbers).ids, IsId text := by
    rw [← ids]
    simp only [SentEvent.ids, UniversalAgentEvent.sent, List.forall_mem_cons]
    exact ⟨valid.eventId, valid.runId, valid.threadId, valid.agentId, fun _ none => absurd none List.not_mem_nil⟩
  have run : IsId read.runId := named _ (by simp [SentEvent.ids, UniversalAgentEvent.sent])
  have thread : IsId read.threadId := named _ (by simp [SentEvent.ids, UniversalAgentEvent.sent])
  have framed : read.framework ∈ frameworks := by
    have kept := valid.framework
    rwa [whole] at kept
  have fits := valid.channel
  rw [SentEvent.redacted_admitted_iff valid.schemaVersion valid.framework typed,
    ids, timed, reads.timed_iff]
  change _ ∧ (IsChannel event.channel ∧ Secretless event.channel) ∧ _ ↔ _
  rw [and_iff_right fits, channel]
  rw [channel] at fits
  have sent : (∀ text ∈ (read.sent numbers).ids, Secretless text) → _ := fun each =>
    secretless_channel_iff _ _ _ framed ⟨run, each read.runId (by simp [SentEvent.ids, UniversalAgentEvent.sent])⟩
      ⟨thread, each read.threadId (by simp [SentEvent.ids, UniversalAgentEvent.sent])⟩ fits
  constructor
  · rintro ⟨each, secretless, timestamp⟩
    have each := fun text member => (each text member).2
    obtain ⟨given, tool⟩ := (sent each).mp secretless
    exact ⟨reads.secretless_ids_iff.mp each, given, tool, timestamp⟩
  · intro sendable
    have each := reads.secretless_ids_iff.mpr sendable.ids
    exact ⟨fun text member => ⟨named text member, each text member⟩, (sent each).mpr ⟨sendable.channel, sendable.tool⟩,
      sendable.timestamp⟩

end TypeScript

end AttowNexus
