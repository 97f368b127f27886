import AttowNexus.Model.LangGraphStream
import AttowNexus.Proofs.Recording

/-! # What a stream records, chunk by chunk

An integer under plain keys of the data of an event is still there in what the client gets. Recording an event that can
be recorded, with a client whose calls succeed, adds one commit.
-/

namespace AttowNexus

namespace Python

open Checks

variable {Obj Exc : Type}

namespace Value

section Entries

variable {entries : List (Value Obj × Value Obj)} {name other : String} {P Q : Value Obj → Prop}

/-- A dictionary with string keys has a key, and the value under it satisfies the predicate. -/
structure Keyed (name : String) (P : Value Obj → Prop) (entries : List (Value Obj × Value Obj)) : Prop where
  texts : ∀ entry ∈ entries, ∃ text, entry.1 = .str text
  exists_key : ∃ entry ∈ entries, entry.1 = .str name
  values : ∀ entry ∈ entries, entry.1 = .str name → P entry.2

theorem Keyed.entry (keyed : Keyed name P entries) : ∃ value, Value.entry name entries = some value ∧ P value := by
  obtain ⟨entry, member, key⟩ := keyed.exists_key
  obtain ⟨found, same⟩ := Option.isSome_iff_exists.mp
    (List.find?_isSome (p := fun entry => entry.1.isKey name) |>.mpr ⟨entry, member, isKey_iff.2 key⟩)
  refine ⟨found.2, by rw [Value.entry, same, Option.map_some], ?_⟩
  have here := List.find?_some same
  exact keyed.values found (List.mem_of_find?_eq_some same) (isKey_iff.1 here)

/-- Entries are set one after the other. -/
def setEntries (pairs : List (String × Value Obj)) (entries : List (Value Obj × Value Obj)) :
    List (Value Obj × Value Obj) :=
  pairs.foldl (fun entries pair => setEntry pair.1 pair.2 entries) entries

variable {pairs : List (String × Value Obj)}

theorem mem_setEntries {entry : Value Obj × Value Obj} (member : entry ∈ setEntries pairs entries) :
    (∃ pair ∈ pairs, entry = (.str pair.1, pair.2)) ∨ entry ∈ entries ∧ ∀ pair ∈ pairs, entry.1 ≠ .str pair.1 := by
  induction pairs generalizing entries with
  | nil => exact .inr ⟨member, fun _ absent => absurd absent List.not_mem_nil⟩
  | cons pair rest ih =>
    rcases ih member with ⟨later, inside, same⟩ | ⟨old, apart⟩
    · exact .inl ⟨later, List.mem_cons_of_mem _ inside, same⟩
    · rcases mem_setEntry_iff.1 old with same | ⟨older, here⟩
      · exact .inl ⟨pair, List.mem_cons_self, same⟩
      · exact .inr ⟨older, List.forall_mem_cons.mpr ⟨here, apart⟩⟩

theorem setEntries_has {key : String} (has : (∃ pair ∈ pairs, pair.1 = key) ∨ ∃ entry ∈ entries, entry.1 = .str key) :
    ∃ entry ∈ setEntries pairs entries, entry.1 = .str key := by
  induction pairs generalizing entries with
  | nil =>
    rcases has with ⟨_, absent, _⟩ | old
    · exact absurd absent List.not_mem_nil
    · exact old
  | cons pair rest ih =>
    refine ih ?_
    rcases has with ⟨first, member, rfl⟩ | ⟨entry, member, same⟩
    · rcases List.mem_cons.mp member with rfl | later
      · exact .inr ⟨_, mem_setEntry_iff.2 (.inl rfl), rfl⟩
      · exact .inl ⟨first, later, rfl⟩
    · by_cases here : pair.1 = key
      · exact .inr ⟨_, mem_setEntry_iff.2 (.inl rfl), congrArg Value.str here⟩
      · refine .inr ⟨entry, mem_setEntry_iff.2 (.inr ⟨member, ?_⟩), same⟩
        rw [same]
        exact fun wrong => here (Value.str.inj wrong).symm

/-- A value that is set is there. -/
theorem Keyed.of_setEntries (texts : ∀ entry ∈ entries, ∃ text, entry.1 = .str text)
    (has : ∃ pair ∈ pairs, pair.1 = name) (values : ∀ pair ∈ pairs, pair.1 = name → P pair.2) :
    Keyed name P (setEntries pairs entries) where
  texts entry member := by
    rcases mem_setEntries member with ⟨pair, _, rfl⟩ | ⟨old, _⟩
    · exact ⟨pair.1, rfl⟩
    · exact texts entry old
  exists_key := setEntries_has (.inl has)
  values entry member key := by
    rcases mem_setEntries member with ⟨pair, inside, rfl⟩ | ⟨_, apart⟩
    · exact values pair inside (Value.str.inj key)
    · obtain ⟨pair, inside, rfl⟩ := has
      exact absurd key (apart pair inside)

theorem Keyed.append {more : List (Value Obj × Value Obj)} (keyed : Keyed name P more)
    (texts : ∀ entry ∈ entries, ∃ text, entry.1 = .str text ∧ text ≠ name) : Keyed name P (entries ++ more) where
  texts entry member := by
    rcases List.mem_append.mp member with first | second
    · obtain ⟨text, same, _⟩ := texts entry first
      exact ⟨text, same⟩
    · exact keyed.texts entry second
  exists_key := by
    obtain ⟨entry, member, same⟩ := keyed.exists_key
    exact ⟨entry, List.mem_append_right _ member, same⟩
  values entry member key := by
    rcases List.mem_append.mp member with first | second
    · obtain ⟨text, same, apart⟩ := texts entry first
      exact absurd (Value.str.inj (same.symm.trans key)) apart
    · exact keyed.values entry second key

end Entries

section Shown

variable {interpreter : Interpreter Obj Exc} {engine : RegexEngine} {fuel : ℕ} {value result : Value Obj}
  {path : List String} {number : ℤ}

/-- The integer that a value has under these keys -/
def Shows : List String → ℤ → Value Obj → Prop
  | [], number, value => value = .int number
  | name :: rest, number, value => ∃ entries, value = .dict entries ∧ Keyed name (Shows rest number) entries

/-- `value[name]..`, where it is an integer -/
def intAt : List String → Value Obj → Option ℤ
  | [], .int number => some number
  | name :: rest, .dict entries => (Value.entry name entries).bind (intAt rest)
  | _, _ => Option.none

theorem Shows.intAt (shows : Shows path number value) : intAt path value = some number := by
  induction path generalizing value with
  | nil =>
    obtain rfl : value = .int number := shows
    rfl
  | cons name rest ih =>
    obtain ⟨entries, rfl, keyed⟩ := shows
    obtain ⟨child, found, shows⟩ := keyed.entry
    rw [Value.intAt, found, Option.bind_some, ih shows]

/-- What redaction makes of an entry of a dictionary -/
private def redactedEntry (interpreter : Interpreter Obj Exc) (engine : RegexEngine) (fuel : ℕ) :
    Value Obj × Value Obj → Except (Exn Exc) (Value Obj × Value Obj)
  | (key, child) =>
      match key with
      | .str text =>
          if Sdk.secretKey text then .ok (key, .str redactionMarker)
          else (Value.redact interpreter engine fuel child).map fun child => (key, child)
      | _ => .error .attributeError

/-- Redaction leaves an integer alone, under keys that are not secret. -/
theorem Shows.redact (plain : ∀ name ∈ path, Sdk.secretKey name = false) (shows : Shows path number value)
    (run : Value.redact interpreter engine fuel value = .ok result) : Shows path number result := by
  induction path generalizing value result fuel with
  | nil =>
    obtain rfl : value = .int number := shows
    cases fuel with
    | zero => cases run
    | succ fuel => exact (Except.ok.inj run).symm
  | cons name rest ih =>
    obtain ⟨own, plain⟩ := List.forall_mem_cons.mp plain
    obtain ⟨entries, rfl, keyed⟩ := shows
    cases fuel with
    | zero => cases run
    | succ fuel =>
      obtain ⟨redacted, converted, same⟩ := bind_eq_ok_iff.1 run
      obtain rfl := Except.ok.inj same
      obtain ⟨back, forth⟩ := mem_of_mapM converted
      have each : ∀ entry ∈ entries, ∀ other, redactedEntry interpreter engine fuel entry = .ok other →
          other.1 = entry.1 ∧ (entry.1 = .str name → Value.redact interpreter engine fuel entry.2 = .ok other.2) := by
        rintro ⟨key, child⟩ member other made
        obtain ⟨text, rfl⟩ : ∃ text, key = .str text := keyed.texts _ member
        rw [redactedEntry] at made
        split_ifs at made with secret
        · obtain rfl := Except.ok.inj made
          refine ⟨rfl, fun named => ?_⟩
          obtain rfl := Value.str.inj named
          exact absurd secret (Bool.eq_false_iff.mp own)
        · obtain ⟨child', done, rfl⟩ := map_eq_ok_iff.1 made
          exact ⟨rfl, fun _ => done⟩
      refine ⟨redacted, rfl, fun other member => ?_, ?_, fun other member key => ?_⟩
      · obtain ⟨entry, old, made⟩ := back other member
        obtain ⟨text, same⟩ := keyed.texts entry old
        exact ⟨text, (each entry old other made).1.trans same⟩
      · obtain ⟨entry, old, key⟩ := keyed.exists_key
        obtain ⟨other, new, made⟩ := forth entry old
        exact ⟨other, new, (each entry old other made).1.trans key⟩
      · obtain ⟨entry, old, made⟩ := back other member
        obtain ⟨same, redacts⟩ := each entry old other made
        exact ih plain (keyed.values entry old (same ▸ key)) (redacts (same ▸ key))

/-- So does `safe_jsonable`. -/
theorem Shows.safeJsonable (shows : Shows path number value)
    (run : Value.safeJsonable interpreter fuel value = .ok result) : Shows path number result := by
  induction path generalizing value result fuel with
  | nil =>
    obtain rfl : value = .int number := shows
    cases fuel with
    | zero => cases run
    | succ fuel =>
      simp only [Value.safeJsonable] at run
      split at run
      · exact (Except.ok.inj run).symm
      · exact (Except.ok.inj run).symm
      · cases run
  | cons name rest ih =>
    obtain ⟨entries, rfl, keyed⟩ := shows
    cases fuel with
    | zero => cases run
    | succ fuel =>
      simp only [Value.safeJsonable] at run
      split at run
      · exact ⟨entries, (Except.ok.inj run).symm, keyed⟩
      · obtain ⟨converted, done, same⟩ := bind_eq_ok_iff.1 run
        obtain rfl := Except.ok.inj same
        obtain ⟨back, forth⟩ := mem_of_mapM done
        have each : ∀ entry ∈ entries, ∀ pair : String × Value Obj, (do
            let key ← Value.print interpreter entry.1
            let child ← Value.safeJsonable interpreter fuel entry.2
            .ok (key, child)) = .ok pair →
            entry.1 = .str pair.1 ∧ Value.safeJsonable interpreter fuel entry.2 = .ok pair.2 := by
          rintro ⟨key, child⟩ member pair made
          obtain ⟨text, rfl⟩ : ∃ text, key = .str text := keyed.texts _ member
          obtain ⟨printed, prints, later⟩ := bind_eq_ok_iff.1 made
          obtain ⟨child', converts, same⟩ := bind_eq_ok_iff.1 later
          obtain rfl := Except.ok.inj same
          exact ⟨congrArg Value.str (Except.ok.inj prints), converts⟩
        have none_ : ∀ entry ∈ ([] : List (Value Obj × Value Obj)), ∃ text, entry.1 = .str text :=
          fun _ absent => absurd absent List.not_mem_nil
        refine ⟨_, rfl, Keyed.of_setEntries none_ ?_ fun pair member key => ?_⟩
        · obtain ⟨entry, old, key⟩ := keyed.exists_key
          obtain ⟨pair, new, made⟩ := forth entry old
          exact ⟨pair, new, Value.str.inj ((each entry old pair made).1.symm.trans key)⟩
        · obtain ⟨entry, old, made⟩ := back pair member
          obtain ⟨same, converts⟩ := each entry old pair made
          exact ih (keyed.values entry old (key ▸ same)) converts
      · cases run

end Shown

end Value

namespace UniversalAgentEvent

variable {event : UniversalAgentEvent}

/-- A field that is `None` is not dumped. -/
theorem delta_notMem (bare : event.delta = .null) : ∀ member ∈ event.modelDumpExcludeNone, member.1 ≠ "delta" := by
  rintro ⟨key, value⟩ inside here
  obtain rfl : key = "delta" := here
  obtain ⟨listed, kept⟩ := List.mem_filter.mp inside
  have same : value = .null := by
    simpa only [modelDump, List.mem_cons, Prod.mk.injEq, List.not_mem_nil, String.reduceEq, false_and, true_and,
      false_or, or_false, bare] using listed
  rw [same] at kept
  cases kept

end UniversalAgentEvent

namespace NexusAdapterBase

variable {world : AdapterWorld Obj Exc} {base : NexusAdapterBase Obj} {s t : AdapterState Obj Exc}
  {ambient : SdkAmbient} {event : AdapterEvent Obj} {state : Value Obj} {name : String} {path : List String}
  {number : ℤ}

theorem mem_ofMembers {members : List (String × Json)} {entry : Value Obj × Value Obj}
    (member : entry ∈ (Value.ofMembers members : List (Value Obj × Value Obj))) :
    ∃ given ∈ members, entry = (.str given.1, Value.ofJson given.2) := by
  induction members with
  | nil => exact absurd member List.not_mem_nil
  | cons first rest ih =>
    rcases List.mem_cons.mp member with rfl | later
    · exact ⟨first, List.mem_cons_self, rfl⟩
    · obtain ⟨given, inside, same⟩ := ih later
      exact ⟨given, List.mem_cons_of_mem _ inside, same⟩

/-- An integer in the data of an event is in the payload. -/
theorem checkpointPayload_shows (paid : checkpointPayload world ambient event = .ok state)
    (plain : ∀ key ∈ name :: path, Sdk.secretKey key = false)
    (apart : name = "metadata" ∨ ∀ member ∈ (event.fields.redacted world.engine).modelDumpExcludeNone, member.1 ≠ name)
    (shows : Value.Shows (name :: path) number (Value.ofEntries event.data)) :
    Value.Shows (name :: path) number state := by
  obtain ⟨_, _, paid⟩ := bind_eq_ok_iff.1 paid
  obtain ⟨data, redacted, paid⟩ := bind_eq_ok_iff.1 paid
  obtain ⟨clean, cleaned, paid⟩ := bind_eq_ok_iff.1 paid
  obtain ⟨_, rfl⟩ := UniversalAgentEvent.redactEvent_eq_ok_iff.1 (mapError_eq_ok_iff.1 cleaned)
  obtain ⟨entries, rfl, keyed⟩ := shows.redact plain redacted
  refine Value.Shows.safeJsonable ⟨_, rfl, keyed.append fun entry member => ?_⟩ paid
  obtain ⟨given, inside, rfl⟩ := mem_ofMembers member
  obtain ⟨listed, kept⟩ := List.mem_filter.mp inside
  refine ⟨given.1, rfl, ?_⟩
  rcases apart with rfl | apart
  · exact of_decide_eq_true kept
  · exact apart given listed

section Recording

/-- A commit with the state that it was made for -/
structure RecordedState (Obj : Type) where
  commit : RecordedCommit
  state : Value Obj

def recordedState : ClientCall Obj × Reply Exc → Option (RecordedState Obj)
  | (.checkpoint agentId runId threadId channel state summary tags metadata parents, reply) =>
      (recorded (.checkpoint agentId runId threadId channel state summary tags metadata parents, reply)).map
        (⟨·, state⟩)
  | _ => none

def recordedStates (s : AdapterState Obj Exc) : List (RecordedState Obj) := s.calls.filterMap recordedState

theorem recordedStates_append {request : ClientCall Obj} {reply : Reply Exc} {threads : List String}
    {last : HashMap String String} {events : ℕ} :
    recordedStates (⟨threads, last, s.calls ++ [(request, reply)], events⟩ : AdapterState Obj Exc) =
      recordedStates s ++ (recordedState (request, reply)).toList := by
  rw [recordedStates, List.filterMap_append, recordedStates]
  cases made : recordedState (request, reply) with
  | none => rw [List.filterMap_cons_none made, List.filterMap_nil, Option.toList_none]
  | some commit => rw [List.filterMap_cons_some made, List.filterMap_nil, Option.toList_some]

/-- Registering goes through and records nothing. -/
theorem register_of_succeeds (base : NexusAdapterBase Obj) (succeeds : Succeeds world) (threadId : Option String)
    (s : AdapterState Obj Exc) :
    ∃ t, base.register world threadId s = (.ok (), t) ∧ t.events = s.events ∧
      t.lastCommitIdByThread = s.lastCommitIdByThread ∧ recordedStates t = recordedStates s := by
  rw [register, Fallible.bind_of_ok (show Fallible.get s = (.ok s, s) from rfl)]
  split_ifs
  · exact ⟨s, rfl, rfl, rfl, rfl⟩
  · obtain ⟨commitId, _, reply⟩ := succeeds (s.calls.map (·.1)) (.registerAgent base.agentId base.runId
      (base.deriveThreadId threadId) [base.frameworkName, "universal-events"] base.frameworkName base.language
      (Value.setEntry "adapter" (.str "public-surface-wrapper") (Value.textEntries base.metadata)))
    rw [Fallible.bind_of_ok (call_returned reply)]
    refine ⟨_, rfl, rfl, rfl, ?_⟩
    rw [recordedStates_append]
    exact List.append_nil _

variable {threadId : String} {arguments : EventArguments Obj}

/-- A checkpoint whose payload can be made -/
theorem checkpointEvent_records (base : NexusAdapterBase Obj) (event : AdapterEvent Obj) {parents : List String}
    (succeeds : Succeeds world)
    (given : submittedParents event.fields.threadId event.fields.parentCommitIds s = parents)
    (sends : checkpointPayload world (world.ambient s.events) ⟨event.fields.withParents parents, event.data⟩ =
      .ok state) :
    ∃ commitId t, base.checkpointEvent world event s = (.ok [commitId], t) ∧ commitId ≠ "" ∧ t.events = s.events ∧
      recordedStates t = recordedStates s ++ [⟨⟨event.fields.threadId,
        base.frameworkName ++ " " ++ event.fields.eventType, parents, commitId⟩, state⟩] := by
  obtain ⟨m, registered, events, last, states⟩ := register_of_succeeds base succeeds (some event.fields.threadId) s
  have submitted : (if event.fields.parentCommitIds = [] then lastParents event.fields.threadId m
      else event.fields.parentCommitIds) = parents := by
    rw [← given, submittedParents, lastParents, last, ← lastParents]
  rw [checkpointEvent, Fallible.bind_of_ok registered, Fallible.bind_of_ok (show Fallible.get m = (.ok m, m) from rfl)]
  dsimp only
  rw [submitted, events]
  rw [← UniversalAgentEvent.withParents, Fallible.bind_of_ok (Fallible.lift_eq_iff.2 ⟨sends.symm, rfl⟩)]
  obtain ⟨commitId, made, reply⟩ := succeeds (m.calls.map (·.1)) (.checkpoint base.agentId base.runId
    event.fields.threadId (channelForEvent (event.fields.withParents parents).modelDump) state
    (base.frameworkName ++ " " ++ event.fields.eventType) (base.tags ++ [event.fields.eventType] ++ event.fields.tags)
    (Value.setEntry "universal_event" (.str "true") (Value.textEntries base.metadata)) parents)
  have named := made rfl
  have called : base.call world _ m = _ := call_returned reply
  rw [present_eq_some_iff.2 ⟨rfl, named⟩] at called
  refine ⟨commitId, _, Fallible.bind_of_ok called, named, events, ?_⟩
  refine recordedStates_append.trans ?_
  rw [states, recordedState, recorded, if_neg named, Option.map_some, Option.toList_some]

/-- This is the payload of an event with these arguments. -/
def Pays (world : AdapterWorld Obj Exc) (base : NexusAdapterBase Obj) (threadId : String)
    (arguments : EventArguments Obj) (state : Value Obj) : Prop :=
  ∃ ambient version fields later parents,
    normalizeEvent ambient (base.eventFields version (base.deriveThreadId (some threadId)) [] arguments) = .ok fields ∧
      checkpointPayload world later ⟨fields.withParents parents,
        arguments.data ++ [("metadata", base.mergedMetadata arguments.metadata)]⟩ = .ok state

/-- An event that can be recorded is recorded, and its commit is what comes back. -/
theorem record_adds (succeeds : Succeeds world) (named : "" ∉ arguments.parentCommitIds.getD [])
    (recordable : Recordable world base threadId arguments s.events) :
    ∃ commitId t state, base.record world (some threadId) arguments s = (.ok [commitId], t) ∧ commitId ≠ "" ∧
      t.events = s.events + 1 ∧ recordedStates t = recordedStates s ++ [⟨⟨base.deriveThreadId (some threadId),
        base.frameworkName ++ " " ++ arguments.eventType, submittedParents (base.deriveThreadId (some threadId))
          (arguments.parentCommitIds.getD []) s, commitId⟩, state⟩] ∧
      Pays world base threadId arguments state := by
  obtain ⟨version, fields, bare, done, normalized, paid⟩ := recordable
  have built := (event_eq_ok_iff (s := s) named).mpr ⟨version, fields, done, normalized, rfl, rfl⟩
  obtain ⟨thread, eventType, none_⟩ := normalized_fields normalized
  have kept : "" ∉ submittedParents (base.deriveThreadId (some threadId)) (arguments.parentCommitIds.getD []) s := by
    rw [submittedParents]
    split
    · exact lastParents_named
    · exact named
  have own : fields.withParents [] = fields := by
    rw [← none_]
    rfl
  have agree : (checkpointPayload world (world.ambient (s.events + 1)) ⟨fields.withParents (submittedParents
      (base.deriveThreadId (some threadId)) (arguments.parentCommitIds.getD []) s),
      arguments.data ++ [("metadata", base.mergedMetadata arguments.metadata)]⟩).isOk = true := by
    have bare : (checkpointPayload world (world.ambient (s.events + 1)) ⟨fields.withParents [],
        arguments.data ++ [("metadata", base.mergedMetadata arguments.metadata)]⟩).isOk = true := by
      rw [own, paid]
      rfl
    exact (isOk_checkpointPayload_withParents kept List.not_mem_nil).trans bare
  obtain ⟨state, sends⟩ := exists_eq_ok agree
  have given : submittedParents fields.threadId
      (arguments.parentCommitIds.getD (lastParents (base.deriveThreadId (some threadId)) s)) s =
        submittedParents (base.deriveThreadId (some threadId)) (arguments.parentCommitIds.getD []) s := by
    rw [thread, submittedParents, submittedParents]
    cases arguments.parentCommitIds with
    | none => simp
    | some given => rfl
  obtain ⟨commitId, t, run, nonempty, events, states⟩ := checkpointEvent_records
    (s := { s with events := s.events + 1 }) base ⟨fields.withParents (arguments.parentCommitIds.getD
      (lastParents (base.deriveThreadId (some threadId)) s)),
      arguments.data ++ [("metadata", base.mergedMetadata arguments.metadata)]⟩ succeeds given sends
  refine ⟨commitId, t, state, ?_, nonempty, events, ?_, _, version, fields, _, _, normalized, sends⟩
  · rw [record, Fallible.bind_of_ok built]
    exact run
  · rw [states, ← thread, ← eventType]
    rfl

theorem fields_delta {version resolved : String} {fields : UniversalAgentEvent}
    (normalized : normalizeEvent ambient (base.eventFields version resolved [] arguments) = .ok fields) :
    fields.delta = .null := by
  obtain ⟨read, reads, rfl⟩ := normalizeEvent_eq_ok_iff.1 normalized
  have bare : read.delta = .null := reads.delta.symm
  split_ifs
  · exact bare
  · exact bare

/-- The payload of an event shows the integers in its data. -/
theorem Pays.shows (pays : Pays world base threadId arguments state)
    (plain : ∀ key ∈ name :: path, Sdk.secretKey key = false) (known : name = "metadata" ∨ name = "delta")
    (shows : Value.Shows (name :: path) number (Value.ofEntries
      (arguments.data ++ [("metadata", base.mergedMetadata arguments.metadata)]))) :
    Value.Shows (name :: path) number state := by
  obtain ⟨ambient, version, fields, later, parents, normalized, paid⟩ := pays
  refine checkpointPayload_shows paid plain (known.imp_right ?_) shows
  rintro rfl
  refine UniversalAgentEvent.delta_notMem ?_
  change Sdk.redactValue world.engine fields.delta = .null
  rw [fields_delta normalized]
  rfl

end Recording

end NexusAdapterBase

end Python

end AttowNexus
