import AttowNexus.Proofs.PythonAdapters
import AttowNexus.Proofs.PythonValues

/-! # Which events an adapter can record

An adapter that lets calls of the client fail records an event if its fields pass the checks, before and after they are
redacted, and if its data can be copied and converted. The parents of an event and the state of the adapter do not
matter for that.
-/

namespace AttowNexus

namespace Python

open Checks AdapterState NexusAdapterBase

variable {Obj Exc : Type}

section Parents

variable {engine : RegexEngine} {ambient later : SdkAmbient} {event fields : UniversalAgentEvent}
  {parents others : List String}

def UniversalAgentEvent.withParents (event : UniversalAgentEvent) (parents : List String) : UniversalAgentEvent :=
  { event with parentCommitIds := parents }

theorem UniversalAgentEvent.valid_withParents_iff (named : "" ∉ parents) :
    ((event.withParents parents).redacted engine).Valid ↔ ((event.withParents []).redacted engine).Valid := by
  have kept : "" ∉ parents.map (Sdk.redactText engine) := by
    intro member
    obtain ⟨parent, inside, empty⟩ := List.mem_map.mp member
    exact named (redactText_eq_empty_iff.1 empty ▸ inside)
  constructor
  · intro valid
    exact ⟨valid.1, valid.2, valid.3, valid.4, valid.5, valid.6, valid.7, valid.8, List.not_mem_nil, valid.10⟩
  · intro valid
    exact ⟨valid.1, valid.2, valid.3, valid.4, valid.5, valid.6, valid.7, valid.8, kept, valid.10⟩

theorem Value.ofMembers_append (members more : List (String × Json)) :
    (Value.ofMembers (members ++ more) : List (Value Obj × Value Obj)) = Value.ofMembers members ++ Value.ofMembers more := by
  induction members with
  | nil => rfl
  | cons member members ih => exact congrArg _ ih

theorem Value.ofItems_string (texts : List String) :
    (Value.ofItems (texts.map .string) : List (Value Obj)) = texts.map .str := by
  induction texts with
  | nil => rfl
  | cons text texts ih => exact congrArg _ ih

/-- The fields that are sent besides the data -/
def UniversalAgentEvent.sentFields (event : UniversalAgentEvent) : List (Value Obj × Value Obj) :=
  Value.ofMembers (event.modelDumpExcludeNone.filter fun member => member.1 ≠ "metadata")

theorem UniversalAgentEvent.sentFields_alike :
    List.Forall₂ Value.Alike ((event.withParents parents).sentFields : List (Value Obj × Value Obj))
      (event.withParents others).sentFields := by
  have split : ∀ parents : List String, (event.withParents parents).modelDumpExcludeNone =
      (event.modelDump.take 25).filter (fun member => !member.2.isNull) ++
        [("parent_commit_ids", .array (parents.map .string)), ("timestamp_ms", .number (.posInt event.timestampMs))] :=
    fun parents => List.filter_append (event.modelDump.take 25) _
  rw [sentFields, sentFields, split, split, List.filter_append, List.filter_append, Value.ofMembers_append,
    Value.ofMembers_append]
  refine List.rel_append (List.forall₂_same.mpr fun _ _ => ⟨rfl, .inl rfl⟩) ?_
  refine .cons ⟨rfl, .inr ⟨parents, others, ?_, ?_⟩⟩ (.cons ⟨rfl, .inl rfl⟩ .nil)
  · exact congrArg Value.list (Value.ofItems_string parents)
  · exact congrArg Value.list (Value.ofItems_string others)

end Parents

/-- The arguments without the parents -/
def EventArguments.bare (arguments : EventArguments Obj) : EventArguments Obj := { arguments with parentCommitIds := none }

namespace NexusAdapterBase

variable {world : AdapterWorld Obj Exc} {base : NexusAdapterBase Obj} {s t : AdapterState Obj Exc} {threadId : String}
  {arguments : EventArguments Obj}

section Building

variable {ambient : SdkAmbient} {version resolved : String} {parents : List String} {fields : UniversalAgentEvent}

theorem reads_eventFields {read : UniversalAgentEvent} {others : List String} (named : "" ∉ others)
    (reads : Reads ambient (base.eventFields version resolved parents arguments) read) :
    Reads ambient (base.eventFields version resolved others arguments) (read.withParents others) :=
  { reads with parentCommitIds := .inr ⟨rfl, named⟩ }

/-- The parents of an event are taken over as they are. -/
theorem normalizeEvent_withParents (named : "" ∉ parents) :
    normalizeEvent ambient (base.eventFields version resolved parents arguments) = .ok fields ↔
      ∃ bare, normalizeEvent ambient (base.eventFields version resolved [] arguments) = .ok bare ∧
        fields = bare.withParents parents := by
  simp only [normalizeEvent_eq_ok_iff]
  constructor
  · rintro ⟨read, reads, rfl⟩
    have same : read.parentCommitIds = parents := by
      rcases reads.parentCommitIds with ⟨wrong, _⟩ | ⟨given, _⟩
      · cases wrong
      · exact UniversalAgentEvent.map_string_injective (Option.some.inj given)
    refine ⟨_, ⟨_, reads_eventFields List.not_mem_nil reads, rfl⟩, ?_⟩
    subst same
    rfl
  · rintro ⟨bare, ⟨read, reads, rfl⟩, rfl⟩
    exact ⟨_, reads_eventFields named reads, rfl⟩

end Building

section Payload

variable {ambient later : SdkAmbient} {fields : UniversalAgentEvent} {data : List (String × Value Obj)}
  {parents others : List String}

theorem isOk_redactEvent_iff {engine : RegexEngine} {event : UniversalAgentEvent} :
    (redactEvent engine ambient event).isOk = true ↔ (event.redacted engine).Valid := by
  constructor
  · intro ok
    obtain ⟨clean, run⟩ := exists_eq_ok ok
    exact (UniversalAgentEvent.redactEvent_eq_ok_iff.1 run).1
  · intro valid
    rw [UniversalAgentEvent.redactEvent_eq_ok_iff.2 ⟨valid, rfl⟩]
    rfl

/-- Whether an event can be sent does not depend on its parents, nor on when it is sent. -/
theorem isOk_checkpointPayload_withParents (named : "" ∉ parents) (named' : "" ∉ others) :
    (checkpointPayload world ambient ⟨fields.withParents parents, data⟩).isOk =
      (checkpointPayload world later ⟨fields.withParents others, data⟩).isOk := by
  refine isOk_bind_congr rfl fun _ _ _ _ => isOk_bind_congr rfl fun redacted redacted' same same' => ?_
  obtain rfl := Except.ok.inj (same.symm.trans same')
  refine isOk_bind_congr ?_ fun clean clean' made made' => ?_
  · rw [isOk_mapError, isOk_mapError, Bool.eq_iff_iff, isOk_redactEvent_iff, isOk_redactEvent_iff]
    exact (UniversalAgentEvent.valid_withParents_iff named).trans (UniversalAgentEvent.valid_withParents_iff named').symm
  · obtain ⟨_, rfl⟩ := UniversalAgentEvent.redactEvent_eq_ok_iff.1 (mapError_eq_ok_iff.1 made)
    obtain ⟨_, rfl⟩ := UniversalAgentEvent.redactEvent_eq_ok_iff.1 (mapError_eq_ok_iff.1 made')
    have dumped : List.Forall₂ Value.Alike
        (((fields.withParents parents).redacted world.engine).sentFields : List (Value Obj × Value Obj))
        ((fields.withParents others).redacted world.engine).sentFields :=
      @UniversalAgentEvent.sentFields_alike _ (fields.redacted world.engine) _ _
    apply Value.isOk_safeJsonable_alike
    cases redacted with
    | dict entries => exact List.rel_append dumped (List.forall₂_same.mpr fun _ _ => ⟨rfl, .inl rfl⟩)
    | _ => exact dumped

theorem checkpointPayload_own {event : AdapterEvent Obj} :
    Refuses Exn.Own (checkpointPayload world ambient event) := by
  refine .bind (.forM fun member _ => Value.deepcopy_own _ _ _) fun _ => .bind (Value.redact_own _ _) fun _ => ?_
  exact .bind (.mapError fun _ => nofun) fun _ => Value.safeJsonable_own _ _

end Payload

section Recordable

/-- The event passes the checks and can be converted, when so many events were built before it. -/
def Recordable (world : AdapterWorld Obj Exc) (base : NexusAdapterBase Obj) (threadId : String)
    (arguments : EventArguments Obj) (events : ℕ) : Prop :=
  ∃ version fields state, base.adapterVersion world = .ok version ∧
    normalizeEvent (world.ambient events) (base.eventFields version (base.deriveThreadId (some threadId)) [] arguments) =
      .ok fields ∧
    checkpointPayload world (world.ambient (events + 1))
      ⟨fields, arguments.data ++ [("metadata", base.mergedMetadata arguments.metadata)]⟩ = .ok state

theorem recordable_bare_iff {events : ℕ} :
    Recordable world base threadId arguments.bare events ↔ Recordable world base threadId arguments events := Iff.rfl

theorem adapterVersion_own : Refuses Exn.Own (base.adapterVersion world) := Value.print_own _

variable (world) in
theorem call_of_failOpen (failOpen : base.failOpen = true) (request : ClientCall Obj) (s : AdapterState Obj Exc) :
    ∃ commitId t, base.call world request s = (.ok commitId, t) ∧ t.events = s.events ∧
      t.lastCommitIdByThread = s.lastCommitIdByThread ∧ "" ∉ commitId := by
  cases reply : world.client (s.calls.map (·.1) ++ [request]) with
  | returned commitId =>
    refine ⟨_, _, call_returned reply, rfl, rfl, fun member => ?_⟩
    exact (present_eq_some_iff.1 member).2 rfl
  | raised exception =>
    have called : base.call world request s = _ := call_raised reply
    rw [failOpen] at called
    exact ⟨_, _, called, rfl, rfl, nofun⟩

variable (world) in
theorem register_of_failOpen (failOpen : base.failOpen = true) (threadId : Option String) (s : AdapterState Obj Exc) :
    ∃ t, base.register world threadId s = (.ok (), t) ∧ t.events = s.events ∧
      t.lastCommitIdByThread = s.lastCommitIdByThread := by
  rw [register, Fallible.bind_of_ok (show Fallible.get s = (.ok s, s) from rfl)]
  split_ifs
  · exact ⟨s, rfl, rfl, rfl⟩
  · obtain ⟨commitId, t, called, events, last, _⟩ := call_of_failOpen world failOpen _ s
    rw [Fallible.bind_of_ok called]
    exact ⟨_, rfl, events, last⟩

theorem lastParents_named {threadId : String} : "" ∉ lastParents threadId s := by
  intro member
  rw [lastParents, Option.mem_toList] at member
  exact (present_eq_some_iff.1 member).2 rfl

theorem event_eq_ok_iff {built : AdapterEvent Obj} (named : "" ∉ arguments.parentCommitIds.getD []) :
    base.event world (some threadId) arguments s = (.ok built, t) ↔ ∃ version fields, base.adapterVersion world = .ok version ∧
      normalizeEvent (world.ambient s.events) (base.eventFields version (base.deriveThreadId (some threadId)) [] arguments) =
        .ok fields ∧
      built = ⟨fields.withParents (arguments.parentCommitIds.getD (lastParents (base.deriveThreadId (some threadId)) s)),
        arguments.data ++ [("metadata", base.mergedMetadata arguments.metadata)]⟩ ∧
      t = { s with events := s.events + 1 } := by
  have given : "" ∉ arguments.parentCommitIds.getD (lastParents (base.deriveThreadId (some threadId)) s) := by
    cases parents : arguments.parentCommitIds with
    | none => exact lastParents_named
    | some parents' => rwa [parents] at named
  simp only [event, Fallible.bind_eq_ok_iff, Fallible.get_eq_iff, Fallible.lift_eq_iff, Fallible.modify_eq_iff,
    Fallible.pure_eq_iff, Except.ok.injEq]
  constructor
  · rintro ⟨_, _, ⟨rfl, rfl⟩, version, _, ⟨done, rfl⟩, fields, _, ⟨normalized, rfl⟩, _, _, ⟨-, rfl⟩, rfl, rfl⟩
    obtain ⟨bare, made, rfl⟩ := (normalizeEvent_withParents given).mp (mapError_eq_ok_iff.1 normalized.symm)
    exact ⟨version, bare, done.symm, made, rfl, rfl⟩
  · rintro ⟨version, fields, done, made, rfl, rfl⟩
    have whole := (normalizeEvent_withParents given).mpr ⟨fields, made, rfl⟩
    exact ⟨s, s, ⟨rfl, rfl⟩, version, s, ⟨done.symm, rfl⟩, _, s, ⟨(mapError_eq_ok_iff.2 whole).symm, rfl⟩, (), _,
      ⟨trivial, rfl⟩, rfl, rfl⟩

/-- A checkpoint goes through if its event can be sent. -/
theorem checkpointEvent_of_failOpen (failOpen : base.failOpen = true) {built : AdapterEvent Obj}
    (named : "" ∉ built.fields.parentCommitIds) :
    (∀ given t, base.checkpointEvent world built s = (.ok given, t) →
      (checkpointPayload world (world.ambient s.events) ⟨built.fields.withParents [], built.data⟩).isOk = true ∧
        t.events = s.events ∧ "" ∉ given) ∧
    ((checkpointPayload world (world.ambient s.events) ⟨built.fields.withParents [], built.data⟩).isOk = true →
      ∃ given t, base.checkpointEvent world built s = (.ok given, t)) := by
  obtain ⟨m, registered, events, last⟩ := register_of_failOpen world failOpen (some built.fields.threadId) s
  have parents : "" ∉ if built.fields.parentCommitIds = [] then lastParents built.fields.threadId m
      else built.fields.parentCommitIds := by
    split_ifs
    · exact lastParents_named
    · exact named
  have agree : (checkpointPayload world (world.ambient s.events) ⟨built.fields.withParents [], built.data⟩).isOk =
      (checkpointPayload world (world.ambient m.events) ⟨built.fields.withParents _, built.data⟩).isOk :=
    isOk_checkpointPayload_withParents List.not_mem_nil parents
  rw [agree, checkpointEvent, Fallible.bind_of_ok registered, Fallible.bind_of_ok (show Fallible.get m = (.ok m, m) from rfl)]
  constructor
  · intro given t run
    obtain ⟨state, m', paid, rest⟩ := Fallible.bind_eq_ok_iff.1 run
    obtain ⟨same, rfl⟩ := Fallible.lift_eq_iff.1 paid
    refine ⟨congrArg Except.isOk same.symm, ?_⟩
    obtain ⟨commitId, m'', called, events', _, known⟩ := call_of_failOpen world failOpen _ m'
    rw [Fallible.bind_of_ok called] at rest
    cases commitId with
    | none =>
      obtain ⟨same, rfl⟩ := Fallible.pure_eq_iff.1 rest
      exact ⟨events'.trans events, Except.ok.inj same ▸ parents⟩
    | some commitId =>
      obtain ⟨same, rfl⟩ := Prod.mk.inj rest
      obtain rfl := Except.ok.inj same
      refine ⟨events'.trans events, fun member => known ?_⟩
      exact Option.mem_def.mpr (congrArg some (List.mem_singleton.mp member).symm)
  · intro ok
    obtain ⟨state, paid⟩ := exists_eq_ok ok
    obtain ⟨commitId, m', called, _⟩ := call_of_failOpen world failOpen _ m
    have passes : ∀ {α : Type} {rest : Value Obj → Adapter Obj Exc α} {result}, rest state m = result →
        (Fallible.lift (checkpointPayload world (world.ambient m.events) ⟨built.fields.withParents _, built.data⟩) >>= rest)
          m = result :=
      fun goesOn => (Fallible.bind_of_ok (Fallible.lift_eq_iff.2 ⟨paid.symm, rfl⟩)).trans goesOn
    cases commitId with
    | none => exact ⟨_, _, passes (Fallible.bind_of_ok called)⟩
    | some commitId => exact ⟨_, _, passes (Fallible.bind_of_ok called)⟩

theorem withParents_withParents {fields : UniversalAgentEvent} {parents others : List String} :
    (fields.withParents parents).withParents others = fields.withParents others := rfl

/-- Recording an event returns normally exactly if the event can be recorded. -/
theorem record_of_failOpen (failOpen : base.failOpen = true) (named : "" ∉ arguments.parentCommitIds.getD []) :
    (∀ given t, base.record world (some threadId) arguments s = (.ok given, t) →
      Recordable world base threadId arguments s.events ∧ t.events = s.events + 1 ∧ "" ∉ given) ∧
    (Recordable world base threadId arguments s.events →
      ∃ given t, base.record world (some threadId) arguments s = (.ok given, t)) := by
  have given : "" ∉ arguments.parentCommitIds.getD (lastParents (base.deriveThreadId (some threadId)) s) := by
    cases parents : arguments.parentCommitIds with
    | none => exact lastParents_named
    | some parents' => rwa [parents] at named
  have bare : ∀ {version : String} {fields : UniversalAgentEvent}, normalizeEvent (world.ambient s.events)
      (base.eventFields version (base.deriveThreadId (some threadId)) [] arguments) = .ok fields →
        fields.withParents [] = fields := by
    intro version fields normalized
    obtain ⟨bare, _, rfl⟩ := (normalizeEvent_withParents List.not_mem_nil).mp normalized
    rfl
  constructor
  · intro returned t run
    obtain ⟨built, m, made, rest⟩ := Fallible.bind_eq_ok_iff.1 run
    obtain ⟨version, fields, done, normalized, rfl, rfl⟩ := (event_eq_ok_iff named).mp made
    obtain ⟨ok, events, known⟩ := (checkpointEvent_of_failOpen failOpen given).1 returned t rest
    rw [withParents_withParents, bare normalized] at ok
    obtain ⟨state, paid⟩ := exists_eq_ok ok
    exact ⟨⟨version, fields, state, done, normalized, paid⟩, events, known⟩
  · rintro ⟨version, fields, state, done, normalized, paid⟩
    have made := (event_eq_ok_iff named).mpr ⟨version, fields, done, normalized, rfl, rfl⟩
    rw [record, Fallible.bind_of_ok made]
    refine (checkpointEvent_of_failOpen failOpen given).2 ?_
    rw [withParents_withParents, bare normalized]
    exact congrArg Except.isOk paid

/-- What an adapter raises never comes from the wrapped call. -/
theorem call_raises (request : ClientCall Obj) : Fallible.Raises Exn.Own (base.call world request) := by
  intro s raised t run
  cases reply : world.client (s.calls.map (·.1) ++ [request]) with
  | returned commitId => exact absurd ((call_returned reply).symm.trans run) nofun
  | raised exception =>
    have called : base.call world request s = _ := call_raised reply
    split_ifs at called
    · exact absurd (called.symm.trans run) nofun
    · exact Except.error.inj (Prod.mk.inj (called.symm.trans run)).1 ▸ nofun

theorem register_raises (threadId : Option String) : Fallible.Raises Exn.Own (base.register world threadId) :=
  .bind .get fun _ => .ite (.pure _) (.bind (call_raises _) fun _ => .modify _)

theorem checkpointEvent_raises (event : AdapterEvent Obj) : Fallible.Raises Exn.Own (base.checkpointEvent world event) := by
  refine .bind (register_raises _) fun _ => .bind .get fun m => .bind (.lift checkpointPayload_own) fun _ => ?_
  refine .bind (call_raises _) fun commitId => ?_
  cases commitId with
  | none => exact .pure _
  | some commitId => exact .bind (.modify _) fun _ => .pure _

theorem record_raises (threadId : Option String) (arguments : EventArguments Obj) :
    Fallible.Raises Exn.Own (base.record world threadId arguments) := by
  refine .bind (.bind .get fun _ => .bind (.lift adapterVersion_own) fun _ => ?_) checkpointEvent_raises
  exact .bind (.lift (Refuses.mapError fun _ => nofun)) fun _ => .bind (.modify _) fun _ => .pure _

end Recordable

section Sequences

/-- What an event is made of, once its data is converted -/
abbrev Conversion (Obj Exc : Type) := Except (Exn Exc) (EventArguments Obj)

/-- Each event is converted and can be recorded, one after the other. -/
def AllRecordable (world : AdapterWorld Obj Exc) (base : NexusAdapterBase Obj) (threadId : String) :
    List (Conversion Obj Exc) → ℕ → Prop
  | [], _ => True
  | conversion :: rest, events =>
      (∃ arguments, conversion = .ok arguments ∧ Recordable world base threadId arguments events) ∧
        AllRecordable world base threadId rest (events + 1)

theorem allRecordable_append_iff {conversions more : List (Conversion Obj Exc)} {events : ℕ} :
    AllRecordable world base threadId (conversions ++ more) events ↔
      AllRecordable world base threadId conversions events ∧
        AllRecordable world base threadId more (events + conversions.length) := by
  induction conversions generalizing events with
  | nil => exact ⟨fun recordable => ⟨trivial, recordable⟩, And.right⟩
  | cons conversion conversions ih =>
    have shift : events + 1 + conversions.length = events + (conversion :: conversions).length := by
      rw [List.length_cons]
      omega
    rw [List.cons_append, AllRecordable, AllRecordable, ih, shift, and_assoc]

/-- A computation that records these events, and raises an exception of its own where one of them cannot be recorded -/
structure Performs {α : Type} (world : AdapterWorld Obj Exc) (base : NexusAdapterBase Obj) (threadId : String)
    (conversions : List (Conversion Obj Exc)) (given : α → Prop) (x : Adapter Obj Exc α) : Prop where
  raises : Fallible.Raises Exn.Own x
  goesOn : ∀ s, AllRecordable world base threadId conversions s.events → ∃ a t, x s = (.ok a, t)
  returned : ∀ s a t, x s = (.ok a, t) →
    AllRecordable world base threadId conversions s.events ∧ t.events = s.events + conversions.length ∧ given a

namespace Performs

variable {α β : Type} {conversions more : List (Conversion Obj Exc)} {given : α → Prop} {after : β → Prop}

theorem pure {a : α} (holds : given a) : Performs world base threadId [] given (Pure.pure a) where
  raises := .pure a
  goesOn s _ := ⟨a, s, rfl⟩
  returned s b t run := by
    obtain ⟨same, rfl⟩ := Fallible.pure_eq_iff.1 run
    exact ⟨trivial, rfl, Except.ok.inj same ▸ holds⟩

theorem bind {x : Adapter Obj Exc α} {f : α → Adapter Obj Exc β} (first : Performs world base threadId conversions given x)
    (rest : ∀ a, given a → Performs world base threadId more after (f a)) :
    Performs world base threadId (conversions ++ more) after (x >>= f) where
  raises := by
    intro s raised t run
    rcases Fallible.bind_eq_error_iff.1 run with early | ⟨a, m, done, late⟩
    · exact first.raises s raised t early
    · exact (rest a (first.returned s a m done).2.2).raises m raised t late
  goesOn s recordable := by
    obtain ⟨before, later⟩ := allRecordable_append_iff.1 recordable
    obtain ⟨a, m, done⟩ := first.goesOn s before
    obtain ⟨_, events, holds⟩ := first.returned s a m done
    rw [Fallible.bind_of_ok done]
    exact (rest a holds).goesOn m (events ▸ later)
  returned s b t run := by
    obtain ⟨a, m, done, late⟩ := Fallible.bind_eq_ok_iff.1 run
    obtain ⟨before, events, holds⟩ := first.returned s a m done
    obtain ⟨later, events', holds'⟩ := (rest a holds).returned m b t late
    rw [events] at later events'
    refine ⟨allRecordable_append_iff.2 ⟨before, later⟩, ?_, holds'⟩
    rw [events', List.length_append, Nat.add_assoc]

/-- The data of an event is converted, and the event is recorded. Which parents it names does not matter. -/
theorem record (failOpen : base.failOpen = true) {conversion : Except (Exn Exc) α} {arguments : α → EventArguments Obj}
    (own : Refuses Exn.Own conversion)
    (named : ∀ a, conversion = .ok a → "" ∉ (arguments a).parentCommitIds.getD []) :
    Performs world base threadId [conversion.map fun a => (arguments a).bare] (fun parents => "" ∉ parents)
      (Fallible.lift conversion >>= fun a => base.record world (some threadId) (arguments a)) where
  raises := .bind (.lift own) fun _ => record_raises _ _
  goesOn s recordable := by
    obtain ⟨⟨_, converted, recordable⟩, _⟩ := recordable
    obtain ⟨a, rfl, rfl⟩ := map_eq_ok_iff.1 converted
    rw [Fallible.lift_ok_bind]
    exact (record_of_failOpen failOpen (named a rfl)).2 (recordable_bare_iff.1 recordable)
  returned s parents t run := by
    obtain ⟨a, m, converted, rest⟩ := Fallible.bind_eq_ok_iff.1 run
    obtain ⟨rfl, rfl⟩ := Fallible.lift_eq_iff.1 converted
    obtain ⟨recordable, events, named⟩ := (record_of_failOpen failOpen (named a rfl)).1 parents t rest
    exact ⟨⟨⟨_, rfl, recordable_bare_iff.2 recordable⟩, trivial⟩, events, named⟩

end Performs

end Sequences

end NexusAdapterBase

end Python

end AttowNexus
