import AttowNexus.Proofs.Jsonable
import AttowNexus.Proofs.Recording

/-! # Events without data of the user

The fields of an event that hold no data of the user are strings, lists of strings and the timestamp.
-/

namespace AttowNexus

namespace Python

open Checks

variable {Obj Exc : Type}

/-- A field of an event that holds no data of the user -/
def FlatField (timestampMs : ℕ) (json : Json) : Prop :=
  json.isNull = true ∨ (∃ text, json = .string text) ∨ (∃ texts : List String, json = .array (texts.map .string)) ∨
    json = .number (.posInt timestampMs)

namespace UniversalAgentEvent

variable {event : UniversalAgentEvent}

/-- An event whose data is kept apart -/
structure Dataless (event : UniversalAgentEvent) : Prop where
  input : event.input = .null
  output : event.output = .null
  delta : event.delta = .null
  messages : event.messages = none
  error : event.error = none

theorem Dataless.redacted {engine : RegexEngine} (dataless : event.Dataless) : (event.redacted engine).Dataless := by
  refine ⟨?_, ?_, ?_, ?_, ?_⟩
  · exact congrArg (Sdk.redactValue engine) dataless.input
  · exact congrArg (Sdk.redactValue engine) dataless.output
  · exact congrArg (Sdk.redactValue engine) dataless.delta
  · exact congrArg (Option.map (Sdk.redactItems engine)) dataless.messages
  · exact congrArg (Option.map (Sdk.redactMembers engine)) dataless.error

theorem Dataless.flat (dataless : event.Dataless) :
    ∀ member ∈ event.modelDump, member.1 ≠ "metadata" → FlatField event.timestampMs member.2 := by
  have text : ∀ text : String, FlatField event.timestampMs (.string text) := fun text => .inr (.inl ⟨text, rfl⟩)
  have optional : ∀ value : Option String, FlatField event.timestampMs (ofOptionalStr value) := by
    intro value
    cases value with
    | none => exact .inl rfl
    | some value => exact text value
  have texts : ∀ texts : List String, FlatField event.timestampMs (.array (texts.map .string)) :=
    fun texts => .inr (.inr (.inl ⟨texts, rfl⟩))
  have nothing : FlatField event.timestampMs .null := .inl rfl
  simp only [modelDump, List.forall_mem_cons, dataless.input, dataless.output, dataless.delta, dataless.messages,
    dataless.error, Option.map_none, Option.getD_none, text, optional, texts, nothing, ne_eq, not_true, false_imp_iff,
    implies_true, true_and, List.not_mem_nil]
  exact ⟨fun _ => .inr (.inr (.inr rfl)), trivial⟩

end UniversalAgentEvent

section Conversion

variable {room : ℕ}

theorem FlatField.dumps {interpreter : Interpreter Obj Exc} {timestampMs : ℕ} {json : Json} {around : List ℕ}
    (flat : FlatField timestampMs json) (prints : interpreter.prints timestampMs = true) :
    Value.dumps interpreter (room + 1) around (Value.ofJson json) = .ok () := by
  rcases flat with nothing | ⟨text, rfl⟩ | ⟨texts, rfl⟩ | rfl
  · cases json with
    | null => rfl
    | _ => cases nothing
  · rfl
  · rw [Value.ofJson, Value.ofItems_string]
    exact Value.forM_dumps_texts texts
  · exact if_pos prints

end Conversion

end Python

end AttowNexus
