import AttowNexus.Model.TypeScriptAdapters
import AttowNexus.Model.PythonValues

/-! # Events with data of any kind

`universal.py` and `universal.ts`, where the fields for data of the user hold values of the language. The other fields
are JSON data as before. What pydantic makes of a value, and what `JSON.parse(JSON.stringify(..))` makes of one, are
parameters.
-/

namespace AttowNexus

/-- The fields of an event that hold data of the user -/
def dataFields : List String := ["input", "output", "delta", "messages", "error", "metadata"]

namespace Python

/-- What pydantic does with values of the user -/
structure Pydantic (Obj Exc : Type) where
  /-- The items, where a field of type `list[Any]` takes the value -/
  asList : Value Obj → Option (List (Value Obj))
  /-- The entries, where a field of type `dict[str, Any]` takes the value -/
  asDict : Value Obj → Option (List (String × Value Obj))
  /-- What `model_dump` makes of a value -/
  modelDump : Value Obj → Except Exc (Value Obj)

/-- The keyword arguments of `normalize_event`. What pydantic takes for a string or a list that is none of JSON, such as
`bytes` or a tuple, stands here as it reads it. -/
structure EventKwargs (Obj : Type) where
  plain : JsonMap
  data : List (String × Value Obj)
  apart : ∀ name ∈ dataFields, plain.get name = none

/-- The data of an event, as its fields take it -/
structure EventData (Obj : Type) where
  input : Value Obj
  output : Value Obj
  delta : Value Obj
  messages : Option (List (Value Obj))
  error : Option (List (String × Value Obj))
  metadata : List (String × Value Obj)

structure UserEvent (Obj : Type) where
  fields : UniversalAgentEvent
  data : EventData Obj

namespace EventKwargs

variable {Obj Exc : Type} (pydantic : Pydantic Obj Exc) (kwargs : EventKwargs Obj)

def given (name : String) : Option (Value Obj) := (kwargs.data.find? fun member => member.1 = name).map (·.2)

/-- A field of type `list[Any] | None` -/
def optionalList (name : String) : Except FieldError (Option (List (Value Obj))) :=
  match kwargs.given name with
  | none => .ok none
  | some .none => .ok none
  | some value => ((pydantic.asList value).map fun items => .ok (some items)).getD (.error (.invalid name))

/-- A field of type `dict[str, Any] | None` -/
def optionalDict (name : String) : Except FieldError (Option (List (String × Value Obj))) :=
  match kwargs.given name with
  | none => .ok none
  | some .none => .ok none
  | some value => ((pydantic.asDict value).map fun entries => .ok (some entries)).getD (.error (.invalid name))

/-- A field of type `dict[str, Any]` that starts empty -/
def dictOrEmpty (name : String) : Except FieldError (List (String × Value Obj)) :=
  match kwargs.given name with
  | none => .ok []
  | some value => ((pydantic.asDict value).map .ok).getD (.error (.invalid name))

/-- `normalize_event` -/
def normalizeEvent (ambient : SdkAmbient) : Except FieldError (UserEvent Obj) := do
  let fields ← Python.normalizeEvent ambient kwargs.plain
  let messages ← kwargs.optionalList pydantic "messages"
  let error ← kwargs.optionalDict pydantic "error"
  let metadata ← kwargs.dictOrEmpty pydantic "metadata"
  .ok ⟨fields, ⟨(kwargs.given "input").getD .none, (kwargs.given "output").getD .none,
    (kwargs.given "delta").getD .none, messages, error, metadata⟩⟩

end EventKwargs

section Dump

variable {Obj Exc : Type} (pydantic : Pydantic Obj Exc)

def dumpEntries (entries : List (String × Value Obj)) : Except (Exn Exc) (List (String × Value Obj)) :=
  entries.mapM fun (key, child) => (Value.ofMethod (pydantic.modelDump child)).map fun child => (key, child)

def dumpOptionalList : Option (List (Value Obj)) → Except (Exn Exc) (Value Obj)
  | none => .ok .none
  | some items => (items.mapM fun item => Value.ofMethod (pydantic.modelDump item)).map .list

def dumpOptionalDict : Option (List (String × Value Obj)) → Except (Exn Exc) (Value Obj)
  | none => .ok .none
  | some entries => (dumpEntries pydantic entries).map Value.ofEntries

/-- `model_dump`, the fields with data -/
def EventData.modelDump (data : EventData Obj) : Except (Exn Exc) (List (String × Value Obj)) := do
  let plain ← dumpEntries pydantic [("input", data.input), ("output", data.output), ("delta", data.delta)]
  let messages ← dumpOptionalList pydantic data.messages
  let error ← dumpOptionalDict pydantic data.error
  let metadata ← dumpEntries pydantic data.metadata
  .ok (plain ++ [("messages", messages), ("error", error), ("metadata", Value.ofEntries metadata)])

end Dump

/-- The entries whose value is not `None` -/
def withoutNone {Obj : Type} (entries : List (Value Obj × Value Obj)) : List (Value Obj × Value Obj) :=
  entries.filter fun entry =>
    match entry.2 with
    | .none => false
    | _ => true

/-- The fields without data, as `model_dump(exclude_none=True)` gives them -/
def UniversalAgentEvent.plainDump (event : UniversalAgentEvent) : JsonMap :=
  event.modelDumpExcludeNone.filter fun member => member.1 ∉ dataFields

/-- `event_to_checkpoint_payload`. Redaction leaves a list a list and a dictionary its keys, so that the second validation
takes the data as it is; and what was dumped is not changed by a second dump. -/
def UserEvent.eventToCheckpointPayload {Obj Exc : Type} (interpreter : Interpreter Obj Exc) (pydantic : Pydantic Obj Exc)
    (engine : RegexEngine) (ambient : SdkAmbient) (event : UserEvent Obj) : Except (Exn Exc) (Value Obj) := do
  let data ← event.data.modelDump pydantic
  Value.deepcopy interpreter interpreter.recursionLimit [] (Value.ofEntries data)
  let redacted ← Value.redact interpreter engine interpreter.recursionLimit (Value.ofEntries data)
  let clean ← (redactEvent engine ambient event.fields).mapError .validationError
  let kept := match redacted with
    | .dict entries => withoutNone entries
    | _ => []
  Value.safeJsonable interpreter interpreter.recursionLimit (.dict (Value.ofMembers clean.plainDump ++ kept))

namespace Value

variable {Obj Exc : Type} (interpreter : Interpreter Obj Exc)

/-- A float that is neither infinite nor NaN -/
def isFinite (bits : UInt64) : Bool := bits &&& 0x7FF0000000000000 ≠ 0x7FF0000000000000

/-- A key in the text of `json.dumps` -/
def keyText : Value Obj → Option String
  | .none => some "null"
  | .bool flag => some (if flag then "true" else "false")
  | .int value => some (toString value)
  | .float bits => (interpreter.str (.float bits)).toOption
  | .str text => some text
  | _ => Option.none

/-- What the text of `json.dumps` says, where it is JSON. Infinities and NaN are written as words that JSON has not. -/
def toJson : ℕ → Value Obj → Option Json
  | _, .none => some .null
  | _, .bool flag => some (.bool flag)
  | _, .int value => some (.number (if 0 ≤ value then .posInt value.toNat else .negInt value))
  | _, .float bits => if isFinite bits then some (.number (.float bits)) else Option.none
  | _, .str text => some (.string text)
  | fuel + 1, .list items => (items.mapM (toJson fuel)).map .array
  | fuel + 1, .tuple items => (items.mapM (toJson fuel)).map .array
  | fuel + 1, .dict entries => do
      let members ← entries.mapM fun (key, child) => do
        let key ← keyText interpreter key
        let child ← toJson fuel child
        some (key, child)
      some (.object (JsonMap.ofMembers members))
  | fuel + 1, .named reference => toJson fuel (interpreter.container reference)
  | _, _ => Option.none

end Value

end Python

namespace TypeScript

/-- The values that the checks of `normalizeEvent` look at -/
structure Shapes (Obj : Type) where
  isArray : Obj → Bool
  /-- `typeof value === "object"`, but no array -/
  isRecord : Obj → Bool

/-- The input of `normalizeEvent` -/
structure UserInput (Obj : Type) where
  plain : JsonMap
  data : List (String × Value Obj)
  apart : ∀ name ∈ dataFields, plain.get name = none

namespace UserInput

variable {Obj : Type} (shapes : Shapes Obj) (input : UserInput Obj)

def given (name : String) : Value Obj := ((input.data.find? fun member => member.1 = name).map (·.2)).getD .undefined

/-- `optionalMessages` -/
def messages : Except String (Value Obj) :=
  match input.given "messages" with
  | .undefined => .ok .undefined
  | .null => .ok .undefined
  | .other name => if shapes.isArray name then .ok (.other name) else .error "messages must be an array when provided"
  | .text _ => .error "messages must be an array when provided"

/-- `recordValue`, with what stands for no value -/
def record (name : String) (fallback : EventData Obj) : Except String (EventData Obj) :=
  match input.given name with
  | .undefined => .ok fallback
  | .null => .ok fallback
  | .other given => if shapes.isRecord given then .ok (.value (.other given)) else .error (name ++ " must be an object")
  | .text _ => .error (name ++ " must be an object")

/-- `normalizeEvent` -/
def normalizeEvent (numbers : DoubleFormat) (ambient : SdkAmbient) : Except String (AdapterEvent Obj) := do
  let fields ← TypeScript.normalizeEvent numbers ambient input.plain
  let messages ← input.messages shapes
  let error ← input.record shapes "error" (.value .undefined)
  let metadata ← input.record shapes "metadata" (.record [])
  .ok ⟨fields, [("input", .value (input.given "input")), ("output", .value (input.given "output")),
    ("delta", .value (input.given "delta")), ("messages", .value messages), ("error", error), ("metadata", metadata)]⟩

end UserInput

end TypeScript

end AttowNexus
