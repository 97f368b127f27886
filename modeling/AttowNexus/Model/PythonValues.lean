import AttowNexus.Model.PythonEvents

/-! # Python values in the adapters

What the adapters get from the code they wrap is any Python value. `safe_jsonable` takes it to something that
`json.dumps` takes, and `redact` walks over that. Objects of other classes, `str` and the limits of the interpreter are
parameters; a container that may be met inside itself is named by a reference.
-/

namespace AttowNexus

namespace Python

inductive Value (Obj : Type) where
  | none
  | bool (flag : Bool)
  | int (value : ℤ)
  | float (bits : UInt64)
  | str (text : String)
  | list (items : List (Value Obj))
  | tuple (items : List (Value Obj))
  | set (items : List (Value Obj))
  | dict (entries : List (Value Obj × Value Obj))
  | object (name : Obj)
  /-- The container that the reference names -/
  | named (reference : ℕ)

/-- The exceptions, by where they come from -/
inductive Exn (Exc : Type) where
  | typeError
  | valueError
  | attributeError
  | recursionError
  | validationError (error : FieldError)
  /-- A method of an object that is converted, copied or printed -/
  | method (raised : Exc)
  | client (raised : Exc)
  /-- The wrapped call -/
  | wrapped (raised : Exc)
deriving DecidableEq, Repr

structure Interpreter (Obj Exc : Type) where
  container : ℕ → Value Obj
  /-- `value.model_dump()`, if there is something to call -/
  modelDump : Obj → Except Exc (Option (Value Obj))
  /-- `value.dict()`, if there is something to call -/
  toDict : Obj → Except Exc (Option (Value Obj))
  isGenerator : Obj → Bool
  repr : Obj → Except Exc String
  /-- `str` of a value that is no string -/
  str : Value Obj → Except Exc String
  bool : Obj → Except Exc Bool
  /-- `dict` of a value that is no dictionary -/
  mapping : Value Obj → Except Exc (List (Value Obj × Value Obj))
  deepcopy : Obj → Except Exc Unit
  /-- `json.dumps` with sorted keys, or `repr` where the keys cannot be sorted -/
  dumpsSorted : Value Obj → Except Exc String
  /-- The name of the class of an exception, and `str` of it -/
  describe : Exn Exc → Except Exc (String × String)
  /-- Whether an integer is short enough to be printed -/
  prints : ℤ → Bool
  /-- How deep the recursions go -/
  recursionLimit : ℕ

namespace Value

variable {Obj Exc : Type} (interpreter : Interpreter Obj Exc)

/-- What a method of an object raises is passed on. -/
def ofMethod {α : Type} (outcome : Except Exc α) : Except (Exn Exc) α := outcome.mapError .method

/-- `str(value)` -/
def print : Value Obj → Except (Exn Exc) String
  | .str text => .ok text
  | value => ofMethod (interpreter.str value)

/-- `bool(value)` -/
def truthy : Value Obj → Except (Exn Exc) Bool
  | .none => .ok false
  | .bool flag => .ok flag
  | .int value => .ok (value ≠ 0)
  | .float bits => .ok (bits ≠ 0 ∧ bits ≠ 0x8000000000000000)
  | .str text => .ok (text ≠ "")
  | .list items => .ok (!items.isEmpty)
  | .tuple items => .ok (!items.isEmpty)
  | .set items => .ok (!items.isEmpty)
  | .dict entries => .ok (!entries.isEmpty)
  | .object name => ofMethod (interpreter.bool name)
  | .named reference =>
      match interpreter.container reference with
      | .list items => .ok (!items.isEmpty)
      | .dict entries => .ok (!entries.isEmpty)
      | _ => .ok true

/-- A container behind its reference -/
def resolve : Value Obj → Value Obj
  | .named reference => interpreter.container reference
  | value => value

/-- `isinstance(value, dict)`, with the entries -/
def asDict (value : Value Obj) : Option (List (Value Obj × Value Obj)) :=
  match value.resolve interpreter with
  | .dict entries => some entries
  | _ => Option.none

/-- The entries of a dictionary with string keys -/
def textEntries (entries : List (String × Value Obj)) : List (Value Obj × Value Obj) :=
  entries.map fun entry => (.str entry.1, entry.2)

def ofEntries (entries : List (String × Value Obj)) : Value Obj := .dict (textEntries entries)

/-- Is this key the string? -/
def isKey (name : String) : Value Obj → Bool
  | .str text => text = name
  | _ => false

/-- `entries.get(name)` -/
def entry (name : String) (entries : List (Value Obj × Value Obj)) : Option (Value Obj) :=
  (entries.find? fun entry => entry.1.isKey name).map (·.2)

/-- `entries[name] = value` -/
def setEntry (name : String) (value : Value Obj) (entries : List (Value Obj × Value Obj)) : List (Value Obj × Value Obj) :=
  if entries.any (·.1.isKey name) then
    entries.map fun entry => if entry.1.isKey name then (entry.1, value) else entry
  else entries ++ [(.str name, value)]

/-- A key in `json.dumps` -/
def dumpsKey : Value Obj → Except (Exn Exc) Unit
  | .none => .ok ()
  | .bool _ => .ok ()
  | .int value => if interpreter.prints value then .ok () else .error .valueError
  | .float _ => .ok ()
  | .str _ => .ok ()
  | _ => .error .typeError

/-- `json.dumps`, without its text. The containers around the value are those whose references are given; only
containers go deeper. -/
def dumps : ℕ → List ℕ → Value Obj → Except (Exn Exc) Unit
  | _, _, .none => .ok ()
  | _, _, .bool _ => .ok ()
  | _, _, .int value => if interpreter.prints value then .ok () else .error .valueError
  | _, _, .float _ => .ok ()
  | _, _, .str _ => .ok ()
  | _, _, .set _ => .error .typeError
  | _, _, .object _ => .error .typeError
  | 0, _, _ => .error .recursionError
  | fuel + 1, around, .list items => items.forM (dumps fuel around)
  | fuel + 1, around, .tuple items => items.forM (dumps fuel around)
  | fuel + 1, around, .dict entries => entries.forM fun (key, child) => do
      dumpsKey interpreter key
      dumps fuel around child
  | fuel + 1, around, .named reference =>
      if reference ∈ around then .error .valueError
      else dumps fuel (reference :: around) (interpreter.container reference)

/-- The string that is kept of a long one -/
def truncated (text : String) : String :=
  if text.length ≤ 4000 then text else String.ofList (text.toList.take 4000) ++ "...[truncated]"

/-- `safe_jsonable` -/
def safeJsonable : ℕ → Value Obj → Except (Exn Exc) (Value Obj)
  | 0, _ => .error .recursionError
  | fuel + 1, value =>
      match value with
      | .str text => .ok (.str (truncated text))
      | _ =>
          match dumps interpreter interpreter.recursionLimit [] value with
          | .ok () => .ok value
          | .error .typeError =>
              match value with
              | .object name => do
                  match ← ofMethod (interpreter.modelDump name) with
                  | some dumped => safeJsonable fuel dumped
                  | Option.none =>
                      match ← ofMethod (interpreter.toDict name) with
                      | some dumped => safeJsonable fuel dumped
                      | Option.none =>
                          if interpreter.isGenerator name then .ok (.str "[generator]")
                          else (ofMethod (interpreter.repr name)).map .str
              | .dict entries => do
                  let converted ← entries.mapM fun (key, child) => do
                    let key ← print interpreter key
                    let child ← safeJsonable fuel child
                    .ok (key, child)
                  .ok (.dict (converted.foldl (fun entries (key, child) => setEntry key child entries) []))
              | .list items => (items.mapM (safeJsonable fuel)).map .list
              | .tuple items => (items.mapM (safeJsonable fuel)).map .list
              | .set items => (items.mapM (safeJsonable fuel)).map .list
              | .named reference => safeJsonable fuel (interpreter.container reference)
              | other => .ok other
          | .error raised => .error raised

def summarizePayload (value : Value Obj) : Except (Exn Exc) (Value Obj) := do
  let jsonable ← safeJsonable interpreter interpreter.recursionLimit value
  let text ← ofMethod (interpreter.dumpsSorted jsonable)
  .ok (.str (if text.length ≤ 500 then text else String.ofList (text.toList.take 500) ++ "...[truncated]"))

/-- `copy.deepcopy`, whose result is taken to be the value again. A container that is met again is not copied again. -/
def deepcopy : ℕ → List ℕ → Value Obj → Except (Exn Exc) Unit
  | 0, _, _ => .error .recursionError
  | fuel + 1, around, value =>
      match value with
      | .list items => items.forM (deepcopy fuel around)
      | .tuple items => items.forM (deepcopy fuel around)
      | .set items => items.forM (deepcopy fuel around)
      | .dict entries => entries.forM fun (key, child) => do
          deepcopy fuel around key
          deepcopy fuel around child
      | .object name => ofMethod (interpreter.deepcopy name)
      | .named reference =>
          if reference ∈ around then .ok () else deepcopy fuel (reference :: around) (interpreter.container reference)
      | _ => .ok ()

/-- `_redact`, which looks into dictionaries and lists. A key that is no string has no `lower`. -/
def redact (engine : RegexEngine) : ℕ → Value Obj → Except (Exn Exc) (Value Obj)
  | 0, _ => .error .recursionError
  | fuel + 1, value =>
      match value with
      | .dict entries => do
          let redacted ← entries.mapM fun (key, child) =>
            match key with
            | .str text =>
                if Sdk.secretKey text then .ok (key, .str redactionMarker)
                else (redact engine fuel child).map fun child => (key, child)
            | _ => .error .attributeError
          .ok (.dict redacted)
      | .list items => (items.mapM (redact engine fuel)).map .list
      | .str text => .ok (.str (Sdk.redactText engine text))
      | .named reference => redact engine fuel (interpreter.container reference)
      | other => .ok other

mutual

/-- JSON data as Python has it -/
def ofJson : Json → Value Obj
  | .null => .none
  | .bool flag => .bool flag
  | .number (.posInt value) => .int value
  | .number (.negInt value) => .int value
  | .number (.float bits) => .float bits
  | .string text => .str text
  | .array items => .list (ofItems items)
  | .object members => .dict (ofMembers members)

def ofItems : List Json → List (Value Obj)
  | [] => []
  | item :: rest => ofJson item :: ofItems rest

def ofMembers : List (String × Json) → List (Value Obj × Value Obj)
  | [] => []
  | (key, child) :: rest => (.str key, ofJson child) :: ofMembers rest

end

end Value

end Python

end AttowNexus
