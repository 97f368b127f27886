import AttowNexus.Model.PythonValues

/-! # Python data

The values that `json.dumps` writes when every key of a dictionary is a string, with what `json.loads` makes of their
text. `_redact` on them is a recursion over their structure.
-/

namespace AttowNexus

namespace Python

inductive Data where
  | none
  | bool (flag : Bool)
  | int (value : ℤ)
  | float (bits : UInt64)
  | str (text : String)
  | list (items : List Data)
  | tuple (items : List Data)
  | dict (entries : List (String × Data))
deriving Repr, Inhabited

namespace Data

section Conversions

variable {Obj : Type}

mutual

/-- The data as a Python value -/
def toValue : Data → Value Obj
  | .none => .none
  | .bool flag => .bool flag
  | .int value => .int value
  | .float bits => .float bits
  | .str text => .str text
  | .list items => .list (toItems items)
  | .tuple items => .tuple (toItems items)
  | .dict entries => .dict (toEntries entries)

def toItems : List Data → List (Value Obj)
  | [] => []
  | item :: rest => item.toValue :: toItems rest

def toEntries : List (String × Data) → List (Value Obj × Value Obj)
  | [] => []
  | (key, child) :: rest => (.str key, child.toValue) :: toEntries rest

end

mutual

/-- `json.loads(json.dumps(data))`: a tuple is written as a list is. -/
def reloaded : Data → Data
  | .list items => .list (reloadedItems items)
  | .tuple items => .list (reloadedItems items)
  | .dict entries => .dict (reloadedEntries entries)
  | data => data

def reloadedItems : List Data → List Data
  | [] => []
  | item :: rest => item.reloaded :: reloadedItems rest

def reloadedEntries : List (String × Data) → List (String × Data)
  | [] => []
  | (key, child) :: rest => (key, child.reloaded) :: reloadedEntries rest

end

end Conversions

variable (engine : RegexEngine)

mutual

/-- `_redact`, which returns a tuple as it is -/
def redact : Data → Data
  | .dict entries => .dict (redactEntries entries)
  | .list items => .list (redactItems items)
  | .str text => .str (Sdk.redactText engine text)
  | data => data

def redactItems : List Data → List Data
  | [] => []
  | item :: rest => redact item :: redactItems rest

def redactEntries : List (String × Data) → List (String × Data)
  | [] => []
  | (key, child) :: rest =>
      (key, if Sdk.secretKey key then .str redactionMarker else redact child) :: redactEntries rest

end

end Data

end Python

end AttowNexus
