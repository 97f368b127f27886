import AttowNexus.Model.PythonValues

/-! # Capturing values within a bound

`safe_jsonable` of `universal.py` with its second argument and `safeJsonable` of `universal.ts`. Python has characters
and JavaScript has code units, and both cut a string at a number that may be negative and then counts from the end.
-/

namespace AttowNexus

/-- `value[:bound]` and `value.slice(0, bound)` -/
def clip {α : Type} (bound : ℤ) (letters : List α) : List α :=
  letters.take (if 0 ≤ bound then bound.toNat else (letters.length + bound).toNat)

/-- A string that is not longer than the bound, or what is cut of it with the mark. -/
def truncate {α : Type} (mark : List α) (bound : ℤ) (letters : List α) : List α :=
  if (letters.length : ℤ) ≤ bound then letters else clip bound letters ++ mark

/-- What follows on a string that was cut -/
def truncationMark : String := "...[truncated]"

namespace Python

namespace Value

variable {Obj Exc : Type} (interpreter : Interpreter Obj Exc)

/-- `safe_jsonable(value, max_string_chars)`. Only a string looks at the bound: every recursive call leaves it out, so
that the rest is what `safe_jsonable` does with its default. -/
def safeJsonableWithin (maxStringChars : ℤ) (fuel : ℕ) : Value Obj → Except (Exn Exc) (Value Obj)
  | .str text => .ok (.str (String.ofList (truncate truncationMark.toList maxStringChars text.toList)))
  | value => safeJsonable interpreter fuel value

end Value

end Python

namespace TypeScript

/-- A string of JavaScript: code units -/
abbrev Units := List UInt16

/-- The code units of a text -/
def codeUnits (text : String) : Units :=
  text.toList.flatMap fun c =>
    if c.toNat < 0x10000 then [UInt16.ofNat c.toNat]
    else [UInt16.ofNat (0xD800 + (c.toNat - 0x10000) / 0x400), UInt16.ofNat (0xDC00 + (c.toNat - 0x10000) % 0x400)]

/-- A value without cycles. An object is what `Object.entries` lists of it. -/
inductive Datum where
  | undefined
  | null
  | bool (flag : Bool)
  | number (bits : UInt64)
  | string (units : Units)
  | bigint (value : ℤ)
  | symbol (description : Units)
  | function
  | array (items : List Datum)
  | object (entries : List (Units × Datum))

namespace Datum

mutual

/-- `safeJsonable(value, maxStringChars)` -/
def safeJsonable (maxStringChars : ℤ) : Datum → Datum
  | .string units => .string (truncate (codeUnits truncationMark) maxStringChars units)
  | .null => .null
  | .undefined => .undefined
  | .number bits => .number bits
  | .bool flag => .bool flag
  | .array items => .array (safeItems maxStringChars items)
  | .object entries => .object (safeEntries maxStringChars entries)
  | .function => .string (codeUnits "[function]")
  | .bigint value => .string (codeUnits (toString value))
  | .symbol description => .string (codeUnits "Symbol(" ++ description ++ codeUnits ")")

def safeItems (maxStringChars : ℤ) : List Datum → List Datum
  | [] => []
  | item :: rest => item.safeJsonable maxStringChars :: safeItems maxStringChars rest

/-- The assignments to `output`. One to `__proto__` makes no property. -/
def safeEntries (maxStringChars : ℤ) : List (Units × Datum) → List (Units × Datum)
  | [] => []
  | (key, child) :: rest =>
      if key = codeUnits "__proto__" then safeEntries maxStringChars rest
      else (key, child.safeJsonable maxStringChars) :: safeEntries maxStringChars rest

end

mutual

/-- Does `JSON.stringify` throw? It takes no `BigInt`. -/
def throwsInJson : Datum → Bool
  | .bigint _ => true
  | .array items => throwsInItems items
  | .object entries => throwsInEntries entries
  | _ => false

def throwsInItems : List Datum → Bool
  | [] => false
  | item :: rest => item.throwsInJson || throwsInItems rest

def throwsInEntries : List (Units × Datum) → Bool
  | [] => false
  | (_, child) :: rest => child.throwsInJson || throwsInEntries rest

end

/-- Does `JSON.stringify` give a text? -/
def stringifies : Datum → Bool
  | .undefined => false
  | .symbol _ => false
  | .function => false
  | value => !value.throwsInJson

end Datum

end TypeScript

end AttowNexus
