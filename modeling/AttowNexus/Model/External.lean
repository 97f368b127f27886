import AttowNexus.Model.Json
import AttowNexus.Model.Utf8
import AttowNexus.Library.Regex

/-! # Code outside the repository

The hash, the encoders and the regex engine the daemon calls are parameters: a hash has 64 digits,
everything else about them is assumed where it is used. Random ids come from a number chosen by the
environment. `External.sample` is a small concrete choice to run the model with.
-/

namespace AttowNexus

/-- The last digits of a number, in base 16. -/
def hexDigits : ℕ → ℕ → List Char
  | 0, _ => []
  | count + 1, value => hexDigits count (value / 16) ++ [Nat.digitChar (value % 16)]

@[simp] theorem length_hexDigits (count value : ℕ) : (hexDigits count value).length = count := by
  induction count generalizing value with
  | zero => rfl
  | succ count ih => rw [hexDigits, List.length_append, ih, List.length_singleton]

/-- The value of `Uuid::new_v4()`. -/
abbrev Uuid := BitVec 128

/-- `new_id`: the kind of the object and the 32 digits of `Uuid::simple`. -/
def newId (kind : String) (uuid : Uuid) : String := kind ++ "_" ++ String.ofList (hexDigits 32 uuid.toNat)

/-- The 64 digits of a hash. -/
abbrev HashDigits := { digits : List Char // digits.length = 64 }

/-- The third-party functions the ledger calls. -/
structure External where
  /-- `blake3::hash(..).to_hex()` -/
  toHex : Bytes → HashDigits
  /-- `Commit::encode_to_vec` -/
  encodeToVec : Commit → Bytes
  /-- `serde_json::from_slice` -/
  fromSlice : Bytes → Option JsonValue
  /-- `serde_json::to_vec` -/
  toVec : Json → Bytes
  /-- `Regex::replace_all` -/
  replaceAll : Regex → String → String → String
  /-- `zstd::stream::encode_all(.., 3)` -/
  encodeAll : Bytes → Bytes
  /-- `zstd::stream::decode_all` -/
  decodeAll : Bytes → Option Bytes
  /-- Whether `char::escape_debug` writes a character outside ASCII as a `\u` escape. -/
  escapesUnicode : Char → Bool

namespace External

variable (deps : External)

/-- `blake3_hex` -/
def blake3Hex (data : Bytes) : String := String.ofList (deps.toHex data).1

/-- The first 32 digits of a hash, `full_hash[..32]`. -/
def shortHash (data : Bytes) : String := String.ofList ((deps.toHex data).1.take 32)

theorem length_shortHash (data : Bytes) : (deps.shortHash data).length = 32 := by
  rw [shortHash, String.length_ofList, List.length_take, (deps.toHex data).2]
  rfl

end External

namespace Sample

/-- A checksum in 64 hexadecimal digits. -/
def checksum (data : Bytes) : HashDigits :=
  ⟨(hexDigits 64 (data.foldl (fun sum byte => sum * 256 + byte.toNat) 1)).reverse, by simp⟩

def renderNumber : JsonNumber → String
  | .posInt value => toString value
  | .negInt value => toString value
  | .float bits => toString bits.toNat

mutual

/-- The compact form, for texts that need no escapes. -/
def render : Json → String
  | .null => "null"
  | .bool flag => toString flag
  | .number value => renderNumber value
  | .string text => "\"" ++ text ++ "\""
  | .array items => "[" ++ renderItems items ++ "]"
  | .object members => "\x7b" ++ renderMembers members ++ "\x7d"

def renderItems : List Json → String
  | [] => ""
  | [item] => render item
  | item :: rest => render item ++ "," ++ renderItems rest

def renderMembers : List (String × Json) → String
  | [] => ""
  | [(key, value)] => "\"" ++ key ++ "\":" ++ render value
  | (key, value) :: rest => "\"" ++ key ++ "\":" ++ render value ++ "," ++ renderMembers rest

end

/-- The numbers in which the commits of a small run differ. -/
def encode (commit : Commit) : Bytes :=
  [commit.logicalClock.toNat, commit.wallSeconds.toNat, commit.parentCommitIds.length,
    commit.externalSideEffects.length].map UInt8.ofNat

/-- The documents that the sample parser knows. -/
def documents : List JsonValue :=
  [⟨.object [], ⟨List.Pairwise.nil, trivial⟩⟩,
   ⟨.object [("a", .number (.posInt 1))], ⟨List.pairwise_singleton _ _, trivial, trivial⟩⟩]

end Sample

/-- Concrete functions that act as the real ones on small documents without secrets. -/
def External.sample : External where
  toHex := Sample.checksum
  encodeToVec := Sample.encode
  fromSlice data := Sample.documents.find? fun value => utf8Bytes (Sample.render value.1) = data
  toVec value := utf8Bytes (Sample.render value)
  replaceAll _ text _ := text
  encodeAll data := data
  decodeAll data := some data
  escapesUnicode _ := false

end AttowNexus
