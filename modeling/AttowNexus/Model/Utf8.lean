import AttowNexus.Model.Proto

/-! # UTF-8 text

`str::as_bytes`, `str::from_utf8` and `String::from_utf8_lossy`. The decoder takes one chunk off the
front at a time: a character, or the longest start of one that the following byte rules out.
-/

namespace AttowNexus

/-- `str::as_bytes`. -/
def utf8Bytes (text : String) : Bytes := text.toList.flatMap String.utf8EncodeChar

/-- What may follow a lead byte: the range of the next byte, the number of bytes and the lead's own bits. -/
def utf8Lead (lead : UInt8) : Option (UInt8 × UInt8 × ℕ × ℕ) :=
  if 0xC2 ≤ lead ∧ lead ≤ 0xDF then some (0x80, 0xBF, 1, lead.toNat % 32)
  else if lead = 0xE0 then some (0xA0, 0xBF, 2, 0)
  else if lead = 0xED then some (0x80, 0x9F, 2, 13)
  else if 0xE1 ≤ lead ∧ lead ≤ 0xEF then some (0x80, 0xBF, 2, lead.toNat % 16)
  else if lead = 0xF0 then some (0x90, 0xBF, 3, 0)
  else if 0xF1 ≤ lead ∧ lead ≤ 0xF3 then some (0x80, 0xBF, 3, lead.toNat % 8)
  else if lead = 0xF4 then some (0x80, 0x8F, 3, 4)
  else none

/-- Read the continuation bytes that are owed; on failure, how many were there. -/
def utf8Tail (low high : UInt8) : ℕ → ℕ → ℕ → Bytes → Option Char × ℕ
  | 0, bits, taken, _ => (some (Char.ofNat bits), taken)
  | owed + 1, bits, taken, byte :: rest =>
      if low ≤ byte ∧ byte ≤ high then utf8Tail 0x80 0xBF owed (bits * 64 + byte.toNat % 64) (taken + 1) rest
      else (none, taken)
  | _ + 1, _, taken, [] => (none, taken)

/-- The first chunk: a character or `none` for an ill-formed piece, and its length in bytes. -/
def utf8Chunk (lead : UInt8) (rest : Bytes) : Option Char × ℕ :=
  if lead < 0x80 then (some (Char.ofNat lead.toNat), 1)
  else
    match utf8Lead lead with
    | none => (none, 1)
    | some (low, high, owed, bits) => utf8Tail low high owed bits 1 rest

/-- All chunks; every chunk is at least one byte long, so the number of bytes is enough fuel. -/
def utf8Chunks : ℕ → Bytes → List (Option Char)
  | _, [] => []
  | 0, _ :: _ => []
  | fuel + 1, lead :: rest =>
      let (chunk, length) := utf8Chunk lead rest
      chunk :: utf8Chunks fuel (rest.drop (length - 1))

/-- `str::from_utf8(..).ok()`. -/
def fromUtf8 (data : Bytes) : Option String :=
  ((utf8Chunks data.length data).mapM id).map String.ofList

/-- `String::from_utf8_lossy`: one replacement character for each ill-formed piece. -/
def fromUtf8Lossy (data : Bytes) : String :=
  String.ofList ((utf8Chunks data.length data).map (·.getD '\uFFFD'))

example : fromUtf8Lossy [0x61, 0xE2, 0x82, 0x62] = "a\uFFFDb" := by decide

end AttowNexus
