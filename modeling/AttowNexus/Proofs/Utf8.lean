import AttowNexus.Model.Utf8

/-! # Encoded text is read back

The decoder takes the bytes of one character off the front, whatever follows, so it reads the bytes of a text as its
characters.
-/

namespace AttowNexus

section Chunks

theorem toNat_byte {n : ℕ} (small : n < 256) : (UInt8.ofNat n).toNat = n := by
  rw [UInt8.toNat_ofNat']
  omega

/-- A lead byte of two -/
theorem utf8Lead_two {n : ℕ} (low : 0xC2 ≤ n) (high : n ≤ 0xDF) :
    utf8Lead (UInt8.ofNat n) = some (0x80, 0xBF, 1, n % 32) := by
  have byte := toNat_byte (show n < 256 by omega)
  rw [utf8Lead, byte, if_pos]
  simp only [UInt8.le_iff_toNat_le, byte, UInt8.reduceToNat]
  omega

/-- A lead byte of three; `E0` and `ED` narrow the range of the next byte. -/
theorem utf8Lead_three {n m : ℕ} (low : 0xE0 ≤ n) (high : n ≤ 0xEF) (least : 0x80 ≤ m) (most : m ≤ 0xBF)
    (narrowed : (n = 0xE0 → 0xA0 ≤ m) ∧ (n = 0xED → m ≤ 0x9F)) :
    ∃ first last, utf8Lead (UInt8.ofNat n) = some (first, last, 2, n % 16) ∧ first ≤ UInt8.ofNat m ∧
      UInt8.ofNat m ≤ last := by
  have byte := toNat_byte (show n < 256 by omega)
  have next := toNat_byte (show m < 256 by omega)
  have same : ∀ literal : UInt8, UInt8.ofNat n = literal ↔ n = literal.toNat := fun literal => by
    rw [← UInt8.toNat_inj, byte]
  simp only [utf8Lead, byte, same, UInt8.le_iff_toNat_le, UInt8.reduceToNat]
  split_ifs
  · omega
  · exact ⟨_, _, by rw [show n % 16 = 0 by omega], by simp only [next, UInt8.reduceToNat]; omega⟩
  · exact ⟨_, _, by rw [show n % 16 = 13 by omega], by simp only [next, UInt8.reduceToNat]; omega⟩
  · exact ⟨_, _, rfl, by simp only [next, UInt8.reduceToNat]; omega⟩
  all_goals omega

/-- A lead byte of four; `F0` and `F4` narrow the range of the next byte. -/
theorem utf8Lead_four {n m : ℕ} (low : 0xF0 ≤ n) (high : n ≤ 0xF4) (least : 0x80 ≤ m) (most : m ≤ 0xBF)
    (narrowed : (n = 0xF0 → 0x90 ≤ m) ∧ (n = 0xF4 → m ≤ 0x8F)) :
    ∃ first last, utf8Lead (UInt8.ofNat n) = some (first, last, 3, n % 8) ∧ first ≤ UInt8.ofNat m ∧
      UInt8.ofNat m ≤ last := by
  have byte := toNat_byte (show n < 256 by omega)
  have next := toNat_byte (show m < 256 by omega)
  have same : ∀ literal : UInt8, UInt8.ofNat n = literal ↔ n = literal.toNat := fun literal => by
    rw [← UInt8.toNat_inj, byte]
  simp only [utf8Lead, byte, same, UInt8.le_iff_toNat_le, UInt8.reduceToNat]
  split_ifs
  · omega
  · omega
  · omega
  · omega
  · exact ⟨_, _, by rw [show n % 8 = 0 by omega], by simp only [next, UInt8.reduceToNat]; omega⟩
  · exact ⟨_, _, rfl, by simp only [next, UInt8.reduceToNat]; omega⟩
  · exact ⟨_, _, by rw [show n % 8 = 4 by omega], by simp only [next, UInt8.reduceToNat]; omega⟩
  · omega

/-- A continuation byte adds its six bits. -/
theorem utf8Tail_continue {low high : UInt8} {owed bits taken m : ℕ} {rest : Bytes} (fits : m < 256)
    (least : low ≤ UInt8.ofNat m) (most : UInt8.ofNat m ≤ high) :
    utf8Tail low high (owed + 1) bits taken (UInt8.ofNat m :: rest) =
      utf8Tail 0x80 0xBF owed (bits * 64 + m % 64) (taken + 1) rest := by
  rw [utf8Tail, if_pos ⟨least, most⟩, toNat_byte fits]

theorem continuation {m : ℕ} (least : 0x80 ≤ m) (most : m ≤ 0xBF) :
    m < 256 ∧ 0x80 ≤ UInt8.ofNat m ∧ UInt8.ofNat m ≤ 0xBF := by
  have byte := toNat_byte (show m < 256 by omega)
  simp only [UInt8.le_iff_toNat_le, byte, UInt8.reduceToNat]
  omega

/-- A chunk with a lead byte above ASCII -/
theorem utf8Chunk_of_lead {n owed bits : ℕ} {low high : UInt8} {rest : Bytes} (large : 0x80 ≤ n) (fits : n < 256)
    (lead : utf8Lead (UInt8.ofNat n) = some (low, high, owed, bits)) :
    utf8Chunk (UInt8.ofNat n) rest = utf8Tail low high owed bits 1 rest := by
  have other : ¬ UInt8.ofNat n < 0x80 := by
    simp only [UInt8.lt_iff_toNat_lt, toNat_byte fits, UInt8.reduceToNat]
    omega
  rw [utf8Chunk, if_neg other, lead]

/-- The first chunk of the bytes of a character is the character. -/
theorem utf8Chunk_encodeChar (c : Char) (rest : Bytes) : ∃ lead tail, String.utf8EncodeChar c = lead :: tail ∧
    utf8Chunk lead (tail ++ rest) = (some c, tail.length + 1) := by
  have valid : c.val.toNat < 0xD800 ∨ 0xDFFF < c.val.toNat ∧ c.val.toNat < 0x110000 := c.valid
  have own : Char.ofNat c.val.toNat = c := Char.ofNat_toNat c
  rw [String.utf8EncodeChar]
  generalize c.val.toNat = v at *
  by_cases one : v ≤ 0x7F
  · refine ⟨_, _, if_pos one, ?_⟩
    have byte := toNat_byte (show v < 256 by omega)
    have ascii : UInt8.ofNat v < 0x80 := by
      rw [UInt8.lt_iff_toNat_lt, byte]
      exact Nat.lt_succ_of_le one
    rw [utf8Chunk, if_pos ascii, byte, own]
    rfl
  obtain ⟨fits, least, most⟩ := continuation (show 0x80 ≤ v % 0x40 + 0x80 by omega) (by omega)
  by_cases two : v ≤ 0x7FF
  · refine ⟨_, _, (if_neg one).trans (if_pos two), ?_⟩
    rw [utf8Chunk_of_lead (by omega) (by omega) (utf8Lead_two (by omega) (by omega)), List.cons_append,
      utf8Tail_continue fits least most, utf8Tail,
      show (v / 64 % 0x20 + 0xC0) % 32 * 64 + (v % 0x40 + 0x80) % 64 = v by omega, own]
    rfl
  by_cases three : v ≤ 0xFFFF
  · refine ⟨_, _, (if_neg one).trans ((if_neg two).trans (if_pos three)), ?_⟩
    obtain ⟨first, last, lead, least', most'⟩ := utf8Lead_three (show 0xE0 ≤ v / 4096 % 0x10 + 0xE0 by omega)
      (by omega) (show 0x80 ≤ v / 64 % 0x40 + 0x80 by omega) (by omega) (by omega)
    rw [utf8Chunk_of_lead (by omega) (by omega) lead, List.cons_append, List.cons_append,
      utf8Tail_continue (by omega) least' most', utf8Tail_continue fits least most, utf8Tail,
      show ((v / 4096 % 0x10 + 0xE0) % 16 * 64 + (v / 64 % 0x40 + 0x80) % 64) * 64 + (v % 0x40 + 0x80) % 64 = v
        by omega, own]
    rfl
  · refine ⟨_, _, (if_neg one).trans ((if_neg two).trans (if_neg three)), ?_⟩
    obtain ⟨first, last, lead, least', most'⟩ := utf8Lead_four (show 0xF0 ≤ v / 262144 % 0x08 + 0xF0 by omega)
      (by omega) (show 0x80 ≤ v / 4096 % 0x40 + 0x80 by omega) (by omega) (by omega)
    obtain ⟨fits'', least'', most''⟩ := continuation (show 0x80 ≤ v / 64 % 0x40 + 0x80 by omega) (by omega)
    rw [utf8Chunk_of_lead (by omega) (by omega) lead, List.cons_append, List.cons_append, List.cons_append,
      utf8Tail_continue (by omega) least' most', utf8Tail_continue fits'' least'' most'',
      utf8Tail_continue fits least most, utf8Tail,
      show (((v / 262144 % 0x08 + 0xF0) % 8 * 64 + (v / 4096 % 0x40 + 0x80) % 64) * 64 +
        (v / 64 % 0x40 + 0x80) % 64) * 64 + (v % 0x40 + 0x80) % 64 = v by omega, own]
    rfl

end Chunks

section Texts

/-- The chunks of the bytes of some characters are the characters. -/
theorem utf8Chunks_encode (chars : List Char) {fuel : ℕ}
    (enough : (chars.flatMap String.utf8EncodeChar).length ≤ fuel) :
    utf8Chunks fuel (chars.flatMap String.utf8EncodeChar) = chars.map some := by
  induction chars generalizing fuel with
  | nil =>
    rw [List.flatMap_nil]
    cases fuel <;> rfl
  | cons c chars ih =>
    obtain ⟨lead, tail, encoded, chunk⟩ := utf8Chunk_encodeChar c (chars.flatMap String.utf8EncodeChar)
    rw [List.flatMap_cons, encoded, List.length_append, List.length_cons] at enough
    obtain ⟨fuel, rfl⟩ := Nat.exists_eq_succ_of_ne_zero (show fuel ≠ 0 by omega)
    rw [List.flatMap_cons, encoded, List.cons_append, utf8Chunks, chunk]
    simp only [Nat.add_sub_cancel, List.drop_left, List.map_cons]
    rw [ih (by omega)]

/-- `from_utf8` reads the bytes of a text as the text. -/
theorem fromUtf8_utf8Bytes (text : String) : fromUtf8 (utf8Bytes text) = some text := by
  rw [fromUtf8, utf8Bytes, utf8Chunks_encode text.toList (Nat.le_refl _)]
  have all : ∀ chars : List Char, (chars.map some).mapM id = some chars := by
    intro chars
    induction chars with
    | nil => rfl
    | cons c chars ih => rw [List.map_cons, List.mapM_cons, ih]; rfl
  rw [all, Option.map_some, String.ofList_toList]

theorem utf8Bytes_injective {left right : String} (same : utf8Bytes left = utf8Bytes right) : left = right := by
  have read : some left = some right := by rw [← fromUtf8_utf8Bytes left, ← fromUtf8_utf8Bytes right, same]
  exact Option.some.inj read

theorem fromUtf8Lossy_utf8Bytes (text : String) : fromUtf8Lossy (utf8Bytes text) = text := by
  rw [fromUtf8Lossy, utf8Bytes, utf8Chunks_encode text.toList (Nat.le_refl _), List.map_map]
  exact (congrArg String.ofList (List.map_id _)).trans String.ofList_toList

end Texts

end AttowNexus
